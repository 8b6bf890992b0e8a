import ReversePolish.Proofs.Machine
import ReversePolish.Proofs.Once

/-!
# Refusal — what a refused text leaves behind

A conversion that is refused leaves its converter where the last event shows it, but for what the refusal
itself has moved.  The token at fault has no event, and the converter is never used for a conversion again.
-/

namespace ReversePolish

/-! ## 1. The converter after a refusal -/

def Converter.machine (c : Converter) : Machine := ⟨c.output.toList, c.stack.entries⟩

/-- What the last event shows; before the first one nothing is in the output or on the stack. -/
def lastShown (es : List Event) : Machine := (es.getLast?.map Event.machine).getD .empty

/-- `Refused s d c`: the text `s` is refused with the diagnostic `d`, and the converter is left as `c`.  Where a
token is at fault, all events are about tokens before it: it has no event, and with that no record in the
log. -/
inductive Refused (s : String) : Diagnostic → Converter → Prop where
  | invalidToken {ch : Char} {start : Nat} {c : Converter} :
      c.machine = lastShown c.log.toList → c.pos = start →
      (∀ e ∈ c.log.toList, e.position + e.token.length ≤ start) →
      Refused s (.invalidToken ch start) c
  /-- All of the stack went to the output in the search for an opening. -/
  | mismatchedClosing {start stop : Nat} {c : Converter} :
      c.machine = ⟨(lastShown c.log.toList).output ++ (lastShown c.log.toList).stack, []⟩ → c.pos = stop →
      (∀ e ∈ c.log.toList, e.position + e.token.length ≤ start) →
      Refused s (.mismatchedClosing start stop) c
  | invalidOperatorCount {operators numbers : Nat} {c : Converter} :
      c.machine = lastShown c.log.toList → c.pos = s.length → (∀ e ∈ c.log.toList, e.action ≠ .drain) →
      Refused s (.invalidOperatorCount operators numbers s.length) c
  /-- The drain stopped at the innermost opening, which it took away without an event. -/
  | unmatchedOpening {scanned drained : List Event} {c : Converter} :
      c.log.toList = scanned ++ drained → (∀ e ∈ scanned, e.action ≠ .drain) →
      (∀ e ∈ drained, e.action = .drain) → "(" ∉ drained.map Event.token →
      (lastShown scanned).stack = drained.map Event.token ++ "(" :: c.stack.entries →
      lastShown c.log.toList = ⟨c.output.toList, "(" :: c.stack.entries⟩ → c.pos = s.length →
      Refused s (.unmatchedOpening s.length) c

/-! ## 2. The yard after a fault -/

namespace Yard

variable {y : Yard} {ts before after : List Token} {t : Token} {stop : Nat}

-- The yard does not read behind the text.
theorem keeps_pos_le (order : InOrder 0 stop ts) : Keeps ts stop fun _ y => y.pos ≤ stop where
  absorb := by
    intro before after t y hts hcomplaint _
    rw [pos_absorb hcomplaint]
    exact order.stop_le t (by simp [hts])
  pass h := Nat.max_le.2 ⟨h, Nat.le_refl _⟩
  drain _ _ h := h

theorem lastShown_absorbAll (h : (empty.absorbAll ts).fault = none) :
    lastShown ((empty.absorbAll ts).moves.map (Move.event [])) = (empty.absorbAll ts).last.machine :=
  (run_absorbAll (y := empty) (by simp [empty]) h).eq_last.symm

theorem lastShown_drain (h : (empty.absorbAll ts).fault = none) (hy : (empty.absorbAll ts).last.pass stop = y) :
    lastShown ((empty.absorbAll ts).moves.map (Move.event []) ++
        (y.drain stop y.waiting).moves.map (Move.event [])) =
      ⟨(y.output ++ y.waiting.takeWhile (!·.opens)).map Token.text,
        (y.waiting.dropWhile (!·.opens)).map Token.text⟩ := by
  have hscan : Machine.Run .empty ((empty.absorbAll ts).moves.map (Move.event [])) y.machine :=
    hy ▸ run_absorbAll (y := empty) (by simp [empty]) h
  have waits : ∀ w ∈ y.waiting, w.waits = true := hy ▸ waits_absorbAll (y := empty) ts (by simp [empty])
  exact (hscan.append (run_drain rfl waits)).eq_last.symm

-- The tokens that are absorbed lie before the next one.
theorem end_le_start (order : InOrder 0 stop (before ++ t :: after))
    (h : (empty.absorbAll before).fault = none) :
    ∀ e ∈ (empty.absorbAll before).moves.map (Move.event []), e.position + e.token.length ≤ t.start := by
  obtain ⟨htokens, hmoves⟩ := moves_absorbAll h
  obtain ⟨p, hbefore, hstart, -⟩ := order.exists_append
  intro e he
  obtain ⟨m, hm, rfl⟩ := List.mem_map.1 he
  have hle := hbefore.stop_le m.token (htokens ▸ List.mem_map_of_mem hm)
  rw [Token.stop, ← Token.length_text, ← (hmoves m hm).1] at hle
  exact Int.ofNat_le.2 (Nat.le_trans hle hstart)

theorem map_token_event_drain (y : Yard) (stop : Nat) (ts : List Token) :
    ((y.drain stop ts).moves.map (Move.event [])).map Event.token =
      (ts.takeWhile (!·.opens)).map Token.text := by
  rw [← map_token_drain y stop, List.map_map, List.map_map]
  rfl

end Yard

section

variable {s : String} {ts before after : List Token} {t : Token} {d : Diagnostic}

theorem machine_holding (s : String) (y : Yard) (es : List Event) :
    ((Converter.ofString s).start.holding y es).machine = y.machine := by
  rw [Converter.machine, Converter.toList_output_holding]
  rfl

theorem refused_at_token (order : InOrder 0 s.toList.length (before ++ t :: after))
    (h : (Yard.empty.absorbAll before).fault = none)
    (ht : (Yard.empty.absorbAll before).last.complaint? t = some d) :
    Refused s d ((Converter.ofString s).start.holding ((Yard.empty.absorbAll before).last.absorb t)
      ((Yard.empty.absorbAll before).moves.map (Move.event []))) := by
  have hlast := Yard.lastShown_absorbAll h
  have hends := Yard.end_le_start order h
  rcases Yard.complaint?_eq_some ht with ⟨c, hinvalid, rfl⟩ | ⟨hclosing, hopens, rfl⟩
  · refine .invalidToken ?_ ?_ hends
    · rw [machine_holding, Yard.absorb_of_invalid hinvalid]
      exact hlast.symm
    · rw [Yard.absorb_of_invalid hinvalid]
      rfl
  · -- without an opening, the search for it goes through the whole stack
    obtain ⟨htake, hdrop⟩ := Token.takeWhile_of_not_opens hopens
    rw [Yard.absorb_of_closing hclosing, htake, hdrop]
    refine .mismatchedClosing ?_ rfl hends
    have hshown := congrArg (fun m : Machine => (⟨m.output ++ m.stack, []⟩ : Machine)) hlast
    rw [machine_holding, Yard.machine, List.map_append]
    exact hshown.symm

-- At the end of the text all tokens are absorbed, and nothing lies between their events and the drain.
theorem refused_at_end (order : InOrder 0 s.toList.length ts) (h : (Yard.empty.absorbAll ts).fault = none)
    (hd : (Yard.empty.convert ts s.toList.length).fault = some d) :
    Refused s d ((Converter.ofString s).start.holding (Yard.empty.convert ts s.toList.length).last
      ((Yard.empty.convert ts s.toList.length).moves.map (Move.event []))) := by
  have hlast := Yard.lastShown_absorbAll h
  rw [String.length_toList] at order hd ⊢
  have hpos : max (Yard.empty.absorbAll ts).last.pos s.length = s.length :=
    Nat.max_eq_right ((Yard.keeps_pos_le order).last_absorbAll (List.nil_append ts).symm (Nat.zero_le _) h)
  have hscanned : ∀ e ∈ (Yard.empty.absorbAll ts).moves.map (Move.event []), e.action ≠ .drain := by
    intro e he
    obtain ⟨m, hm, rfl⟩ := List.mem_map.1 he
    exact Yard.action_of_mem_absorbAll m hm
  unfold Yard.convert at hd ⊢
  rw [Course.andThen_of_no_fault h] at hd ⊢
  dsimp only at hd ⊢
  rcases Yard.conclude_eq_some hd with ⟨hcounts, rfl⟩ | ⟨hcounts, hopens, rfl⟩
  · rw [Yard.conclude, if_pos hcounts, List.append_nil]
    refine .invalidOperatorCount ?_ hpos hscanned
    rw [machine_holding]
    exact hlast.symm
  · rw [Yard.conclude, if_neg (Nat.not_le_of_lt hcounts), Yard.last_drain_eq, List.map_append]
    have waits := Yard.waits_absorbAll (y := Yard.empty) ts (by simp [Yard.empty])
    refine .unmatchedOpening (List.nil_append (_ ++ _)) hscanned ?_ ?_ ?_ ?_ hpos
    · intro e he
      obtain ⟨m, hm, rfl⟩ := List.mem_map.1 he
      exact (Yard.forall_mem_drain m hm).1
    · rw [Yard.map_token_event_drain]
      exact Yard.opening_notMem_takeWhile waits
    · rw [Yard.map_token_event_drain, hlast]
      exact Yard.map_text_of_opens hopens
    · have hshown := Yard.lastShown_drain (y := (Yard.empty.absorbAll ts).last.pass s.length) h rfl
      rw [Yard.map_text_dropWhile_of_opens hopens] at hshown
      rw [Converter.toList_output_holding]
      exact hshown

end

/-! ## 3. Texts -/

theorem run_of_error {s : String} {f : Fault} (h : toReversePolish s = .error f) :
    run s = .error f (finish s) := by
  rw [toReversePolish, queueOf] at h
  rw [finish]
  cases hrun : run s with
  | ok q c => rw [hrun] at h; contradiction
  | error e c =>
    rw [hrun] at h
    cases h
    rfl

/-- A text that is refused, while no observer stops it, leaves the converter as the last event and the
diagnostic tell.  Whatever calls follow, the converter refuses to convert once more and is not changed by the
attempt. -/
theorem run_refused {s : String} {watch : Option Observer} {f : Fault} {c : Converter}
    (h : run s watch = .error f c) (unstopped : ∀ reason, f ≠ .stopped reason) :
    (∃ d, f = .malformed d ∧ Refused s d c) ∧
      ∀ (watch' : Option Observer) (calls more : List Converter.Call),
        Converter.session watch' c (calls ++ .convert :: more) =
          Converter.session watch' c calls ++
            ⟨.error .alreadyConverted, Converter.afterCalls watch' c calls, []⟩ ::
              Converter.session watch' (Converter.afterCalls watch' c calls) more := by
  obtain ⟨ts, reading⟩ : ∃ ts, Reading 0 s.toList ts := ⟨_, reading_scan _ _⟩
  have order := reading.inOrder
  rw [Nat.zero_add] at order
  obtain ⟨d, rfl, hd, rfl⟩ := eq_of_run_error reading h unstopped
  refine ⟨⟨d, rfl, ?_⟩, fun _ calls more => Converter.session_convert_of_started calls more rfl⟩
  cases hfault : (Yard.empty.absorbAll ts).fault with
  | none => exact refused_at_end order hfault hd
  | some f =>
    obtain ⟨before, t, after, rfl, hbefore, ht, -⟩ := Yard.exists_stop_of_fault hfault
    rw [Yard.convert_of_stop hbefore ht] at hd ⊢
    cases hd
    exact refused_at_token order hbefore ht

/-- Two operators are drained before an opening is found, and one is left below it. -/
theorem run_refused_open :
    toReversePolish "2 - (3 * 4 ^ 5" = .error (.malformed (.unmatchedOpening 14)) ∧
      Refused "2 - (3 * 4 ^ 5" (.unmatchedOpening 14) (finish "2 - (3 * 4 ^ 5") ∧
      (finish "2 - (3 * 4 ^ 5").machine = ⟨["2", "3", "4", "5", "^", "*"], ["-"]⟩ ∧
      (Converter.session none (finish "2 - (3 * 4 ^ 5") [.dequeue, .convert]).map Converter.Answer.result =
        [.ok (.text "2"), .error .alreadyConverted] := by
  have h : toReversePolish "2 - (3 * 4 ^ 5" = .error (.malformed (.unmatchedOpening 14)) := by decide +kernel
  obtain ⟨⟨d, hd, hrefused⟩, hsession⟩ := run_refused (run_of_error h) (by simp)
  cases hd
  have hcalls := hsession none [.dequeue] []
  rw [List.singleton_append] at hcalls
  refine ⟨h, hrefused, by decide +kernel, ?_⟩
  rw [hcalls]
  decide +kernel

end ReversePolish
