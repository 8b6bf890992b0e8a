import ReversePolish.Proofs.Group
import ReversePolish.Proofs.Relocation

/-!
# Resumption — a conversion that begins inside a text

A converter may be sent to any place of its text before it converts, with as many strings in its output as
characters lie behind it.  It treats the rest of the text as a text of its own, and puts what it makes of it
behind those strings.
-/

namespace ReversePolish

/-! ## 1. Events and diagnostics of the rest -/

/-- An event of the rest of a text as the whole text has it, when `p` characters and the output `queued` come
before the rest. -/
def Event.further (p : Nat) (queued : List String) (e : Event) : Event :=
  { e with position := e.position + p, output := queued ++ e.output }

/-- A diagnostic of the rest of a text as the whole text has it, when `p` characters come before the rest.  The
count of operators and numbers is about the text from its beginning in both. -/
def Diagnostic.further (p : Nat) (d : Diagnostic) : Diagnostic :=
  { d with
    start := if d.kind = .invalidOperatorCount then d.start else d.start + p
    stop := d.stop + p }

theorem Move.eventAt_add (p : Nat) (queued : List String) (m : Move) :
    m.eventAt (· + p) queued = (m.event []).further p queued := by
  simp [Move.eventAt, Move.event, Event.further]

theorem relocates_further (p : Nat) : Relocates (· + p) (Diagnostic.further p) where
  invalidToken c start := by
    simp [Diagnostic.further, Diagnostic.invalidToken, Int.add_right_comm]
  mismatchedClosing start := by
    simp [Diagnostic.further, Diagnostic.mismatchedClosing, Int.add_right_comm]

theorem relocatesEnd_further (p stop : Nat) :
    RelocatesEnd (· + p) (Diagnostic.further p) stop (stop + p) where
  stop_eq := rfl
  invalidOperatorCount operators numbers := by simp [Diagnostic.further, Diagnostic.invalidOperatorCount]
  unmatchedOpening := by simp [Diagnostic.further, Diagnostic.unmatchedOpening]

/-! ## 2. Converters inside a text -/

namespace Converter

/-- Puts the strings `queued` into the output and goes to the position `p`. -/
def prepare (p : Nat) (queued : List String) : Conversion Unit := do
  queued.forM enqueue
  moveTo p

/-- A converter of the text `t` that was prepared and has not converted yet. -/
def preparedAt (t : String) (p : Nat) (queued : List String) : Converter :=
  { ofString t with pos := p, output := (ofString t).output.extend queued }

theorem forM_enqueue_of_room {c : Converter} {items : List String}
    (room : (c.output.size + items.length : Int) ≤ c.output.capacity) :
    (items.forM enqueue : Conversion Unit) c = .ok () { c with output := c.output.extend items } := by
  induction items generalizing c with
  | nil => rfl
  | cons s items ih =>
    rw [List.length_cons] at room
    have hsize : (c.output.append s).size = c.output.size + 1 := c.output.size_extend [s]
    have hcapacity : (c.output.append s).capacity = c.output.capacity := rfl
    have hrest := ih (c := { c with output := c.output.append s }) (by
      show ((c.output.append s).size + items.length : Int) ≤ (c.output.append s).capacity
      rw [hsize, hcapacity]
      omega)
    exact (bind_of_ok (enqueue_of_room (by omega) s) _).trans hrest

variable {t : String} {p : Nat} {queued : List String}

theorem prepare_ofString (hp : p ≤ t.length) (hqueued : queued.length ≤ p) :
    prepare p queued (ofString t) = .ok () (preparedAt t p queued) := by
  have hroom : ((ofString t).output.size + queued.length : Int) ≤ (ofString t).output.capacity := by
    show (((0 : Nat) : Int) + queued.length : Int) ≤ t.toList.length
    rw [String.length_toList]
    omega
  exact bind_of_ok (forM_enqueue_of_room hroom) _

theorem toList_output_preparedAt (t : String) (p : Nat) (queued : List String) :
    (preparedAt t p queued).output.toList = queued := by
  rw [preparedAt, Queue.toList_extend]
  rfl

theorem fits_preparedAt (hp : p ≤ t.length) (hqueued : queued.length ≤ p) : Fits (preparedAt t p queued) where
  output_capacity := by
    rw [preparedAt, Queue.capacity_extend]
    exact Int.le_refl _
  stack_capacity := Int.le_refl _
  room := by
    rw [Queue.size_eq_length_toList, toList_output_preparedAt]
    exact hqueued
  pos_le := by
    show p ≤ t.toList.length
    rwa [String.length_toList]
  known := by simp [preparedAt, ofString, Stack.ofCapacity]

end Converter

/-! ## 3. Texts -/

/-- The conversion of the text `t` from the position `p` on, with the strings `queued` in the output. -/
def resume (t : String) (p : Nat) (queued : List String) (watch : Option Observer := none) :
    EStateM.Result Fault Converter (Queue String) :=
  (do Converter.prepare p queued; Converter.convert watch : Conversion (Queue String)).run (.ofString t)

def restOf (t : String) (p : Nat) : String := String.ofList (t.toList.drop p)

section

variable {t : String} {p : Nat} {queued : List String} {watch : Option Observer} {ts : List Token}

-- The rest is read by itself, and its tokens stand `p` characters further on in the text.
theorem reading_rest (reading : Reading 0 (restOf t p).toList ts) :
    Reading p (t.toList.drop p) (ts.map (Token.relocate (· + p))) := by
  rw [restOf, String.toList_ofList] at reading
  have hshift := reading.relocate_add p
  rw [Nat.zero_add] at hshift
  exact hshift

theorem relocated_resumption (hp : p ≤ t.length) (queued : List String) (ts : List Token) :
    Course.Relocated (· + p) (Diagnostic.further p) (Yard.empty.convert ts (restOf t p).toList.length)
      (((Converter.preparedAt t p queued).yard []).convert (ts.map (Token.relocate (· + p)))
        t.toList.length) := by
  have hlength : (restOf t p).toList.length + p = t.toList.length := by
    rw [restOf, String.toList_ofList, List.length_drop, Nat.sub_add_cancel (by rwa [String.length_toList])]
  rw [← hlength]
  exact Yard.relocated_convert (relocates_further p) (relocatesEnd_further p _) Yard.empty ts p

theorem resume_eq (hp : p ≤ t.length) (hqueued : queued.length ≤ p) (silent : Converter.Silent watch)
    (reading : Reading p (t.toList.drop p) ts) {r : Course}
    (hr : ((Converter.preparedAt t p queued).yard []).convert ts t.toList.length = r) :
    ∃ c, c.output.toList = queued ++ r.last.output.map Token.text ∧
      c.log.toList = r.moves.map (Move.event queued) ∧
      resume t p queued watch =
        match r.fault with
        | none => .ok c.output c
        | some d => .error (.malformed d) c := by
  have hconvert := Converter.convert_of_fits (Converter.fits_preparedAt hp hqueued)
    (show [].map Token.text = _ from rfl) (by simp) reading watch rfl
  have hprepare : resume t p queued watch = Converter.convert watch (Converter.preparedAt t p queued) :=
    Converter.bind_of_ok (Converter.prepare_ofString hp hqueued) _
  rw [← hprepare, Converter.ending_of_silent silent, List.nil_append] at hconvert
  have houtput : (Converter.preparedAt t p queued).start.output.toList = queued :=
    Converter.toList_output_preparedAt t p queued
  rw [show (Converter.preparedAt t p queued).text = t.toList from rfl, hr, houtput] at hconvert
  refine ⟨(Converter.preparedAt t p queued).start.holding r.last (r.moves.map (Move.event queued)),
    ?_, rfl, ?_⟩
  · rw [Converter.toList_output_holding, houtput]
  · rw [hconvert]
    cases r.fault <;> rfl

end

/-- From a place inside a text, and with no more strings in its output than characters lie behind it, a
converter treats the rest as a text of its own.  It has the same events and comes to the same end, further on
in the text, and what the rest gives stands behind the strings that were in the output. -/
theorem resume_reads_rest {t : String} {p : Nat} {queued : List String} {watch : Option Observer}
    (hp : p ≤ t.length) (hqueued : queued.length ≤ p) (silent : Converter.Silent watch) :
    ∃ c, c.log.toList = (events (restOf t p)).map (Event.further p queued) ∧
      ((∃ output, toReversePolish (restOf t p) = .ok output ∧ resume t p queued watch = .ok c.output c ∧
          c.output.toList = queued ++ output) ∨
        ∃ d, toReversePolish (restOf t p) = .error (.malformed d) ∧
          resume t p queued watch = .error (.malformed (d.further p)) c) := by
  obtain ⟨ts, reading⟩ : ∃ ts, Reading 0 (restOf t p).toList ts := ⟨_, reading_scan _ _⟩
  have hcourse := relocated_resumption hp queued ts
  obtain ⟨q, hlast⟩ := hcourse.last
  have hfault := hcourse.fault
  obtain ⟨c, houtput, hlog, hresume⟩ := resume_eq hp hqueued silent (reading_rest reading) rfl
  refine ⟨c, ?_, ?_⟩
  · rw [hlog, hcourse.moves, events_eq reading, List.map_map]
    exact List.map_congr_left fun m _ => m.eventAt_add p queued
  · rw [toReversePolish_eq reading]
    rw [hlast, Yard.relocate, Token.map_text_relocate] at houtput
    cases hrest : (Yard.empty.convert ts (restOf t p).toList.length).fault with
    | none =>
      rw [hrest, Option.map_none] at hfault
      rw [hfault] at hresume
      exact .inl ⟨_, rfl, hresume, houtput⟩
    | some d =>
      rw [hrest, Option.map_some] at hfault
      rw [hfault] at hresume
      exact .inr ⟨d, rfl, hresume⟩

/-- From inside a number, and behind a character that is no token, with a string in the output that no token
gives. -/
theorem resume_reads_rest_number :
    (2 ≤ "&12 * (3 - 4".length ∧ ["(", "5"].length ≤ 2 ∧ Converter.Silent none ∧
      toReversePolish "2 * (3 - 4" = .error (.malformed (.unmatchedOpening 10)) ∧
      ∃ c, resume "&12 * (3 - 4" 2 ["(", "5"] = .error (.malformed (.unmatchedOpening 12)) c ∧
        c.log.toList = (events "2 * (3 - 4").map (Event.further 2 ["(", "5"])) ∧
    ∃ c, resume "&12 * (3 - 4)" 2 ["(", "5"] = .ok c.output c ∧
      c.output.toList = ["(", "5", "2", "3", "4", "-", "*"] := by
  have hsilent := Converter.silent_none
  have herror : toReversePolish "2 * (3 - 4" = .error (.malformed (.unmatchedOpening 10)) := by
    decide +kernel
  have hok : toReversePolish "2 * (3 - 4)" = .ok ["2", "3", "4", "-", "*"] := by decide +kernel
  have hrest : restOf "&12 * (3 - 4" 2 = "2 * (3 - 4" := by decide
  have hrest' : restOf "&12 * (3 - 4)" 2 = "2 * (3 - 4)" := by decide
  refine ⟨⟨by decide, by decide, hsilent, herror, ?_⟩, ?_⟩
  · obtain ⟨c, hlog, hend⟩ := resume_reads_rest (show 2 ≤ "&12 * (3 - 4".length by decide)
      (show ["(", "5"].length ≤ 2 by decide) hsilent
    rw [hrest] at hlog hend
    rcases hend with ⟨output, houtput, -⟩ | ⟨d, hd, hresume⟩
    · rw [herror] at houtput
      contradiction
    · rw [herror] at hd
      cases hd
      exact ⟨c, hresume, hlog⟩
  · obtain ⟨c, -, hend⟩ := resume_reads_rest (show 2 ≤ "&12 * (3 - 4)".length by decide)
      (show ["(", "5"].length ≤ 2 by decide) hsilent
    rw [hrest'] at hend
    rcases hend with ⟨output, houtput, hresume, hlist⟩ | ⟨d, hd, -⟩
    · rw [hok] at houtput
      cases houtput
      exact ⟨c, hresume, hlist⟩
    · rw [hok] at hd
      contradiction

end ReversePolish
