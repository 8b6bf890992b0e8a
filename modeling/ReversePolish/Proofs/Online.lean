import ReversePolish.Proofs.Spacing

/-!
# Online — a conversion does not look ahead

A space ends every token before it.  Whatever stands behind the space, and however much, the conversion has
done the same before it got there, and has failed in the same way if it never did.
-/

namespace ReversePolish

/-! ## 1. Courses with the same beginning -/

namespace Yard

variable {y : Yard} {ts us : List Token} {p q stop : Nat} {d : Diagnostic}

theorem token_of_mem_absorbAll {m : Move} (h : m ∈ (y.absorbAll ts).moves) :
    m.token ∈ ts ∧ m.position = m.token.start := by
  induction ts generalizing y with
  | nil => simp [absorbAll] at h
  | cons t ts ih =>
    rw [absorbAll] at h
    cases hcomplaint : y.complaint? t with
    | none =>
      rw [hcomplaint] at h
      rcases List.mem_cons.1 h with rfl | h
      · exact ⟨List.mem_cons_self, rfl⟩
      · obtain ⟨hmem, hposition⟩ := ih h
        exact ⟨List.mem_cons_of_mem t hmem, hposition⟩
    | some d =>
      rw [hcomplaint] at h
      contradiction

-- Tokens that start at `q` or behind it are not reported before `q`, and neither is the drain.
theorem le_position_of_mem_convert (hus : ∀ u ∈ us, q ≤ u.start) (hstop : q ≤ stop) :
    ∀ m ∈ (y.convert us stop).moves, q ≤ m.position := by
  obtain ⟨drained, hmoves, hdrained⟩ := moves_convert (y := y) us stop
  intro m hm
  rw [hmoves] at hm
  rcases List.mem_append.1 hm with hm | hm
  · obtain ⟨hmem, hposition⟩ := token_of_mem_absorbAll hm
    exact hposition ▸ hus m.token hmem
  · exact (hdrained m hm).2 ▸ hstop

theorem lt_position_of_mem_absorbAll (order : InOrder p q ts) :
    ∀ m ∈ (y.absorbAll ts).moves, m.position < q := by
  intro m hm
  obtain ⟨hmem, hposition⟩ := token_of_mem_absorbAll hm
  obtain ⟨before, after, rfl⟩ := List.append_of_mem hmem
  obtain ⟨_, -, hafter⟩ := order.exists_append
  have := hafter.2.1
  have := hafter.2.2.le
  omega

-- What is reported before `q` are the moves of the tokens before `q`.
theorem filter_moves_convert (order : InOrder p q ts) (hus : ∀ u ∈ us, q ≤ u.start) (hstop : q ≤ stop) :
    (y.convert (ts ++ us) stop).moves.filter (fun m => m.position < q) = (y.absorbAll ts).moves := by
  have hbefore : (y.absorbAll ts).moves.filter (fun m => m.position < q) = (y.absorbAll ts).moves :=
    List.filter_eq_self.2 fun m hm => decide_eq_true (lt_position_of_mem_absorbAll order m hm)
  rw [convert_append]
  cases hfault : (y.absorbAll ts).fault with
  | none =>
    have hbehind : ((y.absorbAll ts).last.convert us stop).moves.filter (fun m => m.position < q) = [] := by
      rw [List.filter_eq_nil_iff]
      intro m hm
      have := le_position_of_mem_convert hus hstop m hm
      simp
      omega
    rw [Course.andThen_of_no_fault hfault, List.filter_append, hbefore, hbehind, List.append_nil]
  | some d => rw [Course.andThen_of_fault hfault, hbefore]

-- A fault that is about a token is about one that was to be read.
theorem exists_token_of_fault (h : (y.convert us stop).fault = some d)
    (hd : d.kind = .invalidToken ∨ d.kind = .mismatchedClosing) : ∃ u ∈ us, d.start = u.start := by
  unfold convert at h
  cases hfault : (y.absorbAll us).fault with
  | none =>
    rw [Course.andThen_of_no_fault hfault] at h
    rcases conclude_eq_some h with ⟨-, rfl⟩ | ⟨-, -, rfl⟩ <;>
      simp [Diagnostic.invalidOperatorCount, Diagnostic.unmatchedOpening] at hd
  | some f =>
    rw [Course.andThen_of_fault hfault, hfault] at h
    cases h
    obtain ⟨before, u, after, rfl, -, hu, -⟩ := exists_stop_of_fault hfault
    refine ⟨u, by simp, ?_⟩
    rcases complaint?_eq_some hu with ⟨c, -, rfl⟩ | ⟨-, -, rfl⟩ <;> rfl

-- A fault about a token before `q` is found before anything behind `q` is read.
theorem fault_absorbAll_of_lt (hus : ∀ u ∈ us, q ≤ u.start) (h : (y.convert (ts ++ us) stop).fault = some d)
    (hd : d.kind = .invalidToken ∨ d.kind = .mismatchedClosing) (hlt : d.start < q) :
    (y.absorbAll ts).fault = some d := by
  rw [convert_append] at h
  cases hfault : (y.absorbAll ts).fault with
  | none =>
    rw [Course.andThen_of_no_fault hfault] at h
    obtain ⟨u, hu, hstart⟩ := exists_token_of_fault h hd
    have := hus u hu
    omega
  | some f =>
    rw [Course.andThen_of_fault hfault, hfault] at h
    exact h

end Yard

/-! ## 2. Texts -/

section

variable {t : String} {ts : List Token} (reading : Reading 0 t.toList ts)

include reading

-- The tokens of a text that goes on behind a space are those before the space and those behind it.
theorem exists_reading_behind (x : String) :
    ∃ us, Reading 0 (t ++ " " ++ x).toList (ts ++ us) ∧ (∀ u ∈ us, t.length ≤ u.start) ∧
      t.length ≤ (t ++ " " ++ x).toList.length := by
  have hback := reading_scan t.length (' ' :: x.toList)
  refine ⟨_, ?_, hback.inOrder.le_start, ?_⟩
  · rw [toList_insert_space]
    refine reading.append (by simp) ?_
    rw [Nat.zero_add, String.length_toList]
    exact hback
  · rw [toList_insert_space, List.length_append, String.length_toList]
    exact Nat.le_add_right _ _

theorem events_before (x : String) :
    (events (t ++ " " ++ x)).filter (fun e : Event => e.position < t.length) =
      (Yard.empty.absorbAll ts).moves.map (Move.event []) := by
  obtain ⟨us, reading', hus, hstop⟩ := exists_reading_behind reading x
  have order := reading.inOrder
  rw [Nat.zero_add, String.length_toList] at order
  have hposition : (fun e : Event => decide (e.position < t.length)) ∘ Move.event [] =
      fun m : Move => decide (m.position < t.length) := by
    funext m
    simp [Move.event]
  rw [events_eq reading', List.filter_map, hposition, Yard.filter_moves_convert order hus hstop]

theorem fault_before {x : String} {d : Diagnostic} (h : toReversePolish (t ++ " " ++ x) = .error (.malformed d))
    (hd : d.kind = .invalidToken ∨ d.kind = .mismatchedClosing) (hlt : d.start < t.length) :
    (Yard.empty.absorbAll ts).fault = some d := by
  obtain ⟨us, reading', hus, -⟩ := exists_reading_behind reading x
  have hresult := toReversePolish_eq reading'
  rw [h] at hresult
  cases hfault : (Yard.empty.convert (ts ++ us) (t ++ " " ++ x).toList.length).fault with
  | none =>
    rw [hfault] at hresult
    contradiction
  | some f =>
    rw [hfault] at hresult
    cases hresult
    exact Yard.fault_absorbAll_of_lt hus hfault hd hlt

theorem run_of_fault_before {d : Diagnostic} (h : (Yard.empty.absorbAll ts).fault = some d) (x : String) :
    toReversePolish (t ++ " " ++ x) = .error (.malformed d) ∧
      events (t ++ " " ++ x) = (Yard.empty.absorbAll ts).moves.map (Move.event []) := by
  obtain ⟨us, reading', -, -⟩ := exists_reading_behind reading x
  rw [toReversePolish_eq reading', events_eq reading', Yard.convert_of_fault h, h]
  exact ⟨rfl, rfl⟩

end

/-- Texts that begin in the same way up to a space have the same events before the space.  If a token before
the space ends the conversion of one of them, it ends that of the other, with the same diagnostic and behind
the same events. -/
theorem run_online (t x y : String) :
    (events (t ++ " " ++ x)).filter (fun e : Event => e.position < t.length) =
        (events (t ++ " " ++ y)).filter (fun e : Event => e.position < t.length) ∧
      ∀ d : Diagnostic, toReversePolish (t ++ " " ++ x) = .error (.malformed d) →
        d.kind = .invalidToken ∨ d.kind = .mismatchedClosing → d.start < t.length →
          toReversePolish (t ++ " " ++ y) = .error (.malformed d) ∧
            events (t ++ " " ++ y) = events (t ++ " " ++ x) := by
  obtain ⟨ts, reading⟩ : ∃ ts, Reading 0 t.toList ts := ⟨_, reading_scan _ _⟩
  refine ⟨(events_before reading x).trans (events_before reading y).symm, ?_⟩
  intro d h hd hlt
  have hfault := fault_before reading h hd hlt
  obtain ⟨-, hevents⟩ := run_of_fault_before reading hfault x
  obtain ⟨hresult, hevents'⟩ := run_of_fault_before reading hfault y
  exact ⟨hresult, hevents'.trans hevents.symm⟩

/-- The group that the first text would go on with does not count, for the parenthesis before it closes
nothing; the other text goes on with a character that is no token. -/
theorem run_online_mismatched :
    toReversePolish "2 ^ 3) * (4 - 5)" = .error (.malformed (.mismatchedClosing 5 6)) ∧
      toReversePolish "2 ^ 3) * %" = .error (.malformed (.mismatchedClosing 5 6)) ∧
      events "2 ^ 3) * %" = events "2 ^ 3) * (4 - 5)" := by
  have h : toReversePolish "2 ^ 3) * (4 - 5)" = .error (.malformed (.mismatchedClosing 5 6)) := by
    decide +kernel
  obtain ⟨-, hfault⟩ := run_online "2 ^ 3) *" "(4 - 5)" "%"
  exact ⟨h, hfault _ h (by decide) (by decide)⟩

end ReversePolish
