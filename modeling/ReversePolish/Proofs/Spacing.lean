import ReversePolish.Proofs.Group
import ReversePolish.Proofs.Machine
import ReversePolish.Proofs.Relocation

/-!
# Spacing — a space more changes nothing but positions

A space that is put in anywhere but inside a number leaves the tokens as they are.  Those behind it stand one
character further on, and so do the events and diagnostics about them.
-/

namespace ReversePolish

/-! ## 1. Places behind a space -/

/-- Where the position `n` is when a space was put in at the position `p`. -/
def behindSpace (p n : Nat) : Nat := if p ≤ n then n + 1 else n

theorem behindSpace_of_le {p n : Nat} (h : p ≤ n) : behindSpace p n = n + 1 := if_pos h

theorem behindSpace_of_lt {p n : Nat} (h : n < p) : behindSpace p n = n := if_neg (Nat.not_le_of_lt h)

/-- The event in the text with a space more at the position `p`. -/
def Event.behindSpace (p : Nat) (e : Event) : Event :=
  { e with position := if p ≤ e.position then e.position + 1 else e.position }

/-- The diagnostic in the text with a space more at the position `p`.  One about a token moves with it; those
that tell the end of the text follow the end, and the count is of the whole text from its beginning. -/
def Diagnostic.behindSpace (p : Nat) (d : Diagnostic) : Diagnostic :=
  match d.kind with
  | .invalidToken | .mismatchedClosing =>
    if p ≤ d.start then { d with start := d.start + 1, stop := d.stop + 1 } else d
  | .unmatchedOpening => { d with start := d.start + 1, stop := d.stop + 1 }
  | .invalidOperatorCount => { d with stop := d.stop + 1 }
  | .malformed | .missingOpening => d

theorem Move.eventAt_behindSpace (p : Nat) (before : List String) (m : Move) :
    m.eventAt (ReversePolish.behindSpace p) before = (m.event before).behindSpace p := by
  have hposition : (ReversePolish.behindSpace p m.position : Int) =
      if (p : Int) ≤ m.position then (m.position + 1 : Int) else m.position := by
    rw [ReversePolish.behindSpace]
    split_ifs <;> omega
  exact congrArg (fun position => { m.event before with position }) hposition

theorem Diagnostic.invalidToken_behindSpace (p : Nat) (c : Char) (start : Nat) :
    (invalidToken c start).behindSpace p = invalidToken c (ReversePolish.behindSpace p start) := by
  by_cases h : p ≤ start
  · rw [behindSpace_of_le h]
    exact if_pos (Int.ofNat_le.2 h)
  · rw [behindSpace_of_lt (Nat.lt_of_not_le h)]
    exact if_neg (mt Int.ofNat_le.1 h)

theorem Diagnostic.mismatchedClosing_behindSpace (p start : Nat) :
    (mismatchedClosing start (start + 1)).behindSpace p =
      mismatchedClosing (ReversePolish.behindSpace p start) (ReversePolish.behindSpace p start + 1) := by
  by_cases h : p ≤ start
  · rw [behindSpace_of_le h]
    exact if_pos (Int.ofNat_le.2 h)
  · rw [behindSpace_of_lt (Nat.lt_of_not_le h)]
    exact if_neg (mt Int.ofNat_le.1 h)

/-! ## 2. The reading of a text with a space more -/

theorem Lexeme.length_chars_of_not_number {l : Lexeme} (h : l.action ≠ .number) : l.chars.length = 1 := by
  cases l with
  | number literal => exact absurd rfl h
  | _ => rfl

theorem Lexeme.Stands.of_not_number {l : Lexeme} {rest rest' : List Char} (h : l.Stands rest)
    (hl : l.action ≠ .number) : l.Stands rest' := by
  cases h with
  | number => exact absurd rfl hl
  | operator => exact .operator
  | opening => exact .opening
  | closing => exact .closing
  | invalid hspace hdigit hc => exact .invalid hspace hdigit hc

/-- The position `p` does not lie inside the token `t`, unless that has a single character anyway. -/
def Token.Spares (p : Nat) (t : Token) : Prop :=
  t.lexeme.action = .number → ¬ (t.start < p ∧ p < t.stop)

theorem Token.Spares.le_or_stop_le {p : Nat} {t : Token} (h : t.Spares p) : p ≤ t.start ∨ t.stop ≤ p := by
  by_cases hnumber : t.lexeme.action = .number
  · have := h hnumber
    omega
  · have := Lexeme.length_chars_of_not_number hnumber
    rw [Token.stop]
    omega

theorem Token.relocate_of_lt {p : Nat} {t : Token} (h : t.start < p) : t.relocate (behindSpace p) = t := by
  rw [relocate, behindSpace_of_lt h]

theorem Token.relocate_of_le {p : Nat} {t : Token} (h : p ≤ t.start) :
    t.relocate (behindSpace p) = t.relocate (· + 1) := by
  rw [relocate, relocate, behindSpace_of_le h]

namespace Reading

variable {pos : Nat} {cs front back : List Char} {ts before after : List Token} {t : Token}

theorem of_spaces (h : ∀ c ∈ cs, c = ' ') : Reading pos cs [] := by
  have hread : Reading pos (cs ++ []) [] := spaces_append h .done
  rwa [List.append_nil] at hread

theorem eq_space_insert (h : ∀ c ∈ front ++ back, c = ' ') : ∀ c ∈ front ++ ' ' :: back, c = ' ' := by
  intro c hc
  rcases List.mem_append.1 hc with hc | hc
  · exact h c (List.mem_append_left _ hc)
  · rcases List.mem_cons.1 hc with rfl | hc
    · rfl
    · exact h c (List.mem_append_right _ hc)

-- Tokens that all stand behind the space are read one character further on.
theorem insert_space_before (h : Reading pos (front ++ back) (t :: ts)) (hle : pos + front.length ≤ t.start) :
    Reading pos (front ++ ' ' :: back) ((t :: ts).map (Token.relocate (· + 1))) := by
  obtain ⟨spaces, rest, hcs, hspaces, hstart, hstands, hrest⟩ := h.exists_cons
  have hprefix : front <+: spaces :=
    List.prefix_of_prefix_length_le (List.prefix_append front back) (hcs ▸ List.prefix_append spaces _) (by omega)
  obtain ⟨gap, rfl⟩ := hprefix
  rw [List.append_assoc] at hcs
  have hback := List.append_cancel_left hcs
  have hshift : Reading (t.relocate (· + 1)).stop rest (ts.map (Token.relocate (· + 1))) := by
    rw [Token.stop_relocate_add]
    exact hrest.relocate_add 1
  have hplace : (t.relocate (· + 1)).start = pos + (front ++ ' ' :: gap).length := by
    rw [Token.start_relocate, hstart, List.length_append, List.length_append, List.length_cons]
    omega
  have hread := cons (t := t.relocate (· + 1)) (eq_space_insert hspaces) hplace hstands hshift
  rw [List.append_assoc, List.cons_append] at hread
  rw [hback]
  exact hread

theorem insert_space (h : Reading pos (front ++ back) ts) (hspares : ∀ t ∈ ts, t.Spares (pos + front.length)) :
    Reading pos (front ++ ' ' :: back) (ts.map (Token.relocate (behindSpace (pos + front.length)))) := by
  induction ts generalizing pos front with
  | nil =>
    exact of_spaces (eq_space_insert h.eq_space_of_nil)
  | cons t ts ih =>
    rcases (hspares t (by simp)).le_or_stop_le with hle | hle
    · have hall : ∀ u ∈ t :: ts, pos + front.length ≤ u.start := by
        have horder := h.inOrder
        exact InOrder.le_start (q := pos + (front ++ back).length) ⟨hle, horder.2⟩
      rw [List.map_congr_left fun u hu => Token.relocate_of_le (hall u hu)]
      exact h.insert_space_before hle
    · -- the token stands before the space, and the rest of the text is read from its end
      obtain ⟨spaces, rest, hcs, hspaces, hstart, hstands, hrest⟩ := h.exists_cons
      have hlt := h.inOrder.2.1
      rw [← List.append_assoc] at hcs
      have hlength : (spaces ++ t.lexeme.chars).length ≤ front.length := by
        rw [Token.stop] at hle
        rw [List.length_append]
        omega
      obtain ⟨front', rfl⟩ : spaces ++ t.lexeme.chars <+: front :=
        List.prefix_of_prefix_length_le (hcs ▸ List.prefix_append _ rest) (List.prefix_append front back) hlength
      rw [List.append_assoc _ front'] at hcs
      obtain rfl := List.append_cancel_left hcs
      have hplace : t.stop + front'.length = pos + (spaces ++ t.lexeme.chars ++ front').length := by
        rw [Token.stop, hstart, List.length_append, List.length_append]
        omega
      have hread := ih hrest fun u hu => hplace ▸ hspares u (by simp [hu])
      rw [hplace] at hread
      rw [List.map_cons, Token.relocate_of_lt (by omega), List.append_assoc, List.append_assoc]
      refine cons hspaces hstart (hstands.of_head? ?_) hread
      intro c hc
      cases front' with
      | nil => exact .inr (.inl (by simpa using hc.symm))
      | cons d front' => exact .inl hc

-- Up to a token of one character, a text is read without a look at what follows.
theorem exists_cut (h : Reading pos cs (before ++ t :: after)) (ht : t.lexeme.action ≠ .number) :
    ∃ front back, cs = front ++ back ∧ front ≠ [] ∧ pos + front.length = t.stop ∧
      ∀ rest us, Reading t.stop rest us → Reading pos (front ++ rest) (before ++ t :: us) := by
  induction before generalizing pos cs with
  | nil =>
    obtain ⟨spaces, rest, rfl, hspaces, hstart, hstands, -⟩ := h.exists_cons
    have hlength := Lexeme.length_chars_of_not_number ht
    refine ⟨spaces ++ t.lexeme.chars, rest, by rw [List.append_assoc], ?_, ?_, ?_⟩
    · intro hnil
      rw [(List.append_eq_nil_iff.1 hnil).2] at hlength
      contradiction
    · rw [List.length_append, Token.stop, hstart, Nat.add_assoc]
    · intro rest' us hus
      rw [List.append_assoc]
      exact cons hspaces hstart (hstands.of_not_number ht) hus
  | cons u before ih =>
    obtain ⟨spaces, rest, rfl, hspaces, hstart, hstands, hrest⟩ := h.exists_cons
    obtain ⟨front, back, rfl, hne, hstop, hcut⟩ := ih hrest
    refine ⟨spaces ++ u.lexeme.chars ++ front, back, by simp only [List.append_assoc], by simp [hne], ?_, ?_⟩
    · rw [← hstop, Token.stop, hstart, List.length_append, List.length_append]
      omega
    · intro rest' us hus
      rw [List.append_assoc, List.append_assoc]
      refine cons hspaces hstart (hstands.of_head? ?_) (hcut rest' us hus)
      rw [List.head?_append_of_ne_nil _ hne, List.head?_append_of_ne_nil _ hne]
      exact fun c hc => .inl hc

-- Up to a token that is no number, the tokens are the same, wherever the space is.
theorem exists_insert_space_of_cut (h : Reading pos (front ++ back) (before ++ t :: after))
    (hspares : ∀ u ∈ before, u.Spares (pos + front.length)) (ht : t.lexeme.action ≠ .number) :
    ∃ us, Reading pos (front ++ ' ' :: back)
      ((before ++ [t]).map (Token.relocate (behindSpace (pos + front.length))) ++ us) := by
  obtain ⟨m, hbefore, hstart, hafter⟩ := h.inOrder.exists_append
  by_cases hle : pos + front.length ≤ t.start
  · -- the space is before `t`, so all that follow spare it, too
    refine ⟨after.map (Token.relocate (behindSpace (pos + front.length))), ?_⟩
    rw [← List.map_append, List.append_assoc]
    refine h.insert_space fun u hu => ?_
    rcases List.mem_append.1 hu with hu | hu
    · exact hspares u hu
    · have hbehind : InOrder (pos + front.length) (pos + (front ++ back).length) (t :: after) := ⟨hle, hafter⟩
      exact fun _ hinside => Nat.not_lt_of_le (hbehind.le_start u hu) hinside.1
  · -- the space is behind `t`, and the tokens up to there stay where they are
    obtain ⟨front', back', hcs, -, hstop, hcut⟩ := h.exists_cut ht
    have hlength := Lexeme.length_chars_of_not_number ht
    rw [Token.stop, hlength] at hstop
    obtain ⟨gap, rfl⟩ : front' <+: front :=
      List.prefix_of_prefix_length_le (hcs ▸ List.prefix_append front' back')
        (List.prefix_append front back) (by omega)
    have hstay : ∀ u ∈ before ++ [t], u.relocate (behindSpace (pos + (front' ++ gap).length)) = u := by
      intro u hu
      rcases List.mem_append.1 hu with hu | hu
      · have hstop_u := hbefore.stop_le u hu
        rw [Token.stop] at hstop_u
        exact Token.relocate_of_lt (by omega)
      · rw [List.mem_singleton.1 hu]
        exact Token.relocate_of_lt (by omega)
    refine ⟨scan t.stop (gap ++ ' ' :: back), ?_⟩
    rw [List.map_congr_left hstay, List.map_id', List.append_assoc front', List.append_assoc before]
    exact hcut _ _ (reading_scan _ _)

end Reading

/-! ## 3. The course of a text with a space more -/

namespace Yard

variable {y : Yard} {ts : List Token} {p : Nat}

theorem relocates_behindSpace (p : Nat) : Relocates (behindSpace p) (Diagnostic.behindSpace p) :=
  ⟨Diagnostic.invalidToken_behindSpace p, Diagnostic.mismatchedClosing_behindSpace p⟩

theorem relocatesEnd_behindSpace {stop : Nat} (hp : p ≤ stop) :
    RelocatesEnd (behindSpace p) (Diagnostic.behindSpace p) stop (stop + 1) :=
  ⟨behindSpace_of_le hp, fun _ _ => rfl, rfl⟩

theorem action_of_complaint {t : Token} {d : Diagnostic} (h : y.complaint? t = some d) :
    t.lexeme.action ≠ .number := by
  rcases complaint?_eq_some h with ⟨c, ht, -⟩ | ⟨ht, -, -⟩
  all_goals
    rw [ht]
    simp [Lexeme.action]

-- A number that was read is reported, so a position that lies in none of the events lies in no token read.
theorem spares_of_events (hfault : (y.absorbAll ts).fault = none)
    (h : ∀ m ∈ (y.absorbAll ts).moves, m.action = .number →
      ¬ (m.position < p ∧ p < m.position + m.token.text.length)) :
    ∀ t ∈ ts, t.Spares p := by
  obtain ⟨htokens, hmoves⟩ := moves_absorbAll hfault
  intro t ht hnumber
  rw [← htokens] at ht
  obtain ⟨m, hm, rfl⟩ := List.mem_map.1 ht
  have hm' := h m hm ((hmoves m hm).2.trans hnumber)
  rwa [(hmoves m hm).1, Token.length_text] at hm'

-- A text with a space more is read as tokens of the same course.
theorem exists_insert_space {front back : List Char} (h : Reading 0 (front ++ back) ts)
    (hspares : ∀ m ∈ (empty.convert ts (front ++ back).length).moves, m.action = .number →
      ¬ (m.position < front.length ∧ front.length < m.position + m.token.text.length)) :
    ∃ us, Reading 0 (front ++ ' ' :: back) us ∧
      Course.Relocated (behindSpace front.length) (Diagnostic.behindSpace front.length)
        (empty.convert ts (front ++ back).length) (empty.convert us ((front ++ back).length + 1)) := by
  have hplaces := relocates_behindSpace front.length
  obtain ⟨drained, hmoves, -⟩ := moves_convert (y := empty) ts (front ++ back).length
  have hread : ∀ m ∈ (empty.absorbAll ts).moves, m ∈ (empty.convert ts (front ++ back).length).moves := by
    intro m hm
    rw [hmoves]
    exact List.mem_append_left _ hm
  cases hfault : (empty.absorbAll ts).fault with
  | none =>
    have hall := spares_of_events hfault fun m hm => hspares m (hread m hm)
    rw [← Nat.zero_add front.length] at hall
    refine ⟨_, h.insert_space hall, ?_⟩
    rw [Nat.zero_add]
    exact relocated_convert hplaces (relocatesEnd_behindSpace (by simp)) empty ts 0
  | some d =>
    obtain ⟨before, t, after, rfl, hbefore, ht, hcourse⟩ := exists_stop_of_fault hfault
    rw [hcourse] at hread
    have hall := spares_of_events hbefore fun m hm => hspares m (hread m hm)
    rw [← Nat.zero_add front.length] at hall
    obtain ⟨us, hus⟩ := h.exists_insert_space_of_cut hall (action_of_complaint ht)
    refine ⟨_, hus, ?_⟩
    -- the tokens up to the one at fault make up the whole course in both texts
    have hstop := congrArg Course.fault (absorbAll_of_stop hbefore ht [])
    have hrelocated : Course.Relocated (behindSpace front.length) (Diagnostic.behindSpace front.length)
        (empty.absorbAll (before ++ [t]))
        (empty.absorbAll ((before ++ [t]).map (Token.relocate (behindSpace front.length)))) :=
      relocated_absorbAll hplaces empty (before ++ [t]) 0
    have hstop' := hrelocated.fault
    rw [hstop] at hstop'
    rw [Nat.zero_add, List.append_cons, convert_of_fault hstop, convert_of_fault hstop']
    exact hrelocated

end Yard

/-! ## 4. Texts -/

theorem toList_insert_space (u v : String) : (u ++ " " ++ v).toList = u.toList ++ ' ' :: v.toList := by
  simp only [String.toList_append, List.append_assoc]
  rfl

theorem length_insert_space (u v : String) : (u ++ " " ++ v).toList.length = (u ++ v).toList.length + 1 := by
  rw [toList_insert_space, String.toList_append, List.length_append, List.length_append]
  rfl

-- Both texts are read as tokens, and the courses of these differ in places only.
theorem exists_readings_insert_space {u v : String}
    (h : ∀ e ∈ events (u ++ v), e.action = .number →
      ¬ (e.position < u.length ∧ u.length < e.position + e.token.length)) :
    ∃ ts us, Reading 0 (u ++ v).toList ts ∧ Reading 0 (u ++ " " ++ v).toList us ∧
      (Yard.empty.convert us (u ++ " " ++ v).toList.length).moves.map (Move.event []) =
        ((Yard.empty.convert ts (u ++ v).toList.length).moves.map (Move.event [])).map
          (Event.behindSpace u.length) ∧
      (Yard.empty.convert us (u ++ " " ++ v).toList.length).fault =
        (Yard.empty.convert ts (u ++ v).toList.length).fault.map (Diagnostic.behindSpace u.length) := by
  obtain ⟨ts, reading⟩ : ∃ ts, Reading 0 (u ++ v).toList ts := ⟨_, reading_scan _ _⟩
  have hspares : ∀ m ∈ (Yard.empty.convert ts (u ++ v).toList.length).moves, m.action = .number →
      ¬ (m.position < u.toList.length ∧ u.toList.length < m.position + m.token.text.length) := by
    intro m hm hnumber
    rw [events_eq reading] at h
    have hnot : ¬ ((m.position : Int) < u.length ∧ (u.length : Int) < m.position + m.token.text.length) :=
      h _ (List.mem_map_of_mem hm) hnumber
    rw [String.length_toList]
    omega
  rw [length_insert_space, toList_insert_space, ← String.length_toList]
  rw [String.toList_append] at reading hspares ⊢
  obtain ⟨us, reading', hcourse⟩ := Yard.exists_insert_space reading hspares
  refine ⟨ts, us, reading, reading', ?_, hcourse.fault⟩
  rw [hcourse.moves, List.map_map]
  exact List.map_congr_left fun m _ => m.eventAt_behindSpace u.toList.length []

/-- One space more anywhere in a text, accepted or not, though not inside a number that was read, leaves the
result and the events as they are, apart from positions. -/
theorem run_insert_space (u v : String)
    (h : ∀ e ∈ events (u ++ v), e.action = .number →
      ¬ (e.position < u.length ∧ u.length < e.position + e.token.length)) :
    events (u ++ " " ++ v) = (events (u ++ v)).map (Event.behindSpace u.length) ∧
      (∀ output, toReversePolish (u ++ v) = .ok output → toReversePolish (u ++ " " ++ v) = .ok output) ∧
      ∀ f, toReversePolish (u ++ v) = .error f → ∃ d, f = .malformed d ∧
        toReversePolish (u ++ " " ++ v) = .error (.malformed (d.behindSpace u.length)) := by
  obtain ⟨ts, us, reading, reading', hmoves, hfault⟩ := exists_readings_insert_space h
  have hevents : events (u ++ " " ++ v) = (events (u ++ v)).map (Event.behindSpace u.length) := by
    rw [events_eq reading', hmoves, events_eq reading]
  have houtputs : (events (u ++ " " ++ v)).map Event.output = (events (u ++ v)).map Event.output := by
    rw [hevents, List.map_map]
    rfl
  have hresult := toReversePolish_eq reading
  have hresult' := toReversePolish_eq reading'
  rw [hfault] at hresult'
  refine ⟨hevents, ?_⟩
  cases hcase : (Yard.empty.convert ts (u ++ v).toList.length).fault with
  | none =>
    rw [hcase] at hresult hresult'
    constructor
    · intro output hok
      -- the last event of both texts shows what is left of them
      rw [Option.map_none] at hresult'
      rw [output_eq_of_events houtputs hok hresult'] at hresult'
      exact hresult'
    · intro f herror
      rw [herror] at hresult
      contradiction
  | some d =>
    rw [hcase] at hresult hresult'
    constructor
    · intro output hok
      rw [hok] at hresult
      contradiction
    · intro f herror
      exact ⟨d, Except.error.inj (herror.symm.trans hresult), hresult'⟩

/-- A space inside a group that stays open, in front of a number that is read. -/
theorem run_insert_space_open :
    events "(12 * 3" ≠ [] ∧ toReversePolish "(12 * 3" = .error (.malformed (.unmatchedOpening 7)) ∧
      events "(12 *  3" = (events "(12 * 3").map (Event.behindSpace 5) ∧
      toReversePolish "(12 *  3" = .error (.malformed (.unmatchedOpening 8)) := by
  have h : toReversePolish "(12 * 3" = .error (.malformed (.unmatchedOpening 7)) := by decide +kernel
  obtain ⟨hevents, -, herror⟩ := run_insert_space "(12 *" " 3" (by decide +kernel)
  obtain ⟨d, hd, hresult⟩ := herror _ h
  cases hd
  exact ⟨by decide +kernel, h, hevents, hresult⟩

end ReversePolish
