import ReversePolish.Proofs.Events

/-!
# Tiling — the events of a text cover it

Each event of the scan stands where its token stands in the text.  The tokens lie one behind the other, and
between them there are only spaces, up to the token that ends the conversion or else up to the end of the
text.
-/

namespace ReversePolish

/-! ## 1. Places of tokens -/

namespace Reading

variable {pos : Nat} {cs : List Char} {ts : List Token}

-- The characters of a token stand at its place.
theorem exists_place (h : Reading pos cs ts) :
    ∀ t ∈ ts, ∃ front rest, cs = front ++ (t.lexeme.chars ++ rest) ∧ t.start = pos + front.length ∧
      t.lexeme.Stands rest := by
  induction ts generalizing pos cs with
  | nil => simp
  | cons u ts ih =>
    obtain ⟨spaces, rest, rfl, -, hstart, hstands, hrest⟩ := h.exists_cons
    intro t ht
    rcases List.mem_cons.1 ht with rfl | ht
    · exact ⟨spaces, rest, rfl, hstart, hstands⟩
    · obtain ⟨front, rest', rfl, hstart', hstands'⟩ := ih hrest t ht
      refine ⟨spaces ++ u.lexeme.chars ++ front, rest', by simp only [List.append_assoc], ?_, hstands'⟩
      rw [hstart', Token.stop, hstart, List.length_append, List.length_append]
      omega

-- What no token covers is a space.
theorem eq_space_of_uncovered (h : Reading pos cs ts) {i : Nat} {c : Char} (hc : cs[i]? = some c)
    (huncovered : ∀ t ∈ ts, ¬ (t.start ≤ pos + i ∧ pos + i < t.stop)) : c = ' ' := by
  induction ts generalizing pos cs i with
  | nil => exact h.eq_space_of_nil c (List.mem_of_getElem? hc)
  | cons t ts ih =>
    obtain ⟨spaces, rest, rfl, hspaces, hstart, -, hrest⟩ := h.exists_cons
    have ht := huncovered t (by simp)
    rw [Token.stop, hstart] at ht
    by_cases hi : i < spaces.length
    · rw [List.getElem?_append_left hi] at hc
      exact hspaces c (List.mem_of_getElem? hc)
    · -- the token does not cover the character, so it stands behind the token
      have hlength : spaces.length + t.lexeme.chars.length ≤ i := by omega
      rw [List.getElem?_append_right (by omega), List.getElem?_append_right (by omega)] at hc
      refine ih hrest hc fun u hu => ?_
      have hplace : t.stop + (i - spaces.length - t.lexeme.chars.length) = pos + i := by
        rw [Token.stop, hstart]
        omega
      rw [hplace]
      exact huncovered u (by simp [hu])

end Reading

theorem InOrder.pairwise {p q : Nat} {ts : List Token} (h : InOrder p q ts) :
    ts.Pairwise fun a b => a.start < b.start ∧ a.stop ≤ b.start := by
  induction ts generalizing p with
  | nil => exact .nil
  | cons t ts ih =>
    obtain ⟨-, hstop, horder⟩ := h
    refine .cons (fun u hu => ?_) (ih horder)
    have := horder.le_start u hu
    omega

/-! ## 2. Events that cover a text -/

/-- `CallsFor cs action`: the characters `cs` are a whole token, and `action` is what is done with it. -/
inductive CallsFor : List Char → Action → Prop where
  | number {d : Char} {run : List Char} :
      d ∈ digits → (∀ c ∈ d :: run, c ≠ ' ' ∧ c ≠ ')') → CallsFor (d :: run) .number
  | operator (op : Operator) : CallsFor [op.char] .operator
  | opening : CallsFor ['('] .opening
  | closing : CallsFor [')'] .closing

/-- The tokens of the events `es` stand in the text `cs` where the events say and cover its characters up to
`stop`, all but the spaces between them: each calls for what was done with it, and a number goes on as far as
it can. -/
structure Tiles (cs : List Char) (stop : Int) (es : List Event) : Prop where
  place : ∀ e ∈ es, ∃ p : Nat, e.position = p ∧ p + e.token.length ≤ stop ∧
    (cs.drop p).take e.token.length = e.token.toList ∧
    (e.action = .number → ∀ c ∈ (cs.drop (p + e.token.length)).head?, c = ' ' ∨ c = ')')
  order : es.Pairwise fun a b : Event => a.position < b.position ∧ a.position + a.token.length ≤ b.position
  spaces : ∀ i : Nat, i < stop →
    (∀ e ∈ es, ¬ (e.position ≤ i ∧ i < e.position + e.token.length)) → cs[i]? = some ' '
  action : ∀ e ∈ es, CallsFor e.token.toList e.action

theorem Lexeme.Stands.callsFor {l : Lexeme} {rest : List Char} (h : l.Stands rest)
    (hvalid : ∀ c, l ≠ .invalid c) : CallsFor l.chars l.action := by
  cases h with
  | number hd hrun hrest =>
    refine .number hd fun c hc => ?_
    rcases List.mem_cons.1 hc with rfl | hc
    · exact continuesNumber_iff.1 (continuesNumber_of_mem_digits hd)
    · exact hrun c hc
  | operator => exact .operator _
  | opening => exact .opening
  | closing => exact .closing
  | invalid => exact absurd rfl (hvalid _)

theorem Lexeme.Stands.head?_of_number {l : Lexeme} {rest : List Char} (h : l.Stands rest)
    (hl : l.action = .number) : ∀ c ∈ rest.head?, c = ' ' ∨ c = ')' := by
  cases h with
  | number _ _ hrest => exact hrest
  | _ => contradiction

section

variable {cs : List Char} {before after : List Token} {moves : List Move} {stop : Nat}

-- The moves of the tokens `before`, of which none is invalid, cover the text up to where the others start.
theorem tiles_of_reading (reading : Reading 0 cs (before ++ after))
    (hvalid : ∀ t ∈ before, ∀ c, t.lexeme ≠ .invalid c) (htokens : moves.map Move.token = before)
    (hmoves : ∀ m ∈ moves, m.position = m.token.start ∧ m.action = m.token.lexeme.action)
    (hbefore : InOrder 0 stop before) (hafter : ∀ t ∈ after, stop ≤ t.start) (hstop : stop ≤ cs.length) :
    Tiles cs stop (moves.map (Move.event [])) := by
  have hmem : ∀ m ∈ moves, m.token ∈ before := fun m hm => htokens ▸ List.mem_map_of_mem hm
  have hplace : ∀ t ∈ before, ∃ front rest, cs = front ++ (t.lexeme.chars ++ rest) ∧
      t.start = front.length ∧ t.lexeme.Stands rest := by
    intro t ht
    simpa using reading.exists_place t (List.mem_append_left after ht)
  constructor
  · intro e he
    obtain ⟨m, hm, rfl⟩ := List.mem_map.1 he
    obtain ⟨front, rest, hcs, hstart, hstands⟩ := hplace m.token (hmem m hm)
    have hdrop : cs.drop m.token.start = m.token.lexeme.chars ++ rest := by
      rw [hcs, List.drop_left' hstart.symm]
    have hle : m.token.start + m.token.lexeme.chars.length ≤ stop := hbefore.stop_le _ (hmem m hm)
    refine ⟨m.token.start, congrArg Int.ofNat (hmoves m hm).1, ?_, ?_, ?_⟩
    · rw [Move.event, Token.length_text]
      exact_mod_cast hle
    · rw [Move.event, Token.length_text, Token.toList_text, hdrop, List.take_left' rfl]
    · intro haction
      rw [Move.event, Token.length_text, ← List.drop_drop, hdrop, List.drop_left' rfl]
      exact hstands.head?_of_number ((hmoves m hm).2.symm.trans haction)
  · have horder := hbefore.pairwise
    rw [← htokens, List.pairwise_map] at horder
    rw [List.pairwise_map]
    refine horder.imp_of_mem fun {a b} ha hb hab => ?_
    rw [Move.event, Move.event, Token.length_text, (hmoves a ha).1, (hmoves b hb).1]
    dsimp only
    exact_mod_cast hab
  · intro i hi huncovered
    have hlength : i < cs.length := by omega
    rw [List.getElem?_eq_getElem hlength, Option.some.injEq]
    refine reading.eq_space_of_uncovered (List.getElem?_eq_getElem hlength) fun t ht => ?_
    rw [Nat.zero_add]
    rcases List.mem_append.1 ht with ht | ht
    · obtain ⟨m, hm, rfl⟩ := List.mem_map.1 (htokens ▸ ht)
      have hm' := huncovered _ (List.mem_map_of_mem hm)
      rw [Move.event, Token.length_text, (hmoves m hm).1] at hm'
      dsimp only at hm'
      exact_mod_cast hm'
    · have := hafter t ht
      omega
  · intro e he
    obtain ⟨m, hm, rfl⟩ := List.mem_map.1 he
    obtain ⟨front, rest, -, -, hstands⟩ := hplace m.token (hmem m hm)
    show CallsFor m.token.text.toList m.action
    rw [Token.toList_text, (hmoves m hm).2]
    exact hstands.callsFor (hvalid _ (hmem m hm))

end

-- Only an invalid token would end the conversion at once.
theorem Yard.lexeme_ne_invalid {y : Yard} {ts : List Token} (h : (y.absorbAll ts).fault = none) :
    ∀ t ∈ ts, ∀ c, t.lexeme ≠ .invalid c := by
  induction ts generalizing y with
  | nil => simp
  | cons t ts ih =>
    obtain ⟨hcomplaint, hrest, -⟩ := absorbAll_cons h
    intro u hu c hc
    rcases List.mem_cons.1 hu with rfl | hu
    · simp [complaint?, hc] at hcomplaint
    · exact ih hrest u hu c hc

/-! ## 3. Texts -/

/-- The position up to which a text is scanned: its end, or where a token stands that is invalid or closes
nothing. -/
def scannedUpTo (s : String) : Int :=
  match toReversePolish s with
  | .error (.malformed d) =>
    if d.kind = .invalidToken ∨ d.kind = .mismatchedClosing then d.start else s.length
  | _ => s.length

section

variable {s : String} {ts : List Token} (reading : Reading 0 s.toList ts)

include reading

theorem scannedUpTo_of_stop {t : Token} {d : Diagnostic} {z : Yard}
    (h : (Yard.empty.absorbAll ts).fault = some d) (hd : z.complaint? t = some d) :
    scannedUpTo s = t.start := by
  rw [scannedUpTo, toReversePolish_eq reading, Yard.convert, Course.andThen_of_fault h, h]
  rcases Yard.complaint?_eq_some hd with ⟨c, -, rfl⟩ | ⟨-, -, rfl⟩
  · exact if_pos (.inl rfl)
  · exact if_pos (.inr rfl)

theorem scannedUpTo_of_no_stop (h : (Yard.empty.absorbAll ts).fault = none) :
    scannedUpTo s = s.length := by
  rw [scannedUpTo, toReversePolish_eq reading, Yard.convert, Course.andThen_of_no_fault h]
  dsimp only
  cases hfault : (((Yard.empty.absorbAll ts).last.pass s.toList.length).conclude s.toList.length).fault with
  | none => rfl
  | some d =>
    rcases Yard.conclude_eq_some hfault with ⟨-, rfl⟩ | ⟨-, -, rfl⟩ <;> rfl

end

/-- The events of the scan of a text, accepted or not, cover it up to the token at fault, or else up to its
end, and the stack is drained at its end. -/
theorem events_tile (s : String) :
    Tiles s.toList (scannedUpTo s) ((events s).filter fun e => e.action ≠ .drain) ∧
      ∀ e ∈ events s, e.action = .drain → e.position = s.length := by
  obtain ⟨ts, reading⟩ : ∃ ts, Reading 0 s.toList ts := ⟨_, reading_scan _ _⟩
  have order := reading.inOrder
  rw [Nat.zero_add] at order
  constructor
  · rw [filter_events_ne_drain reading]
    cases hfault : (Yard.empty.absorbAll ts).fault with
    | none =>
      obtain ⟨htokens, hmoves⟩ := Yard.moves_absorbAll hfault
      rw [scannedUpTo_of_no_stop reading hfault, ← String.length_toList]
      have hall : Reading 0 s.toList (ts ++ []) := by rwa [List.append_nil]
      exact tiles_of_reading hall (Yard.lexeme_ne_invalid hfault) htokens hmoves order (by simp) (Nat.le_refl _)
    | some d =>
      obtain ⟨before, t, after, rfl, hbefore, ht, hcourse⟩ := Yard.exists_stop_of_fault hfault
      obtain ⟨htokens, hmoves⟩ := Yard.moves_absorbAll hbefore
      obtain ⟨p, hp, hafter⟩ := order.exists_append
      rw [scannedUpTo_of_stop reading hfault ht, hcourse]
      refine tiles_of_reading reading (Yard.lexeme_ne_invalid hbefore) htokens hmoves
        (hp.mono_right hafter.1) ?_ ?_
      · have hrest : InOrder t.start s.toList.length (t :: after) := ⟨Nat.le_refl _, hafter.2⟩
        exact hrest.le_start
      · have := hafter.2.1
        have := hafter.2.2.le
        omega
  · intro e he haction
    rw [events_eq reading] at he
    obtain ⟨m, hm, rfl⟩ := List.mem_map.1 he
    obtain ⟨drained, hmoves, hdrained⟩ := Yard.moves_convert (y := Yard.empty) ts s.toList.length
    rw [hmoves] at hm
    rcases List.mem_append.1 hm with hm | hm
    · exact absurd haction (Yard.action_of_mem_absorbAll m hm)
    · rw [← String.length_toList]
      exact congrArg Int.ofNat (hdrained m hm).2

/-- Numbers with an operator and a letter in them, and a character behind the group that is no token. -/
theorem events_tile_refused :
    (events "(2^a -  3!x4) %").map (fun e => (e.position, e.token, e.action)) =
        [(0, "(", .opening), (1, "2^a", .number), (5, "-", .operator), (8, "3!x4", .number),
          (12, ")", .closing)] ∧
      scannedUpTo "(2^a -  3!x4) %" = 14 ∧
      Tiles "(2^a -  3!x4) %".toList 14 ((events "(2^a -  3!x4) %").filter fun e => e.action ≠ .drain) := by
  have hscanned : scannedUpTo "(2^a -  3!x4) %" = 14 := by decide +kernel
  have htiles := (events_tile "(2^a -  3!x4) %").1
  rw [hscanned] at htiles
  exact ⟨by decide +kernel, hscanned, htiles⟩

end ReversePolish
