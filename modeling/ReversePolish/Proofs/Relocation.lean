import ReversePolish.Proofs.Events

/-!
# Relocation — a conversion looks at places only to report them

Tokens that stand elsewhere are converted in the same way: the moves are the same, each reported where its
token now stands, and a fault is the same fault at another place.
-/

namespace ReversePolish

/-! ## 1. Tokens elsewhere -/

variable {f : Nat → Nat}

def Token.relocate (f : Nat → Nat) (t : Token) : Token := { t with start := f t.start }

namespace Token

@[simp] theorem lexeme_relocate (t : Token) : (t.relocate f).lexeme = t.lexeme := rfl

@[simp] theorem start_relocate (t : Token) : (t.relocate f).start = f t.start := rfl

@[simp] theorem text_relocate (t : Token) : (t.relocate f).text = t.text := rfl

@[simp] theorem opens_relocate (t : Token) : (t.relocate f).opens = t.opens := rfl

theorem map_text_relocate (ts : List Token) : (ts.map (relocate f)).map text = ts.map text := by
  rw [List.map_map]
  rfl

theorem any_opens_relocate (ts : List Token) : (ts.map (relocate f)).any opens = ts.any opens := by
  rw [List.any_map]
  rfl

theorem takeWhile_relocate {p : Token → Bool} (hp : ∀ t : Token, p (t.relocate f) = p t)
    (ts : List Token) :
    (ts.map (relocate f)).takeWhile p = (ts.takeWhile p).map (relocate f) := by
  rw [List.takeWhile_map, show p ∘ relocate f = p from funext hp]

theorem dropWhile_relocate {p : Token → Bool} (hp : ∀ t : Token, p (t.relocate f) = p t)
    (ts : List Token) :
    (ts.map (relocate f)).dropWhile p = (ts.dropWhile p).map (relocate f) := by
  rw [List.dropWhile_map, show p ∘ relocate f = p from funext hp]

end Token

/-- The event of a move, reported where `f` puts its position. -/
def Move.eventAt (f : Nat → Nat) (before : List String) (m : Move) : Event :=
  { m.event before with position := f m.position }

/-- The yard at the position `pos` with its tokens relocated. -/
def Yard.relocate (f : Nat → Nat) (pos : Nat) (y : Yard) : Yard where
  pos := pos
  output := y.output.map (Token.relocate f)
  waiting := y.waiting.map (Token.relocate f)
  operators := y.operators
  numbers := y.numbers

theorem Yard.event_relocate (before : List String) (n pos : Nat) (t : Token) (a : Action) (z : Yard) :
    Move.event before ⟨f n, t.relocate f, a, z.relocate f pos⟩ = Move.eventAt f before ⟨n, t, a, z⟩ := by
  simp only [Move.event, Move.eventAt, relocate, Token.map_text_relocate, Token.text_relocate]

/-! ## 2. Courses elsewhere -/

/-- A diagnostic about a token at a place that `f` moves is moved by `g`. -/
structure Relocates (f : Nat → Nat) (g : Diagnostic → Diagnostic) : Prop where
  invalidToken : ∀ c start, g (.invalidToken c start) = .invalidToken c (f start)
  mismatchedClosing : ∀ start,
    g (.mismatchedClosing start (start + 1)) = .mismatchedClosing (f start) (f start + 1)

/-- The end `stop` of a text is moved to `stop'`, and a diagnostic about it by `g`. -/
structure RelocatesEnd (f : Nat → Nat) (g : Diagnostic → Diagnostic) (stop stop' : Nat) : Prop where
  stop_eq : f stop = stop'
  invalidOperatorCount : ∀ operators numbers,
    g (.invalidOperatorCount operators numbers stop) = .invalidOperatorCount operators numbers stop'
  unmatchedOpening : g (.unmatchedOpening stop) = .unmatchedOpening stop'

/-- The course `r'` is the course `r` with its places moved by `f` and its fault by `g`. -/
structure Course.Relocated (f : Nat → Nat) (g : Diagnostic → Diagnostic) (r r' : Course) : Prop where
  moves : ∀ before, r'.moves.map (Move.event before) = r.moves.map (Move.eventAt f before)
  last : ∃ pos, r'.last = r.last.relocate f pos
  fault : r'.fault = r.fault.map g

namespace Course.Relocated

variable {g : Diagnostic → Diagnostic} {r r' : Course}

theorem cons (h : Relocated f g r r') (n pos : Nat) (t : Token) (a : Action) (z : Yard) :
    Relocated f g (r.cons ⟨n, t, a, z⟩) (r'.cons ⟨f n, t.relocate f, a, z.relocate f pos⟩) where
  moves before := congrArg₂ List.cons (Yard.event_relocate before n pos t a z) (h.moves before)
  last := h.last
  fault := h.fault

theorem andThen (h : Relocated f g r r') {next next' : Yard → Course}
    (hnext : ∀ z pos, Relocated f g (next z) (next' (z.relocate f pos))) :
    Relocated f g (r.andThen next) (r'.andThen next') := by
  have hfault' := h.fault
  cases hfault : r.fault with
  | none =>
    rw [hfault] at hfault'
    obtain ⟨pos, hlast⟩ := h.last
    have hrest := hnext r.last pos
    rw [← hlast] at hrest
    rw [andThen_of_no_fault hfault, andThen_of_no_fault hfault']
    refine ⟨fun before => ?_, hrest.last, hrest.fault⟩
    rw [List.map_append, List.map_append, h.moves before, hrest.moves before]
  | some d =>
    rw [hfault] at hfault'
    rw [andThen_of_fault hfault, andThen_of_fault hfault']
    exact h

end Course.Relocated

/-! ## 3. The yard elsewhere -/

namespace Yard

variable {g : Diagnostic → Diagnostic} {stop stop' : Nat}

theorem complaint?_relocate (hg : Relocates f g) (y : Yard) (t : Token) (pos : Nat) :
    (y.relocate f pos).complaint? (t.relocate f) = (y.complaint? t).map g := by
  unfold complaint?
  rw [Token.lexeme_relocate, Token.start_relocate, relocate, Token.any_opens_relocate]
  cases ht : t.lexeme with
  | closing =>
    cases y.waiting.any Token.opens with
    | true => rfl
    | false =>
      have hstop : t.stop = t.start + 1 := by rw [Token.stop, ht]; rfl
      have hstop' : (t.relocate f).stop = f t.start + 1 := by
        rw [Token.stop, Token.lexeme_relocate, ht]
        rfl
      exact congrArg some (hstop ▸ hstop' ▸ (hg.mismatchedClosing t.start).symm)
  | invalid c => exact congrArg some (hg.invalidToken c t.start).symm
  | _ => rfl

theorem absorb_relocate (y : Yard) (t : Token) (pos : Nat) :
    ∃ q, (y.relocate f pos).absorb (t.relocate f) = (y.absorb t).relocate f q := by
  cases ht : t.lexeme with
  | number literal =>
    rw [absorb_of_number (t := t.relocate f) ht, absorb_of_number ht]
    exact ⟨_, by simp only [relocate, List.map_append]; rfl⟩
  | operator op =>
    rw [absorb_of_operator (t := t.relocate f) ht, absorb_of_operator ht]
    simp only [relocate, Token.takeWhile_relocate (p := Token.settles op) fun _ => rfl,
      Token.dropWhile_relocate (p := Token.settles op) fun _ => rfl, ← List.map_append, ← List.map_cons]
    exact ⟨_, rfl⟩
  | opening =>
    rw [absorb_of_opening (t := t.relocate f) ht, absorb_of_opening ht]
    exact ⟨_, rfl⟩
  | closing =>
    rw [absorb_of_closing (t := t.relocate f) ht, absorb_of_closing ht]
    simp only [relocate, Token.takeWhile_relocate (p := (!Token.opens ·)) fun _ => rfl,
      Token.dropWhile_relocate (p := (!Token.opens ·)) fun _ => rfl, ← List.map_append, ← List.map_tail]
    exact ⟨_, rfl⟩
  | invalid c =>
    rw [absorb_of_invalid (t := t.relocate f) ht, absorb_of_invalid ht]
    exact ⟨_, rfl⟩

-- The moves of relocated tokens are those of the tokens, reported elsewhere.
theorem relocated_absorbAll (hg : Relocates f g) (y : Yard) (ts : List Token) (pos : Nat) :
    Course.Relocated f g (y.absorbAll ts) ((y.relocate f pos).absorbAll (ts.map (Token.relocate f))) := by
  induction ts generalizing y pos with
  | nil => exact ⟨fun _ => rfl, ⟨pos, rfl⟩, rfl⟩
  | cons t ts ih =>
    obtain ⟨q, hq⟩ := absorb_relocate y t pos
    rw [List.map_cons, absorbAll, absorbAll, complaint?_relocate hg, hq]
    cases y.complaint? t with
    | none => exact (ih (y.absorb t) q).cons t.start q t t.lexeme.action (y.absorb t)
    | some d => exact ⟨fun _ => rfl, ⟨q, rfl⟩, rfl⟩

theorem relocated_drain (hend : RelocatesEnd f g stop stop') (y : Yard) (ts : List Token) (pos : Nat) :
    Course.Relocated f g (y.drain stop ts) ((y.relocate f pos).drain stop' (ts.map (Token.relocate f))) := by
  induction ts generalizing y with
  | nil => exact ⟨fun _ => rfl, ⟨pos, rfl⟩, rfl⟩
  | cons t ts ih =>
    rw [List.map_cons, drain, drain, Token.opens_relocate]
    cases t.opens with
    | true => exact ⟨fun _ => rfl, ⟨pos, rfl⟩, congrArg some hend.unmatchedOpening.symm⟩
    | false =>
      have hy : { y.relocate f pos with
          output := (y.relocate f pos).output ++ [t.relocate f], waiting := ts.map (Token.relocate f) } =
          ({ y with output := y.output ++ [t], waiting := ts } : Yard).relocate f pos := by
        simp only [relocate, List.map_append, List.map_singleton]
      have hrest := (ih { y with output := y.output ++ [t], waiting := ts }).cons stop pos t .drain
        { y with output := y.output ++ [t], waiting := ts }
      rw [hend.stop_eq, ← hy] at hrest
      exact hrest

theorem relocated_conclude (hend : RelocatesEnd f g stop stop') (y : Yard) (pos : Nat) :
    Course.Relocated f g (y.conclude stop) ((y.relocate f pos).conclude stop') := by
  rw [conclude, conclude]
  by_cases hcounts : y.numbers ≤ y.operators
  · rw [if_pos hcounts, if_pos (show (y.relocate f pos).numbers ≤ (y.relocate f pos).operators from hcounts)]
    exact ⟨fun _ => rfl, ⟨pos, rfl⟩, congrArg some (hend.invalidOperatorCount _ _).symm⟩
  · rw [if_neg hcounts,
      if_neg (show ¬ (y.relocate f pos).numbers ≤ (y.relocate f pos).operators from hcounts)]
    exact relocated_drain hend y y.waiting pos

theorem relocated_convert (hg : Relocates f g) (hend : RelocatesEnd f g stop stop') (y : Yard)
    (ts : List Token) (pos : Nat) :
    Course.Relocated f g (y.convert ts stop)
      ((y.relocate f pos).convert (ts.map (Token.relocate f)) stop') :=
  (relocated_absorbAll hg y ts pos).andThen fun z q => relocated_conclude hend (z.pass stop) (max q stop')

end Yard

end ReversePolish
