import ReversePolish.Proofs.Moves

/-!
# Frame — what a move leaves as it is

A move changes a few parts of a converter, and all others are afterwards what they were, also if it fails.  The
moves of the containers and the reports leave the text, the position in it, the counts and the start as they are.
-/

namespace ReversePolish

namespace Converter

variable {α β γ δ : Type} {c d : Converter} {watch : Option Observer}

/-! ## 1. Any part of a converter -/

/-- The converter after a move, also after one that fails. -/
def stateAfter (move : Conversion α) (c : Converter) : Converter :=
  match move c with
  | .ok _ d => d
  | .error _ d => d

/-- What `part` shows of a converter is after the move, failed or not, what it was before. -/
def Preserves (part : Converter → γ) (move : Conversion α) : Prop :=
  ∀ c, part (stateAfter move c) = part c

section

variable {part : Converter → γ} {move : Conversion α}

theorem Preserves.bind {f : α → Conversion β} (h : Preserves part move) (hf : ∀ a, Preserves part (f a)) :
    Preserves part (move >>= f) := by
  intro c
  have hc := h c
  have hbind : stateAfter (move >>= f) c =
      match move c with
      | .ok a d => stateAfter (f a) d
      | .error _ d => d := by
    show stateAfter (EStateM.bind move f) c = _
    rw [stateAfter, EStateM.bind]
    cases move c <;> rfl
  rw [hbind]
  rw [stateAfter] at hc
  cases hmove : move c with
  | ok a d =>
    rw [hmove] at hc
    exact (hf a d).trans hc
  | error e d =>
    rw [hmove] at hc
    exact hc

theorem Preserves.map (h : Preserves part move) (f : γ → δ) : Preserves (fun c => f (part c)) move :=
  fun c => congrArg f (h c)

theorem Preserves.of_ok {a : α} (h : Preserves part move) (hmove : move c = .ok a d) : part d = part c := by
  have hc := h c
  rwa [stateAfter, hmove] at hc

theorem preserves_pure (part : Converter → γ) (a : α) : Preserves part (pure a) := fun _ => rfl

theorem preserves_throw (part : Converter → γ) (e : Fault) : Preserves part (throw e : Conversion α) := fun _ => rfl

theorem preserves_get (part : Converter → γ) : Preserves part get := fun _ => rfl

theorem preserves_current (part : Converter → γ) : Preserves part current := by
  intro c
  rw [stateAfter, current]
  cases c.text[c.pos]? <;> rfl

theorem Preserves.times {move : Conversion Unit} (h : Preserves part move) (n : Nat) :
    Preserves part (times n move) := by
  induction n with
  | zero => exact preserves_pure part ()
  | succ n ih => exact h.bind fun _ => ih

end

/-! ## 2. All but the contents -/

/-- The converter without what its containers hold and without its events. -/
def emptied (c : Converter) : Converter :=
  { c with output := .ofCapacity 0, stack := .ofCapacity 0, log := #[] }

theorem Preserves.place_of_ok {move : Conversion α} {a : α} (h : Preserves emptied move)
    (hmove : move c = .ok a d) : d.text = c.text ∧ d.pos = c.pos :=
  ⟨(h.map Converter.text).of_ok hmove, (h.map Converter.pos).of_ok hmove⟩

theorem preserves_enqueue (s : String) : Preserves emptied (enqueue s) := by
  intro c
  rw [stateAfter, enqueue]
  cases c.output.enqueue s <;> rfl

theorem preserves_dequeue : Preserves emptied dequeue := by
  intro c
  rw [stateAfter, dequeue]
  cases c.output.dequeue <;> rfl

theorem preserves_push (s : String) : Preserves emptied (push s) := by
  intro c
  rw [stateAfter, push]
  cases c.stack.push s <;> rfl

theorem preserves_pop : Preserves emptied pop := by
  intro c
  rw [stateAfter, pop]
  cases c.stack.pop <;> rfl

theorem preserves_shift : Preserves emptied shift := preserves_pop.bind preserves_enqueue

theorem preserves_record (position : Int) (token : String) (action : Action) :
    Preserves emptied (record watch position token action) := by
  intro c
  rw [stateAfter, record]
  cases watch.bind fun observer =>
    observer (c.log.push ⟨position, token, action, c.output.toList, c.stack.entries⟩) <;> rfl

theorem preserves_settle (op : Operator) (start : Nat) : Preserves emptied (settle watch op start) := by
  have hpush : Preserves emptied (push op.symbol >>= fun _ => record watch start op.symbol .operator) :=
    (preserves_push _).bind fun _ => preserves_record _ _ _
  unfold settle
  refine (preserves_get _).bind fun _ => (preserves_shift.times _).bind fun _ => (preserves_get _).bind fun _ => ?_
  split
  · dsimp only
    split
    · exact hpush
    · exact (preserves_throw _ _).bind fun _ => hpush
  · exact hpush

theorem preserves_closeAt (start : Nat) : Preserves emptied (closeAt watch start) := by
  have hclose : Preserves emptied (discard pop >>= fun _ => record watch start closing .closing) :=
    (preserves_pop.bind fun _ => preserves_pure _ _).bind fun _ => preserves_record _ _ _
  unfold closeAt
  refine (preserves_get _).bind fun _ => (preserves_shift.times _).bind fun _ => (preserves_get _).bind fun _ => ?_
  dsimp only
  split
  · exact (preserves_get _).bind fun _ => (preserves_throw _ _).bind fun _ => hclose
  · exact hclose

end Converter

end ReversePolish
