import ReversePolish.Converter.Session
import ReversePolish.Proofs.Frame

/-!
# Once — a converter converts once in its life

No call takes back that the conversion was started.  From then on every further conversion is refused, and
leaves the converter as the calls before it have.
-/

namespace ReversePolish

namespace Converter

variable {α β : Type} {c : Converter} {watch : Option Observer}

/-! ## 1. Moves -/

/-- After the move, failed or not, the conversion is started if and only if it was before. -/
def KeepsStarted (move : Conversion α) : Prop :=
  ∀ c, (stateAfter move c).started = c.started

-- A move that changes no more than the contents does not change the start.
theorem Preserves.keepsStarted {move : Conversion α} (h : Preserves emptied move) : KeepsStarted move :=
  h.map Converter.started

theorem KeepsStarted.bind {move : Conversion α} {f : α → Conversion β} (h : KeepsStarted move)
    (hf : ∀ a, KeepsStarted (f a)) : KeepsStarted (move >>= f) :=
  Preserves.bind h hf

theorem keepsStarted_moveTo (pos : Nat) : KeepsStarted (moveTo pos) := fun _ => rfl

theorem keepsStarted_advance (expected : Option String) : KeepsStarted (advance expected) := by
  have hmove : KeepsStarted (get >>= fun c => moveTo (c.pos + 1)) :=
    (preserves_get _).bind fun _ => keepsStarted_moveTo _
  unfold advance
  cases expected with
  | none => exact hmove
  | some s =>
    refine (preserves_current _).bind fun ch => ?_
    dsimp only
    split
    · exact (preserves_get _).bind fun _ => (preserves_throw _ _).bind fun _ => hmove
    · exact hmove

theorem keepsStarted_placeOperator : KeepsStarted (placeOperator watch) := by
  refine (preserves_get _).bind fun _ => (preserves_current _).bind fun ch =>
    (keepsStarted_advance none).bind fun _ => ?_
  split
  · exact (preserves_settle _ _).keepsStarted
  · exact preserves_throw _ _

theorem keepsStarted_closeGroup : KeepsStarted (closeGroup watch) :=
  (preserves_get _).bind fun _ => (keepsStarted_advance _).bind fun _ => (preserves_closeAt _).keepsStarted

/-! ## 2. Calls -/

theorem convert_of_started (h : c.started = true) : convert watch c = .error .alreadyConverted c := by
  rw [convert, bind_get, h]
  rfl

-- Every call but the conversion leaves it as it is whether one was started.
theorem keepsStarted_perform {call : Call} (h : call ≠ .convert) : KeepsStarted (perform watch call) := by
  have hnothing : ∀ {move : Conversion Unit}, KeepsStarted move →
      KeepsStarted (move >>= fun _ => pure Reply.nothing) :=
    fun hmove => hmove.bind fun _ => preserves_pure _ _
  cases call with
  | convert => contradiction
  | readNumber =>
    intro c
    rfl
  | placeOperator => exact hnothing keepsStarted_placeOperator
  | closeGroup => exact hnothing keepsStarted_closeGroup
  | current => exact (preserves_current _).bind fun _ => preserves_pure _ _
  | advance expected => exact hnothing (keepsStarted_advance expected)
  | record position token action => exact hnothing (preserves_record position token action).keepsStarted
  | moveTo pos => exact hnothing (keepsStarted_moveTo pos)
  | push s => exact hnothing (preserves_push s).keepsStarted
  | pop => exact preserves_pop.keepsStarted.bind fun _ => preserves_pure _ _
  | enqueue s => exact hnothing (preserves_enqueue s).keepsStarted
  | dequeue => exact preserves_dequeue.keepsStarted.bind fun _ => preserves_pure _ _

theorem answer_convert_of_started (h : c.started = true) :
    answer watch c .convert = ⟨.error .alreadyConverted, c, []⟩ := by
  have hperform : (perform watch .convert).run c = .error .alreadyConverted c :=
    bind_of_error (convert_of_started h) _
  rw [answer, hperform]
  simp

theorem started_answer (call : Call) (h : c.started = true) : (answer watch c call).after.started = true := by
  by_cases hcall : call = .convert
  · rw [hcall, answer_convert_of_started h]
    exact h
  · have hkeeps : (stateAfter (perform watch call) c).started = c.started := keepsStarted_perform hcall c
    rw [h, stateAfter] at hkeeps
    rw [answer, EStateM.run]
    cases hmove : perform watch call c with
    | ok reply d => rwa [hmove] at hkeeps
    | error e d => rwa [hmove] at hkeeps

/-! ## 3. Sessions -/

def afterCalls (watch : Option Observer) (c : Converter) (calls : List Call) : Converter :=
  calls.foldl (fun d call => (answer watch d call).after) c

theorem started_afterCalls (calls : List Call) (h : c.started = true) :
    (afterCalls watch c calls).started = true := by
  induction calls generalizing c with
  | nil => exact h
  | cons call calls ih => exact ih (started_answer call h)

theorem session_append (calls more : List Call) :
    session watch c (calls ++ more) = session watch c calls ++ session watch (afterCalls watch c calls) more := by
  induction calls generalizing c with
  | nil => rfl
  | cons call calls ih => exact congrArg (answer watch c call :: ·) ih

-- Wherever a further conversion stands among the calls, it is refused and changes nothing.
theorem session_convert_of_started (calls more : List Call) (h : c.started = true) :
    session watch c (calls ++ .convert :: more) =
      session watch c calls ++ ⟨.error .alreadyConverted, afterCalls watch c calls, []⟩ ::
        session watch (afterCalls watch c calls) more := by
  rw [session_append, session, answer_convert_of_started (started_afterCalls calls h)]

end Converter

end ReversePolish
