import ReversePolish.Registry.Operators
import ReversePolish.Proofs.Union

/-!
# ReadOnly — only unions replace the current registry

Whatever calls are made in turn, the current registry is the first one and the tables of the unions since, merged in
their order.  An attempt to change it in place is refused at all times.
-/

namespace ReversePolish

namespace Registry

/-! ## 1. What a call merges -/

/-- The pairs that a call merges into the current registry if it succeeds. -/
def Call.pairs : Call → List (String × Value)
  | union (.registry s) => s.entries
  | union (.pairs ps) => ps
  | _ => []

/-- The pairs that calls merge, one after the other; those of a call with the answer of a failure do not count. -/
def mergedBy (calls : List Call) (answers : List (Except Failure Reply × Registry Value)) : List (String × Value) :=
  (calls.zip answers).flatMap fun (call, answer) => if answer.1.isOk then call.pairs else []

theorem perform_of_not_union [Hashing] {call : Call} (h : ∀ operand, call ≠ .union operand) (r : Registry Value) :
    (r.perform call).2 = r := by
  cases call with
  | union operand => exact absurd rfl (h operand)
  | index key =>
    rw [perform]
    cases r.get? key <;> rfl
  | sameHash operand =>
    rw [perform]
    split_ifs
    · cases r.hash <;> cases operand.hash <;> rfl
    · rfl
  | ofKeys keys => cases keys <;> rfl
  | get | contains | size | keys | display | hash | edit | unionValue | unionOnto | copy | sameAs => rfl

theorem pairs_of_not_union {call : Call} (h : ∀ operand, call ≠ .union operand) : call.pairs = [] := by
  cases call with
  | union operand => exact absurd rfl (h operand)
  | _ => rfl

-- A call puts in the pairs that it merges, and changes nothing else.
theorem perform_eq_insertAll [Hashing] (r : Registry Value) (call : Call) :
    (r.perform call).2 = r.insertAll (if (r.perform call).1.isOk then call.pairs else []) := by
  by_cases h : ∃ operand, call = .union operand
  · obtain ⟨operand, rfl⟩ := h
    cases operand with
    | registry s => exact union_eq r s
    | pairs ps => exact extend_eq r ps
  · have hother : ∀ operand, call ≠ .union operand := not_exists.1 h
    rw [perform_of_not_union hother, pairs_of_not_union hother, ite_self]
    rfl

/-! ## 2. Sessions -/

def after [Hashing] (r : Registry Value) (calls : List Call) : Registry Value :=
  calls.foldl (fun r call => (r.perform call).2) r

theorem session_append [Hashing] (r : Registry Value) (calls more : List Call) :
    r.session (calls ++ more) = r.session calls ++ (r.after calls).session more := by
  induction calls generalizing r with
  | nil => rfl
  | cons call calls ih => exact congrArg (r.perform call :: ·) (ih _)

theorem mergedBy_cons (call : Call) (calls : List Call) (answer : Except Failure Reply × Registry Value)
    (answers : List (Except Failure Reply × Registry Value)) :
    mergedBy (call :: calls) (answer :: answers) =
      (if answer.1.isOk then call.pairs else []) ++ mergedBy calls answers := rfl

theorem after_eq_insertAll [Hashing] (r : Registry Value) (calls : List Call) :
    r.after calls = r.insertAll (mergedBy calls (r.session calls)) := by
  induction calls generalizing r with
  | nil => rfl
  | cons call calls ih =>
    -- what the first call merges goes in before the rest
    calc r.after (call :: calls)
      _ = (r.perform call).2.insertAll (mergedBy calls ((r.perform call).2.session calls)) := ih _
      _ = r.insertAll (mergedBy (call :: calls) (r.session (call :: calls))) := by
            rw [session, mergedBy_cons, insertAll_append, ← perform_eq_insertAll]

/-- The registry holds the keys of the pairs, each at the place where it comes first and with the value that comes
last. -/
structure Merges (r : Registry Value) (pairs : List (String × Value)) : Prop where
  keys : r.keys = (pairs.map Prod.fst).eraseDups
  value : ∀ key, r.get? key = pairs.reverse.lookup key

theorem merges_insertAll (r : Registry Value) (pairs : List (String × Value)) :
    Merges (r.insertAll pairs) (r.entries ++ pairs) := by
  rw [← extend_eq, extend]
  exact ⟨keys_ofList _, get?_ofList _⟩

/-- Whatever calls are made in turn, the current registry holds the entries of the first one and then the pairs of
the unions that succeeded, merged in this order.  Any other call leaves it as it is, whether it succeeds or fails, and
an attempt to change it in place is refused, whatever it would change. -/
theorem session_merges [Hashing] (r : Registry Value) (calls : List Call) :
    (r.after calls).Merges (r.entries ++ mergedBy calls (r.session calls)) ∧
    (∀ call, r.session (calls ++ [call]) = r.session calls ++ [(r.after calls).perform call] ∧
      r.after (calls ++ [call]) = ((r.after calls).perform call).2) ∧
    (∀ call, (∀ operand, call ≠ .union operand) → ((r.after calls).perform call).2 = r.after calls) ∧
    ∀ attempt, (r.after calls).perform (.edit attempt) = (.error .readOnly, r.after calls) := by
  refine ⟨?_, fun call => ⟨session_append r calls [call], List.foldl_append⟩,
    fun call h => perform_of_not_union h _, fun _ => rfl⟩
  rw [after_eq_insertAll]
  exact merges_insertAll r _

/-- Unions with plain pairs and with a registry, among calls that are refused. -/
def extension : List Call :=
  [.edit (.set "%" (.int 3)), .union (.pairs [("%", .int 3), ("-", .null)]), .unionValue (.int 1),
    .edit (.pop "?" none), .copy, .union (.registry (ofList [("*", .bool true)])), .edit .clear]

/-- The table of the operators takes a new key and two new values from its extension, and nothing else. -/
theorem session_merges_extension :
    mergedBy extension (Operator.registry.session extension) = [("%", .int 3), ("-", .null), ("*", .bool true)] ∧
      (Operator.registry.after extension).Merges
        (Operator.registry.entries ++ [("%", .int 3), ("-", .null), ("*", .bool true)]) ∧
      (Operator.registry.after extension).keys = ["^", "*", "/", "+", "-", "%"] ∧
      (∀ operand, Call.unionOnto [("-", .null)] ≠ .union operand) ∧
      ((Operator.registry.after extension).perform (.unionOnto [("-", .null)])).2 =
        Operator.registry.after extension ∧
      (Operator.registry.after extension).perform (.edit (.delete "?")) =
        (.error .readOnly, Operator.registry.after extension) := by
  obtain ⟨hmerges, -, hkept, hedit⟩ := session_merges Operator.registry extension
  exact ⟨rfl, hmerges, by decide, nofun, hkept _ nofun, hedit _⟩

end Registry

end ReversePolish
