import Mathlib.Data.List.Perm.Subperm
import ReversePolish.Proofs.Union

/-!
# Sameness — equal registries cannot be told apart

Two values are the same if they become equal when each truth value in them is written as its number.  Two
registries are the same if each key has the same value in both or is missing in both, wherever it stands.
-/

namespace ReversePolish

/-! ## 1. Values -/

namespace Value

mutual

/-- The value with the numbers one and zero in place of the truth values in it. -/
def normal : Value → Value
  | bool b => int (if b then 1 else 0)
  | list items => list (normalAll items)
  | null => null
  | int n => int n
  | str s => str s
  | fixity f => fixity f

def normalAll : List Value → List Value
  | [] => []
  | a :: as => normal a :: normalAll as

end

mutual

theorem same_iff_normal : ∀ a b : Value, a.same b = true ↔ a.normal = b.normal
  | list as, list bs => by
    rw [same, normal, normal, list.injEq, sameAll_iff_normalAll]
  | list as, null | list as, bool _ | list as, int _ | list as, str _ | list as, fixity _ => by
    simp [same, sameLeaf, number?, normal]
  | null, b | bool _, b | int _, b | str _, b | fixity _, b => by
    cases b <;> simp [same, sameLeaf, number?, normal]

theorem sameAll_iff_normalAll : ∀ as bs : List Value, sameAll as bs = true ↔ normalAll as = normalAll bs
  | [], [] => by simp [sameAll]
  | [], b :: bs => by simp [sameAll, normalAll]
  | a :: as, [] => by simp [sameAll, normalAll]
  | a :: as, b :: bs => by
    rw [sameAll, normalAll, normalAll, List.cons.injEq, Bool.and_eq_true, same_iff_normal, sameAll_iff_normalAll]

end

def isList : Value → Bool
  | list _ => true
  | _ => false

theorem isList_normal (a : Value) : a.normal.isList = a.isList := by
  cases a <;> simp [normal, isList]

end Value

/-! ## 2. Registries -/

namespace Registry

variable {r a b c d : Registry Value}

theorem length_keys (r : Registry Value) : r.keys.length = r.size := List.length_map _

-- A registry is no larger than one that has all its keys, and has the same keys if it is as large.
theorem keys_perm (hsize : a.size = b.size) (hkeys : ∀ key ∈ a.keys, key ∈ b.keys) : a.keys.Perm b.keys := by
  have hlength : b.keys.length ≤ a.keys.length := by
    rw [length_keys, length_keys]
    exact Nat.le_of_eq hsize.symm
  exact (List.subperm_of_subset a.keys_nodup hkeys).perm_of_length_le hlength

theorem keys_perm_iff : a.keys.Perm b.keys ↔ ∀ key, key ∈ a.keys ↔ key ∈ b.keys :=
  List.perm_ext_iff_of_nodup a.keys_nodup b.keys_nodup

section

variable (hget : ∀ key, (a.get? key).map Value.normal = (b.get? key).map Value.normal)

include hget

theorem contains_eq_of_get? (key : String) : a.contains key = b.contains key := by
  rw [Registry.contains, Registry.contains, ← Option.isSome_map (f := Value.normal), hget key, Option.isSome_map]

theorem keys_perm_of_get? : a.keys.Perm b.keys := by
  refine keys_perm_iff.2 fun key => ?_
  rw [mem_keys_iff, mem_keys_iff]
  exact Bool.eq_iff_iff.1 (contains_eq_of_get? hget key)

end

/-- Two registries are the same if the normal forms of the values of each key are equal. -/
theorem same_iff_get? : a.same b = true ↔ ∀ key, (a.get? key).map Value.normal = (b.get? key).map Value.normal := by
  rw [same, Bool.and_eq_true, beq_iff_eq, List.all_eq_true]
  constructor
  · rintro ⟨hsize, hall⟩
    have hvalue : ∀ key v, a.get? key = some v → ∃ w, b.get? key = some w ∧ v.normal = w.normal := by
      intro key v hv
      obtain ⟨w, hw, hsame⟩ := (Option.any_eq_true _ _).1 (hall _ (get?_eq_some_iff.1 hv))
      exact ⟨w, hw, (Value.same_iff_normal v w).1 hsame⟩
    have hkeys : ∀ key ∈ a.keys, key ∈ b.keys := by
      intro key hkey
      obtain ⟨v, hv⟩ := Option.isSome_iff_exists.1 (mem_keys_iff.1 hkey)
      obtain ⟨w, hw, -⟩ := hvalue key v hv
      rw [mem_keys_iff, hw, Option.isSome_some]
    intro key
    cases hv : a.get? key with
    | some v =>
      obtain ⟨w, hw, hnormal⟩ := hvalue key v hv
      rw [hw, Option.map_some, Option.map_some, hnormal]
    | none =>
      -- the second registry has all keys of the first and is no larger, so it has no other
      have hmissing : key ∉ b.keys := mt (keys_perm hsize hkeys).mem_iff.2 (get?_eq_none_iff.1 hv)
      rw [get?_eq_none_iff.2 hmissing]
  · intro hget
    refine ⟨by rw [← length_keys, ← length_keys, (keys_perm_of_get? hget).length_eq], fun entry hentry => ?_⟩
    have hvalue := hget entry.1
    rw [get?_eq_some_iff.2 hentry, Option.map_some, eq_comm, Option.map_eq_some_iff] at hvalue
    obtain ⟨w, hw, hnormal⟩ := hvalue
    rw [hw, Option.any_some, Value.same_iff_normal, hnormal]

theorem same_refl (a : Registry Value) : a.same a = true := same_iff_get?.2 fun _ => rfl

theorem same_comm (a b : Registry Value) : a.same b = b.same a := by
  rw [Bool.eq_iff_iff, same_iff_get?, same_iff_get?]
  exact forall_congr' fun _ => eq_comm

theorem same_trans (hab : a.same b = true) (hbc : b.same c = true) : a.same c = true :=
  same_iff_get?.2 fun key => (same_iff_get?.1 hab key).trans (same_iff_get?.1 hbc key)

theorem same_of_perm (h : a.entries.Perm b.entries) (c : Registry Value) : a.same c = b.same c := by
  have hget : ∀ key, a.get? key = b.get? key := lookup_eq_of_perm a.keys_nodup h
  rw [Bool.eq_iff_iff, same_iff_get?, same_iff_get?]
  simp only [hget]

theorem same_union (hac : a.same c = true) (hbd : b.same d = true) : (a.union b).same (c.union d) = true := by
  refine same_iff_get?.2 fun key => ?_
  rw [get?_union, get?_union, Option.map_or, Option.map_or, same_iff_get?.1 hac, same_iff_get?.1 hbd]

theorem keys_perm_of_same (h : a.same b = true) : a.keys.Perm b.keys := keys_perm_of_get? (same_iff_get?.1 h)

theorem same_iff_values : a.same b = true ↔ (∀ key, key ∈ a.keys ↔ key ∈ b.keys) ∧
    ∀ key v w, a.get? key = some v → b.get? key = some w → v.same w = true := by
  constructor
  · intro h
    refine ⟨keys_perm_iff.1 (keys_perm_of_same h), fun key v w hv hw => ?_⟩
    have hvalue := same_iff_get?.1 h key
    rw [hv, hw] at hvalue
    exact (Value.same_iff_normal v w).2 (Option.some.inj hvalue)
  · rintro ⟨hkeys, hvalues⟩
    refine same_iff_get?.2 fun key => ?_
    cases hv : a.get? key with
    | none => rw [get?_eq_none_iff.2 (mt (hkeys key).2 (get?_eq_none_iff.1 hv))]
    | some v =>
      obtain ⟨w, hw⟩ : ∃ w, b.get? key = some w := by
        rw [← Option.isSome_iff_exists, ← mem_keys_iff, ← hkeys, mem_keys_iff, hv, Option.isSome_some]
      rw [hw, Option.map_some, Option.map_some, (Value.same_iff_normal v w).1 (hvalues key v w hv hw)]

/-! ## 3. Hashing -/

-- What is computed from the entries one by one, and is not changed when truth values are written as numbers, is found
-- in both registries equally often.
theorem map_entries_perm {κ : Type} {code : String × Value → κ}
    (hcode : ∀ key v, code (key, v.normal) = code (key, v)) (h : a.same b = true) :
    (a.entries.map code).Perm (b.entries.map code) := by
  have hentries : ∀ r : Registry Value, (r.entries.map code).map some =
      r.keys.map fun key => ((r.get? key).map Value.normal).map fun v => code (key, v) := by
    intro r
    rw [keys, List.map_map, List.map_map]
    refine List.map_congr_left fun entry hentry => ?_
    rw [Function.comp_apply, Function.comp_apply, get?_eq_some_iff.2 hentry, Option.map_some, Option.map_some, hcode]
  -- behind the normal forms both lists of codes come from one function of the keys
  rw [← List.map_perm_map_iff (Option.some_injective κ), hentries, hentries]
  simp only [same_iff_get?.1 h]
  exact (keys_perm_of_same h).map _

theorem any_isList_iff : r.entries.any (·.2.isList) = true ↔ ∃ key items, (key, Value.list items) ∈ r.entries := by
  rw [List.any_eq_true]
  constructor
  · rintro ⟨⟨key, value⟩, hmem, hlist⟩
    cases value with
    | list items => exact ⟨key, items, hmem⟩
    | _ => contradiction
  · rintro ⟨key, items, hmem⟩
    exact ⟨_, hmem, rfl⟩

theorem any_isList_of_same (h : a.same b = true) : a.entries.any (·.2.isList) = b.entries.any (·.2.isList) := by
  have hlists : (a.entries.map (·.2.isList)).Perm (b.entries.map (·.2.isList)) :=
    map_entries_perm (fun _ v => v.isList_normal) h
  rw [Bool.eq_iff_iff]
  simpa using hlists.mem_iff (a := true)

section

variable [Hashing]

theorem entryCode_of_isList {entry : String × Value} (h : entry.2.isList = true) :
    entryCode entry = .error (.unhashable "list") := by
  obtain ⟨key, value⟩ := entry
  cases value with
  | list items => rfl
  | _ => contradiction

theorem exists_entryCode {entry : String × Value} (h : entry.2.isList = false) :
    ∃ code, entryCode entry = .ok code := by
  obtain ⟨key, value⟩ := entry
  cases value with
  | list items => contradiction
  | _ => exact ⟨_, rfl⟩

theorem entryCode_normal (key : String) (v : Value) : entryCode (key, v.normal) = entryCode (key, v) := by
  cases v <;> rw [Value.normal] <;> rfl

theorem mapM_entryCode (entries : List (String × Value)) :
    entries.mapM entryCode =
      if entries.any (·.2.isList) then .error (.unhashable "list")
      else .ok ((entries.map entryCode).filterMap Except.toOption) := by
  induction entries with
  | nil => rfl
  | cons entry rest ih =>
    rw [List.mapM_cons, ih]
    cases hentry : entry.2.isList with
    | true =>
      rw [entryCode_of_isList hentry, List.any_cons, hentry, Bool.true_or]
      rfl
    | false =>
      obtain ⟨code, hcode⟩ := exists_entryCode hentry
      rw [List.map_cons, hcode, List.any_cons, hentry, Bool.false_or]
      cases rest.any (·.2.isList) <;> rfl

/-- A registry can be hashed unless one of its values is a list; then its code is made of those of its entries. -/
theorem hash_eq (r : Registry Value) :
    r.hash = if r.entries.any (·.2.isList) then .error (.unhashable "list")
      else .ok (Hashing.ofSet ((r.entries.map entryCode).filterMap Except.toOption)) := by
  rw [hash, mapM_entryCode]
  cases r.entries.any (·.2.isList) <;> rfl

theorem hash_of_same (h : a.same b = true) : a.hash = b.hash := by
  have hcodes : (a.entries.map entryCode).Perm (b.entries.map entryCode) :=
    map_entries_perm entryCode_normal h
  rw [hash_eq, hash_eq, any_isList_of_same h, Hashing.ofSet_perm (hcodes.filterMap Except.toOption)]

theorem perform_hash_iff (r : Registry Value) :
    ((r.perform .hash).1 = .error (.unhashable "list") ↔ ∃ key items, (key, Value.list items) ∈ r.entries) ∧
      ((r.perform .hash).1 = .ok .hashed ↔ ¬ ∃ key items, (key, Value.list items) ∈ r.entries) := by
  rw [← any_isList_iff, perform, hash_eq]
  cases r.entries.any (·.2.isList) <;> simp [Except.map]

end

/-! ## 4. What sameness keeps -/

/-- What registries that are the same have in common: the number of their keys, the answer whether a key is there, and
the code or the refusal of it. -/
structure Alike [Hashing] (a b : Registry Value) : Prop where
  size : (a.perform .size).1 = (b.perform .size).1
  contains : ∀ key, (a.perform (.contains key)).1 = (b.perform (.contains key)).1
  code : a.hash = b.hash
  hash : (a.perform .hash).1 = (b.perform .hash).1
  sameHash : (a.perform .hash).1 = .ok .hashed → (a.perform (.sameHash b)).1 = .ok (.truth true)

theorem alike_of_same [Hashing] (h : a.same b = true) : Alike a b where
  size := by
    have hlength := (keys_perm_of_same h).length_eq
    rw [length_keys, length_keys] at hlength
    rw [perform, perform, hlength]
  contains key := by rw [perform, perform, contains_eq_of_get? (same_iff_get?.1 h) key]
  code := hash_of_same h
  hash := by rw [perform, perform, hash_of_same h]
  sameHash hhash := by
    rw [perform] at hhash
    rw [perform, if_pos h, ← hash_of_same h]
    cases hresult : a.hash with
    | ok code =>
      dsimp only
      rw [beq_self_eq_true]
    | error e =>
      rw [hresult] at hhash
      contradiction

/-- Values are the same if they are equal once truth values are written as numbers, and registries if they have the
same keys and each key the same value in both.  This is an equivalence, for which the order of the entries does not
count and plain pairs do as well as a registry.  It is kept by the union, by the number of the keys and by the
question for a key.  A registry can be hashed unless one of its values is a list, so of two that are the same both
can be hashed or none, and then they have the same hash. -/
theorem same_congruence [Hashing] (a b c : Registry Value) :
    (∀ v w : Value, v.same w = true ↔ v.normal = w.normal) ∧
    a.same a = true ∧ a.same b = b.same a ∧ (a.same b = true → b.same c = true → a.same c = true) ∧
    (∀ a' : Registry Value, a'.entries.Perm a.entries → a'.same b = a.same b) ∧
    (a.same b = true ↔ (∀ key, key ∈ a.keys ↔ key ∈ b.keys) ∧
      ∀ key v w, a.get? key = some v → b.get? key = some w → v.same w = true) ∧
    (a.perform (.sameAs (.registry b))).1 = .ok (.truth (a.same b)) ∧
    (a.perform (.sameAs (.pairs b.entries))).1 = .ok (.truth (a.same b)) ∧
    (∀ a' b' : Registry Value, a.same a' = true → b.same b' = true → (a.union b).same (a'.union b') = true) ∧
    ((a.perform .hash).1 = .error (.unhashable "list") ↔ ∃ key items, (key, Value.list items) ∈ a.entries) ∧
    ((a.perform .hash).1 = .ok .hashed ↔ ¬ ∃ key items, (key, Value.list items) ∈ a.entries) ∧
    (a.same b = true → Alike a b) := by
  refine ⟨Value.same_iff_normal, same_refl a, same_comm a b, same_trans, fun _ h => same_of_perm h b,
    same_iff_values, rfl, ?_, fun _ _ => same_union, (perform_hash_iff a).1, (perform_hash_iff a).2, alike_of_same⟩
  rw [perform, Operand.toRegistry, ofList_entries]

/-- A table with a truth value of its own and another one in a list. -/
def marked : Registry Value := ofList [("open", .bool true), ("levels", .list [.bool false, .list []])]

def numbered : Registry Value := ofList [("levels", .list [.int 0, .list []]), ("open", .int 1)]

/-- A table that can be hashed, with a truth value in front of a fixity. -/
def flagged : Registry Value := ofList [("open", .bool true), ("power", .fixity ⟨4, .right⟩)]

def counted : Registry Value := ofList [("power", .fixity ⟨4, .right⟩), ("open", .int 1)]

theorem same_congruence_numbered :
    (marked.same numbered = true ∧ numbered.same (numbered.union marked) = true ∧
        marked.same (numbered.union marked) = true) ∧
      ((ofList marked.entries.reverse).entries.Perm marked.entries ∧
        (ofList marked.entries.reverse).same numbered = marked.same numbered) ∧
      (numbered.same marked = true ∧ (marked.union numbered).same (numbered.union marked) = true) ∧
      ((marked.perform .hash).1 = .error (.unhashable "list") ∧ Alike marked numbered) ∧
      flagged.same counted = true ∧ (flagged.perform .hash).1 = .ok .hashed ∧
        flagged.hash = counted.hash ∧ (flagged.perform (.sameHash counted)).1 = .ok (.truth true) := by
  have hsame : marked.same numbered = true := by decide
  have hsame' : numbered.same marked = true := by decide
  have hunited : numbered.same (numbered.union marked) = true := by decide
  have hflagged : flagged.same counted = true := by decide
  have hperm : (ofList marked.entries.reverse).entries.Perm marked.entries := List.reverse_perm marked.entries
  have hmem : ("levels", Value.list [.bool false, .list []]) ∈ marked.entries :=
    List.mem_cons_of_mem _ List.mem_cons_self
  obtain ⟨-, -, -, htrans, hreordered, -, -, -, hunion, hhash, -, halike⟩ :=
    same_congruence marked numbered (numbered.union marked)
  obtain ⟨-, -, -, -, -, -, -, -, -, -, -, halike'⟩ := same_congruence flagged counted empty
  exact ⟨⟨hsame, hunited, htrans hsame hunited⟩, ⟨hperm, hreordered _ hperm⟩, ⟨hsame', hunion _ _ hsame hsame'⟩,
    ⟨hhash.2 ⟨_, _, hmem⟩, halike hsame⟩, hflagged, rfl, (halike' hflagged).code, (halike' hflagged).sameHash rfl⟩

end Registry

end ReversePolish
