import Mathlib.Data.List.Nodup
import Mathlib.Data.Option.Basic
import ReversePolish.Registry.Session

/-!
# Union — registries merge like their lists of pairs

A registry is decided by the order of its keys and by the value of each.  Pairs put in one after the other
bring new keys to the end, in the order in which they first come, and the last value of a key counts.  From these
two facts follow the laws of the union.
-/

namespace ReversePolish

/-! ## 1. Lists without repetitions -/

section

variable {α : Type} [DecidableEq α]

theorem filter_bne_eq_self {a : α} {l : List α} (h : a ∉ l) : l.filter (!· == a) = l := by
  rw [List.filter_eq_self]
  intro b hb
  have hba : b ≠ a := fun e => h (e ▸ hb)
  simpa using hba

theorem eraseDups_of_nodup {l : List α} (h : l.Nodup) : l.eraseDups = l := by
  induction l with
  | nil => rfl
  | cons a l ih =>
    rw [List.nodup_cons] at h
    rw [List.eraseDups_cons, filter_bne_eq_self h.1, ih h.2]

theorem filter_eraseDups (p : α → Bool) (l : List α) : l.eraseDups.filter p = (l.filter p).eraseDups := by
  match l with
  | [] => rfl
  | a :: l =>
    rw [List.eraseDups_cons, List.filter_cons, List.filter_cons, filter_eraseDups p (l.filter (!· == a)),
      List.filter_filter]
    cases hp : p a with
    | true =>
      rw [if_pos rfl, if_pos rfl, List.eraseDups_cons, List.filter_filter]
      simp only [Bool.and_comm]
    | false =>
      -- what is the same as `a` does not pass either
      have hne : ∀ b ∈ l, (p b && !b == a) = p b := by
        intro b _
        by_cases hba : b = a <;> simp [hba, hp]
      rw [if_neg (by decide), if_neg (by decide), List.filter_congr hne]
  termination_by l.length
  decreasing_by
    rw [List.length_cons]
    exact Nat.lt_succ_of_le (List.length_filter_le _ _)

end

namespace Registry

variable {α : Type} {r a b : Registry α} {key : String} {value : α}

/-! ## 2. Looking up -/

theorem lookup_cons (entry : String × α) (rest : List (String × α)) (key : String) :
    (entry :: rest).lookup key = if key = entry.1 then some entry.2 else rest.lookup key := by
  rw [List.lookup_cons]
  cases h : key == entry.1 with
  | true => rw [if_pos (beq_iff_eq.1 h)]
  | false => rw [if_neg (beq_eq_false_iff_ne.1 h)]

theorem lookup_eq_some_iff_mem {entries : List (String × α)} (h : (entries.map Prod.fst).Nodup) :
    entries.lookup key = some value ↔ (key, value) ∈ entries := by
  induction entries with
  | nil => simp
  | cons entry rest ih =>
    rw [List.map_cons, List.nodup_cons] at h
    rw [lookup_cons, List.mem_cons, Prod.ext_iff]
    by_cases hkey : key = entry.1
    · have hrest : (key, value) ∉ rest := fun hmem => h.1 (hkey ▸ List.mem_map_of_mem (f := Prod.fst) hmem)
      rw [if_pos hkey, Option.some.injEq, or_iff_left hrest, and_iff_right hkey, eq_comm]
    · simp [hkey, ih h.2]

theorem lookup_eq_of_perm {entries entries' : List (String × α)} (h : (entries.map Prod.fst).Nodup)
    (perm : entries.Perm entries') (key : String) : entries.lookup key = entries'.lookup key := by
  refine Option.ext fun value => ?_
  rw [lookup_eq_some_iff_mem h, lookup_eq_some_iff_mem ((perm.map Prod.fst).nodup h), perm.mem_iff]

theorem get?_eq_some_iff : r.get? key = some value ↔ (key, value) ∈ r.entries :=
  lookup_eq_some_iff_mem r.keys_nodup

theorem mem_keys_iff : key ∈ r.keys ↔ (r.get? key).isSome := by
  rw [Option.isSome_iff_exists, keys, List.mem_map]
  constructor
  · rintro ⟨⟨k, v⟩, hmem, rfl⟩
    exact ⟨v, get?_eq_some_iff.2 hmem⟩
  · rintro ⟨v, hv⟩
    exact ⟨_, get?_eq_some_iff.1 hv, rfl⟩

theorem get?_eq_none_iff : r.get? key = none ↔ key ∉ r.keys := by
  rw [mem_keys_iff, Option.not_isSome_iff_eq_none]

theorem map_some_entries (r : Registry α) :
    r.entries.map some = r.keys.map fun key => (r.get? key).map (Prod.mk key) := by
  rw [keys, List.map_map]
  refine List.map_congr_left fun entry hentry => ?_
  rw [Function.comp_apply, get?_eq_some_iff.2 hentry]
  rfl

/-- The order of the keys and the value of each decide a registry. -/
theorem ext_get? (hkeys : a.keys = b.keys) (hget : ∀ key, a.get? key = b.get? key) : a = b := by
  have hentries : a.entries = b.entries := by
    apply List.map_injective_iff.2 (Option.some_injective _)
    simp only [map_some_entries, hkeys, hget]
  cases a
  cases b
  congr

/-! ## 3. Putting in one pair -/

theorem keys_insert : (r.insert key value).keys = if key ∈ r.keys then r.keys else r.keys ++ [key] :=
  keys_place key value r.entries

theorem lookup_place (entries : List (String × α)) (k : String) :
    (place key value entries).lookup k = if k = key then some value else entries.lookup k := by
  induction entries with
  | nil => exact lookup_cons _ _ _
  | cons entry rest ih =>
    rw [place]
    by_cases hentry : entry.1 = key
    · rw [if_pos hentry, lookup_cons, lookup_cons, hentry]
      split_ifs <;> rfl
    · rw [if_neg hentry, lookup_cons, lookup_cons, ih]
      split_ifs with hk hkey
      · exact absurd (hk.symm.trans hkey) hentry
      all_goals rfl

theorem get?_insert (k : String) : (r.insert key value).get? k = if k = key then some value else r.get? k :=
  lookup_place r.entries k

/-! ## 4. Putting in several pairs -/

/-- The registry after the pairs were put in one by one. -/
def insertAll (r : Registry α) (pairs : List (String × α)) : Registry α :=
  pairs.foldl (fun r pair => r.insert pair.1 pair.2) r

theorem ofList_eq (pairs : List (String × α)) : ofList pairs = empty.insertAll pairs := rfl

theorem insertAll_append (r : Registry α) (pairs more : List (String × α)) :
    r.insertAll (pairs ++ more) = (r.insertAll pairs).insertAll more := List.foldl_append

-- New keys come behind those that are there, each where it first comes.
theorem keys_insertAll (r : Registry α) (pairs : List (String × α)) :
    (r.insertAll pairs).keys = r.keys ++ ((pairs.map Prod.fst).filter (· ∉ r.keys)).eraseDups := by
  induction pairs generalizing r with
  | nil => simp [insertAll]
  | cons pair rest ih =>
    have hih := ih (r.insert pair.1 pair.2)
    rw [keys_insert] at hih
    refine hih.trans ?_
    rw [List.map_cons, List.filter_cons]
    by_cases hkey : pair.1 ∈ r.keys
    · simp [hkey]
    · -- the key is there from now on, and comes no more
      have hnew : ∀ k, decide (k ∉ r.keys ++ [pair.1]) = (!k == pair.1 && decide (k ∉ r.keys)) := by
        intro k
        by_cases hk : k = pair.1 <;> simp [hk]
      rw [if_neg hkey, if_pos (decide_eq_true hkey), List.eraseDups_cons, List.append_assoc, List.singleton_append,
        List.filter_filter]
      simp only [hnew]

-- Of the values that a key was given the last one counts.
theorem get?_insertAll (r : Registry α) (pairs : List (String × α)) (key : String) :
    (r.insertAll pairs).get? key = (pairs.reverse.lookup key).or (r.get? key) := by
  induction pairs generalizing r with
  | nil => rfl
  | cons pair rest ih =>
    have hih := ih (r.insert pair.1 pair.2)
    rw [get?_insert] at hih
    refine hih.trans ?_
    rw [List.reverse_cons, List.lookup_append, lookup_cons, Option.or_assoc]
    by_cases hkey : key = pair.1 <;> simp [hkey]

theorem keys_ofList (pairs : List (String × α)) : (ofList pairs).keys = (pairs.map Prod.fst).eraseDups := by
  have hall : (pairs.map Prod.fst).filter (· ∉ (empty : Registry α).keys) = pairs.map Prod.fst :=
    List.filter_eq_self.2 fun _ _ => rfl
  rw [ofList_eq, keys_insertAll, hall]
  rfl

theorem get?_ofList (pairs : List (String × α)) (key : String) :
    (ofList pairs).get? key = pairs.reverse.lookup key := by
  rw [ofList_eq, get?_insertAll]
  exact Option.or_none

theorem lookup_reverse_entries (r : Registry α) (key : String) : r.entries.reverse.lookup key = r.get? key :=
  (lookup_eq_of_perm r.keys_nodup (List.reverse_perm _).symm key).symm

theorem ofList_entries (r : Registry α) : ofList r.entries = r := by
  refine ext_get? ?_ fun key => ?_
  · rw [keys_ofList]
    exact eraseDups_of_nodup r.keys_nodup
  · rw [get?_ofList, lookup_reverse_entries]

-- Whether pairs are put in one by one or made a registry before makes no difference.
theorem insertAll_ofList (r : Registry α) (pairs : List (String × α)) :
    r.insertAll (ofList pairs).entries = r.insertAll pairs := by
  refine ext_get? ?_ fun key => ?_
  · have hkeys : ((pairs.map Prod.fst).filter (· ∉ r.keys)).eraseDups = (ofList pairs).keys.filter (· ∉ r.keys) := by
      rw [keys_ofList, filter_eraseDups]
    rw [keys_insertAll, keys_insertAll, hkeys]
    exact congrArg (r.keys ++ ·) (eraseDups_of_nodup ((ofList pairs).keys_nodup.filter _))
  · rw [get?_insertAll, get?_insertAll, lookup_reverse_entries, get?_ofList]

/-! ## 5. Unions -/

theorem extend_eq (r : Registry α) (pairs : List (String × α)) : r.extend pairs = r.insertAll pairs := by
  rw [extend, ofList_eq, insertAll_append, ← ofList_eq, ofList_entries]

theorem union_eq (a b : Registry α) : a.union b = a.insertAll b.entries := extend_eq a b.entries

theorem overlay_eq (a b : Registry α) : a.overlay b = a.union b := (union_eq a b).symm

theorem get?_union (a b : Registry α) (key : String) : (a.union b).get? key = (b.get? key).or (a.get? key) := by
  rw [union_eq, get?_insertAll, lookup_reverse_entries]

theorem keys_union (a b : Registry α) : (a.union b).keys = a.keys ++ b.keys.filter (· ∉ a.keys) := by
  rw [union_eq, keys_insertAll]
  exact congrArg (a.keys ++ ·) (eraseDups_of_nodup (b.keys_nodup.filter _))

theorem union_ofList (r : Registry α) (pairs : List (String × α)) : r.union (ofList pairs) = r.extend pairs := by
  rw [union_eq, extend_eq, insertAll_ofList]

theorem union_assoc (a b c : Registry α) : (a.union b).union c = a.union (b.union c) := by
  have hpairs : b.union c = ofList (b.entries ++ c.entries) := rfl
  rw [hpairs, union_eq _ c, union_eq a b, ← insertAll_append, union_eq, insertAll_ofList]

theorem union_empty (a : Registry α) : a.union empty = a := union_eq a empty

theorem empty_union (a : Registry α) : empty.union a = a := by
  rw [union_eq]
  exact ofList_entries a

theorem union_self (a : Registry α) : a.union a = a := by
  refine ext_get? ?_ fun key => ?_
  · rw [keys_union, List.filter_eq_nil_iff.2 (by simp), List.append_nil]
  · rw [get?_union, Option.or_self]

theorem perform_index [Hashing] (r : Registry Value) (key : String) :
    (r.perform (.index key)).1 =
      (r.get? key).elim (.error (.missingKey key)) fun value => .ok (.value value) := by
  rw [perform]
  cases r.get? key <;> rfl

/-- The union is a merge in which the second table wins.  A key has the value that the second one gives it or
else that of the first, and is missing if neither has it.  The keys are those of the first and then the new ones of
the second, each in its order.  Unions may be grouped in any way, and neither the table without keys nor a registry
itself adds anything to it.  The second table may be plain pairs as well as the registry of these.  So may the first;
the registry that such pairs are united with stays the current one, as it is. -/
theorem union_merges [Hashing] (a b c : Registry Value) (pairs : List (String × Value)) :
    (∀ key, ((a.union b).perform (.index key)).1 =
      if key ∈ b.keys then (b.perform (.index key)).1 else (a.perform (.index key)).1) ∧
    (∀ key, ((a.union b).perform (.index key)).1 = .error (.missingKey key) ↔ key ∉ a.keys ∧ key ∉ b.keys) ∧
    (a.union b).keys = a.keys ++ b.keys.filter (· ∉ a.keys) ∧ (a.union b).keys.Nodup ∧
    (a.union b).union c = a.union (b.union c) ∧
    a.union empty = a ∧ empty.union a = a ∧ a.union a = a ∧
    a.perform (.union (.registry b)) = (.ok .replaced, a.union b) ∧
    a.perform (.union (.pairs pairs)) = a.perform (.union (.registry (ofList pairs))) ∧
    b.perform (.unionOnto pairs) = (.ok (.pairs ((ofList pairs).union b).entries), b) := by
  refine ⟨fun key => ?_, fun key => ?_, keys_union a b, (a.union b).keys_nodup, union_assoc a b c, union_empty a,
    empty_union a, union_self a, rfl, ?_, ?_⟩
  · rw [perform_index, perform_index, perform_index, get?_union]
    split_ifs with hkey
    · rw [Option.or_of_isSome (mem_keys_iff.1 hkey)]
    · rw [get?_eq_none_iff.2 hkey, Option.none_or]
  · rw [perform_index, get?_union, ← get?_eq_none_iff, ← get?_eq_none_iff]
    cases a.get? key <;> cases b.get? key <;> simp
  · exact congrArg (Prod.mk _) (union_ofList a pairs).symm
  · rw [perform, overlay_eq]

example : ((ofList [("+", 2), ("-", 2)]).union (ofList [("^", 4), ("+", 3)])).entries =
    [("+", 3), ("-", 2), ("^", 4)] := by
  decide

end Registry

end ReversePolish
