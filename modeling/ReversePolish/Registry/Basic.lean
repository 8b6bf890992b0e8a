import ReversePolish.Value

/-!
# Registry — a read-only table that remembers the order of its keys

Each key stands once, where it first came in, with the value that came last.  A registry is never changed;
the union of two is a third, in which the values of the second win.
-/

namespace ReversePolish

/-- A table from strings: no key stands twice. -/
structure Registry (α : Type) where
  entries : List (String × α)
  keys_nodup : (entries.map Prod.fst).Nodup

namespace Registry

variable {α : Type}

/-! ## 1. Placing one entry -/

/-- Gives `key` the value `value`: in its old place if there is one, else at the end. -/
def place (key : String) (value : α) : List (String × α) → List (String × α)
  | [] => [(key, value)]
  | entry :: rest =>
    if entry.1 = key then (key, value) :: rest else entry :: place key value rest

theorem keys_place (key : String) (value : α) (entries : List (String × α)) :
    (place key value entries).map Prod.fst =
      if key ∈ entries.map Prod.fst then entries.map Prod.fst else entries.map Prod.fst ++ [key] := by
  induction entries with
  | nil => simp [place]
  | cons entry rest ih =>
    by_cases h : entry.1 = key
    · simp [place, h]
    · have h' : ¬ key = entry.1 := fun e => h e.symm
      rw [place, if_neg h, List.map_cons, ih]
      by_cases hr : key ∈ rest.map Prod.fst
      · simp [hr]
      · rw [if_neg hr, if_neg (by simp [h', hr])]
        rfl

theorem nodup_keys_place {key : String} {value : α} {entries : List (String × α)}
    (h : (entries.map Prod.fst).Nodup) : ((place key value entries).map Prod.fst).Nodup := by
  rw [keys_place]
  split
  · exact h
  · rename_i hk
    rw [List.nodup_append]
    refine ⟨h, by simp, ?_⟩
    intro a ha b hb e
    simp only [List.mem_singleton] at hb
    exact hk (hb ▸ e ▸ ha)

/-! ## 2. Building -/

def empty : Registry α := ⟨[], List.nodup_nil⟩

def insert (r : Registry α) (key : String) (value : α) : Registry α :=
  ⟨place key value r.entries, nodup_keys_place r.keys_nodup⟩

/-- The registry of a list of pairs: a repeated key keeps its first place and takes its last value. -/
def ofList (pairs : List (String × α)) : Registry α :=
  pairs.foldl (fun r pair => r.insert pair.1 pair.2) empty

def extend (r : Registry α) (pairs : List (String × α)) : Registry α :=
  ofList (r.entries ++ pairs)

/-- The registry of the entries of `a` and then those of `b`. -/
def union (a b : Registry α) : Registry α :=
  a.extend b.entries

/-- The registry `a` after the entries of `b` were put into it one by one. -/
def overlay (a b : Registry α) : Registry α :=
  b.entries.foldl (fun r pair => r.insert pair.1 pair.2) a

/-! ## 3. Looking up -/

def keys (r : Registry α) : List String := r.entries.map Prod.fst

def size (r : Registry α) : Nat := r.entries.length

def get? (r : Registry α) (key : String) : Option α := r.entries.lookup key

def contains (r : Registry α) (key : String) : Bool := (r.get? key).isSome

/-! ## 4. Registries of values -/

/-- Whether two registries have the same keys, in any order, with the same values. -/
def same (a b : Registry Value) : Bool :=
  a.size == b.size && a.entries.all fun entry => (b.get? entry.1).any (Value.same entry.2)

def display (r : Registry Value) : String :=
  "FrozenDict(\x7b" ++
    ", ".intercalate (r.entries.map fun entry => Text.quoted entry.1 ++ ": " ++ entry.2.display) ++ "\x7d)"

end Registry

end ReversePolish
