/-
# CimBroker.Table — finite maps from names

A table holds at most one value under each name and lists its entries in ascending order of the
names, character by character.  Classes by name, objects by path, the values of an object by
property, and the pairs pushed to a guest are all kept in tables, so "in path order" and "sorted by
key" are facts about the representation.

The view of a table is `get?`: `get?_set` and `get?_erase` say what the two operations do to it.

`Table.get?_ofList` is the same for a table of given entries.  That entries are in order is not part
of the type: it is shown of the tables that setting and erasing build up, in
`CimBroker.Proofs.PathOrder`.
-/

namespace CimBroker

/-- Whether one name comes before another, character by character. -/
def earlier (a b : String) : Bool := decide (a < b)

/-- Values under names, in ascending order of the names. -/
structure Table (α : Type) where
  entries : List (String × α)
  deriving Repr, DecidableEq

namespace Table

variable {α β : Type}

/-- The table without entries. -/
def empty : Table α := ⟨[]⟩

instance : Inhabited (Table α) := ⟨empty⟩

/-- The value under a name in a list of entries. -/
def lookup? (name : String) : List (String × α) → Option α
  | [] => none
  | (key, value) :: rest => if key = name then some value else lookup? name rest

/-- The entries with `value` under `name`, put in its place by order. -/
def place (name : String) (value : α) : List (String × α) → List (String × α)
  | [] => [(name, value)]
  | (key, old) :: rest =>
    if key = name then (name, value) :: rest
    else if earlier name key then (name, value) :: (key, old) :: rest
    else (key, old) :: place name value rest

/-- The value under a name. -/
def get? (t : Table α) (name : String) : Option α := lookup? name t.entries

/-- Whether there is a value under a name. -/
def contains (t : Table α) (name : String) : Bool := (t.get? name).isSome

/-- The table with `value` under `name`, in place of any earlier value. -/
def set (t : Table α) (name : String) (value : α) : Table α := ⟨place name value t.entries⟩

/-- The table without a value under `name`. -/
def erase (t : Table α) (name : String) : Table α :=
  ⟨t.entries.filter fun entry => entry.1 != name⟩

/-- The table of a list of entries, of which a later one replaces an earlier one. -/
def ofList (entries : List (String × α)) : Table α :=
  entries.foldl (fun t entry => t.set entry.1 entry.2) empty

/-- The names, in ascending order. -/
def keys (t : Table α) : List String := t.entries.map Prod.fst

@[simp] theorem get?_empty (name : String) : (empty : Table α).get? name = none := rfl

theorem lookup?_place (name other : String) (value : α) (entries : List (String × α)) :
    lookup? other (place name value entries) =
      if name = other then some value else lookup? other entries := by
  induction entries with
  | nil => simp [place, lookup?]
  | cons entry rest ih =>
    obtain ⟨key, old⟩ := entry
    by_cases hk : key = name
    · subst hk
      by_cases ho : key = other <;> simp [place, lookup?, ho]
    · by_cases he : earlier name key = true <;> by_cases ho : name = other
      · subst ho
        simp [place, lookup?, hk, he]
      · simp [place, lookup?, hk, he, ho]
      · subst ho
        simp [place, lookup?, hk, he, ih]
      · simp [place, lookup?, hk, he, ih, ho]

/-- After setting a name, it holds the value that was set and every other name what it held. -/
theorem get?_set (t : Table α) (name other : String) (value : α) :
    (t.set name value).get? other = if name = other then some value else t.get? other :=
  lookup?_place name other value t.entries

theorem lookup?_filter_ne (name other : String) (entries : List (String × α)) :
    lookup? other (entries.filter fun entry => entry.1 != name) =
      if name = other then none else lookup? other entries := by
  induction entries with
  | nil => simp [lookup?]
  | cons entry rest ih =>
    obtain ⟨key, old⟩ := entry
    by_cases hk : key = name
    · subst hk
      by_cases ho : key = other <;> simp_all [lookup?]
    · by_cases ho : name = other
      · subst ho
        simp_all [lookup?]
      · simp_all [lookup?]

/-- After erasing a name, it holds nothing and every other name what it held. -/
theorem get?_erase (t : Table α) (name other : String) :
    (t.erase name).get? other = if name = other then none else t.get? other :=
  lookup?_filter_ne name other t.entries

/-- After setting names in a row, each holds what was set last. -/
theorem get?_foldl_set (entries : List (String × α)) (t : Table α) (name : String) :
    (entries.foldl (fun t entry => t.set entry.1 entry.2) t).get? name =
      ((entries.reverse.find? fun entry => entry.1 == name).map Prod.snd).or (t.get? name) := by
  induction entries generalizing t with
  | nil => rfl
  | cons entry entries ih =>
    rw [List.foldl_cons, ih, get?_set, List.reverse_cons, List.find?_append]
    by_cases heq : entry.1 = name <;>
      cases entries.reverse.find? fun entry => entry.1 == name <;> simp [heq]

/-- A table of entries has under a name what the last of them says. -/
theorem get?_ofList (entries : List (String × α)) (name : String) :
    (ofList entries).get? name =
      (entries.reverse.find? fun entry => entry.1 == name).map Prod.snd := by
  unfold ofList
  rw [get?_foldl_set, get?_empty, Option.or_none]

end Table

end CimBroker
