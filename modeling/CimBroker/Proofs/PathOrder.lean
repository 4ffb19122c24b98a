/-
# CimBroker.Proofs.PathOrder — the store lists its objects in path order

A table that is built up by setting and erasing names lists each name once, in ascending order
(`Table.Ordered`), so that its entries are exactly what is found under their names.  Deeds change
the store in these two ways only, one name at a time: whatever setting and erasing keep is kept by
every run of a broker (`Broker.Stores.objects`), and the order is one such thing.

`Table.Ordered.mem_entries_iff` is what the order is for, and `Broker.ordered_course` has it of the
store after every run.  The tables of classes and of values are ordered for the same reason, and
nothing needs it of them.
-/
import CimBroker.Proofs.StoreChanges
import Mathlib.Data.String.Basic

namespace CimBroker

/-! ## Ordered tables -/

namespace Table

variable {α : Type} {t : Table α} {name : String} {x : α}

/-- The names come in ascending order, and none of them twice. -/
def Ordered (t : Table α) : Prop := t.entries.Pairwise fun entry later => entry.1 < later.1

theorem ordered_empty : (empty : Table α).Ordered := List.Pairwise.nil

theorem mem_place {entries : List (String × α)} {entry : String × α}
    (h : entry ∈ place name x entries) : entry = (name, x) ∨ entry ∈ entries := by
  induction entries with
  | nil => exact .inl (List.mem_singleton.mp h)
  | cons first rest ih =>
    obtain ⟨key, old⟩ := first
    unfold place at h
    split at h
    · exact (List.mem_cons.mp h).imp_right (List.mem_cons_of_mem _)
    · split at h
      · exact List.mem_cons.mp h
      · rcases List.mem_cons.mp h with rfl | h
        · exact .inr List.mem_cons_self
        · exact (ih h).imp_right (List.mem_cons_of_mem _)

theorem pairwise_place {entries : List (String × α)}
    (h : entries.Pairwise fun entry later => entry.1 < later.1) :
    (place name x entries).Pairwise fun entry later => entry.1 < later.1 := by
  induction entries with
  | nil => exact List.pairwise_singleton _ _
  | cons first rest ih =>
    obtain ⟨key, old⟩ := first
    obtain ⟨hfirst, hrest⟩ := List.pairwise_cons.mp h
    unfold place
    split
    · next hkey =>
      subst hkey
      exact .cons hfirst hrest
    · next hkey =>
      split
      · next hearlier =>
        have hlt : name < key := of_decide_eq_true hearlier
        refine .cons (fun entry hentry => ?_) h
        rcases List.mem_cons.mp hentry with rfl | hentry
        · exact hlt
        · exact String.lt_trans hlt (hfirst entry hentry)
      · next hlater =>
        have hlt : key < name :=
          lt_of_le_of_ne (not_lt.mp fun hlt => hlater (decide_eq_true hlt)) hkey
        refine .cons (fun entry hentry => ?_) (ih hrest)
        rcases mem_place hentry with rfl | hentry
        · exact hlt
        · exact hfirst entry hentry

theorem Ordered.set (h : t.Ordered) (name : String) (x : α) : (t.set name x).Ordered :=
  pairwise_place h

theorem Ordered.erase (h : t.Ordered) (name : String) : (t.erase name).Ordered :=
  List.Pairwise.filter _ h

theorem mem_iff_lookup? {entries : List (String × α)}
    (h : entries.Pairwise fun entry later => entry.1 < later.1) :
    (name, x) ∈ entries ↔ lookup? name entries = some x := by
  induction entries with
  | nil => exact iff_of_false List.not_mem_nil nofun
  | cons first rest ih =>
    obtain ⟨key, y⟩ := first
    obtain ⟨hfirst, hrest⟩ := List.pairwise_cons.mp h
    rw [List.mem_cons, lookup?]
    split
    · next hkey =>
      -- the name does not come again
      subst hkey
      have honce : (key, x) ∉ rest := fun hmem => String.lt_irrefl key (hfirst _ hmem)
      rw [or_iff_left honce, Prod.mk.injEq, Option.some.injEq]
      exact ⟨fun heq => heq.2.symm, fun heq => ⟨rfl, heq.symm⟩⟩
    · next hkey =>
      rw [or_iff_right fun heq => hkey (congrArg Prod.fst heq).symm]
      exact ih hrest

/-- **The entries of an `Ordered` table are what is found under their names.** -/
theorem Ordered.mem_entries_iff (h : t.Ordered) : (name, x) ∈ t.entries ↔ t.get? name = some x :=
  mem_iff_lookup? h

end Table

/-! ## The store along a run -/

/-- **The store lists its objects in path order** (`Ordered`), each once, after any run. -/
theorem Broker.ordered_course (deeds : List Broker.Deed) :
    (Broker.course .empty deeds).objects.Ordered := by
  obtain ⟨paths, hstores⟩ := Broker.stores_course .empty deeds
  exact hstores.objects (fun _ path o h => h.set path o) (fun _ path h => h.erase path)
    Table.ordered_empty

end CimBroker
