/-
# CimBroker.Proofs.FieldTables — tables whose places do not meddle with each other

A record type is described by lenses, and a description is worth something only if the lenses are
what they pretend to be: what is put at a place is seen there, and nowhere else.  `Built` says that
a table was made step by step from places of that kind, each with nothing in common with the places
before it; a part of a record counts as one place, and brings the places inside it along.

In such a table every place shows what was put there, and no two of them overlap (`Orderly`).  That
is all that is needed to follow a record through a row of puts.

`FieldTable.Built` has the tables that are made with `path`, `className`, `property` and `embed`
from lenses that are `Lens.Apart`, and `FieldTable.Built.orderly` shows that all of these are
orderly.  That the names of the fields differ is not part of it.
-/
import CimBroker.Record.FieldTable

namespace CimBroker

variable {R E α β γ : Type}

/-! ## Places -/

namespace Lens

/-- The place shows what was put there. -/
def Keeps (p : Lens R α) : Prop := ∀ x r, p.view (p.put x r) = x

/-- What is put at one of the places does not show at the other. -/
structure Apart (p : Lens R α) (q : Lens R β) : Prop where
  left : ∀ x r, q.view (p.put x r) = q.view r
  right : ∀ y r, p.view (q.put y r) = p.view r

theorem Apart.symm {p : Lens R α} {q : Lens R β} (h : p.Apart q) : q.Apart p := ⟨h.right, h.left⟩

theorem Keeps.comp {p : Lens R E} {q : Lens E α} (hp : p.Keeps) (hq : q.Keeps) :
    (p.comp q).Keeps := by
  intro x r
  show q.view (p.view (p.put (q.put x (p.view r)) r)) = x
  rw [hp, hq]

/-- A place inside a part has nothing in common with what the part has nothing in common with. -/
theorem Apart.comp {p : Lens R α} {q : Lens R E} (h : p.Apart q) (inner : Lens E β) :
    p.Apart (q.comp inner) where
  left x r := congrArg inner.view (h.left x r)
  right _ r := h.right _ r

/-- Places apart inside a part are apart in the whole. -/
theorem Apart.within {p : Lens E α} {q : Lens E β} (h : p.Apart q) {outer : Lens R E}
    (houter : outer.Keeps) : (outer.comp p).Apart (outer.comp q) where
  left x r := by
    show q.view (outer.view (outer.put (p.put x (outer.view r)) r)) = q.view (outer.view r)
    rw [houter, h.left]
  right y r := by
    show p.view (outer.view (outer.put (q.put y (outer.view r)) r)) = p.view (outer.view r)
    rw [houter, h.right]

end Lens

/-- A place in a record, for values of some type. -/
abbrev Place (R : Type) : Type 1 := (α : Type) × Lens R α

/-- The place inside a part of a record. -/
def Place.within (outer : Lens R E) (p : Place E) : Place R := ⟨p.1, outer.comp p.2⟩

namespace FieldTable

/-- The places of a table: those of its fields, and those of its identities. -/
def fieldPlaces (t : FieldTable R) : List (Place R) := t.fields.map fun f => ⟨_, f.place⟩

def identityPlaces (t : FieldTable R) : List (Place R) := t.identities.map fun i => ⟨_, i.place⟩

/-- Every place shows what was put there, and no two of them overlap. -/
structure Orderly (t : FieldTable R) : Prop where
  keeps : ∀ p ∈ t.fieldPlaces ++ t.identityPlaces, p.2.Keeps
  apart : (t.fieldPlaces ++ t.identityPlaces).Pairwise fun p q => p.2.Apart q.2

/-- The table was built with `path`, `className`, `property` and `embed`, from places that keep what
is put there and have nothing in common with the places that came before. -/
inductive Built : {R : Type} → FieldTable R → Prop
  | empty {R : Type} : Built (R := R) .empty
  | path {R : Type} {t : FieldTable R} (h : Built t) (label : String) {place : Lens R String}
      (hkeeps : place.Keeps) (hapart : ∀ p ∈ t.fieldPlaces ++ t.identityPlaces, p.2.Apart place) :
      Built (t.path label place)
  | className {R : Type} {t : FieldTable R} (h : Built t) (label : String) {place : Lens R String}
      (hkeeps : place.Keeps) (hapart : ∀ p ∈ t.fieldPlaces ++ t.identityPlaces, p.2.Apart place) :
      Built (t.className label place)
  | property {R : Type} {t : FieldTable R} (h : Built t) (name label : String) {type : DataType}
      {place : Lens R type.Value} (hkeeps : place.Keeps)
      (hapart : ∀ p ∈ t.fieldPlaces ++ t.identityPlaces, p.2.Apart place) :
      Built (t.property name label type place)
  | embed {R E : Type} {t : FieldTable R} (h : Built t) (label : String) {inner : FieldTable E}
      (hinner : Built inner) {place : Lens R E} (hkeeps : place.Keeps)
      (hapart : ∀ p ∈ t.fieldPlaces ++ t.identityPlaces, p.2.Apart place) :
      Built (t.embed label inner place)

variable {t u : FieldTable R}

/-- Two orderly tables make one, if no place of the first overlaps with one of the second. -/
theorem Orderly.append (ht : t.Orderly) (hu : u.Orderly)
    (h : ∀ p ∈ t.fieldPlaces ++ t.identityPlaces, ∀ q ∈ u.fieldPlaces ++ u.identityPlaces,
      p.2.Apart q.2) :
    Orderly (R := R) ⟨t.fields ++ u.fields, t.identities ++ u.identities⟩ := by
  -- being apart does not depend on the order, so the places may be sorted by table
  have hperm : ((t.fieldPlaces ++ u.fieldPlaces) ++ (t.identityPlaces ++ u.identityPlaces)).Perm
      ((t.fieldPlaces ++ t.identityPlaces) ++ (u.fieldPlaces ++ u.identityPlaces)) := by
    simp only [List.append_assoc]
    refine List.Perm.append_left _ ?_
    rw [← List.append_assoc, ← List.append_assoc]
    exact List.Perm.append_right _ List.perm_append_comm
  have hplaces : fieldPlaces (R := R) ⟨t.fields ++ u.fields, t.identities ++ u.identities⟩ ++
      identityPlaces (R := R) ⟨t.fields ++ u.fields, t.identities ++ u.identities⟩ =
      (t.fieldPlaces ++ u.fieldPlaces) ++ (t.identityPlaces ++ u.identityPlaces) := by
    simp only [fieldPlaces, identityPlaces, List.map_append]
  constructor
  · intro p hp
    rw [hplaces, hperm.mem_iff, List.mem_append] at hp
    exact hp.elim (ht.keeps p) (hu.keeps p)
  · rw [hplaces, hperm.pairwise_iff fun hpq => hpq.symm]
    exact List.pairwise_append.mpr ⟨ht.apart, hu.apart, h⟩

/-- A table with one place that keeps what is put there. -/
theorem orderly_single {p : Place R} (hp : p.2.Keeps)
    (hplaces : u.fieldPlaces ++ u.identityPlaces = [p]) : u.Orderly where
  keeps := by
    rw [hplaces]
    exact List.forall_mem_singleton.mpr hp
  apart := by
    rw [hplaces]
    exact List.pairwise_singleton _ _

/-- The places of an embedded table are those of the table, inside the part. -/
theorem places_embed (label : String) (inner : FieldTable E) (place : Lens R E) :
    fieldPlaces ⟨inner.fields.map (Field.embed label place),
        inner.identities.map (Identity.embed label place)⟩ ++
      identityPlaces ⟨inner.fields.map (Field.embed label place),
        inner.identities.map (Identity.embed label place)⟩ =
      (inner.fieldPlaces ++ inner.identityPlaces).map (Place.within place) := by
  simp only [fieldPlaces, identityPlaces, List.map_append, List.map_map]
  rfl

/-- An orderly table is orderly inside a part. -/
theorem Orderly.embed {inner : FieldTable E} (h : inner.Orderly) (label : String)
    {place : Lens R E} (hplace : place.Keeps) :
    Orderly ⟨inner.fields.map (Field.embed label place),
      inner.identities.map (Identity.embed label place)⟩ where
  keeps := by
    rw [places_embed]
    intro p hp
    obtain ⟨q, hq, rfl⟩ := List.mem_map.mp hp
    exact hplace.comp (h.keeps q hq)
  apart := by
    rw [places_embed, List.pairwise_map]
    exact h.apart.imp fun hpq => hpq.within hplace

/-- **What is `Built` is `Orderly`.** -/
theorem Built.orderly {R : Type} {t : FieldTable R} (h : t.Built) : t.Orderly := by
  induction h with
  | empty => exact ⟨List.forall_mem_nil _, List.Pairwise.nil⟩
  | path h label hkeeps hapart ih =>
    simpa [FieldTable.path] using ih.append (orderly_single (u := ⟨[], [_]⟩) hkeeps rfl)
      fun p hp q hq => List.mem_singleton.mp hq ▸ hapart p hp
  | className h label hkeeps hapart ih =>
    simpa [FieldTable.className] using ih.append (orderly_single (u := ⟨[], [_]⟩) hkeeps rfl)
      fun p hp q hq => List.mem_singleton.mp hq ▸ hapart p hp
  | property h name label hkeeps hapart ih =>
    simpa [FieldTable.property] using ih.append (orderly_single (u := ⟨[_], []⟩) hkeeps rfl)
      fun p hp q hq => List.mem_singleton.mp hq ▸ hapart p hp
  | embed h label hinner hkeeps hapart ih ihInner =>
    refine ih.append (ihInner.embed label hkeeps) fun p hp q hq => ?_
    rw [places_embed] at hq
    obtain ⟨q', hq', rfl⟩ := List.mem_map.mp hq
    exact (hapart p hp).comp q'.2

end FieldTable
end CimBroker
