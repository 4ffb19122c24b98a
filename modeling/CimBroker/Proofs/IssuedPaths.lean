/-
# CimBroker.Proofs.IssuedPaths — storing an object never hits another

The path of a new object ends in a number that is printed in decimal behind the name of its class.
The number can be read off the path whatever the name is, and a broker counts on with every object
that it stores, so that no path is given out twice in a run, not even after its object was taken out
of the store (`insert_issues_new_path`).

`Broker.issued` lists the paths of a run, and `Broker.Stores.fresh` says that the next one is not
among them.  That numbers are given out by one broker alone is taken for granted: two brokers do
give out the same path.
-/
import CimBroker.Proofs.StoreChanges

namespace CimBroker

/-! ## Assigned values -/

namespace ClassDef

variable {c : ClassDef}

/-- Values are assigned exactly if all of them are admitted, and then one after the other. -/
theorem assign_eq_ok_iff {values after : Table Variant} {assignments : List (String × Variant)} :
    c.assign values assignments = .ok after ↔
      (∀ name v, (name, v) ∈ assignments → c.Admits name v) ∧
        assignments.foldl (fun t entry => t.set entry.1 entry.2) values = after := by
  induction assignments generalizing values with
  | nil => simp [assign]
  | cons assignment rest ih =>
    obtain ⟨name, v⟩ := assignment
    rw [assign, List.foldl_cons]
    cases hcheck : c.checkAssignable name v with
    | ok _ =>
      have hadmits : c.Admits name v := checkAssignable_eq_ok.mp hcheck
      simp only [ih, List.mem_cons, Prod.mk.injEq]
      constructor
      · rintro ⟨hrest, hafter⟩
        refine ⟨?_, hafter⟩
        rintro other w (⟨rfl, rfl⟩ | hmem)
        · exact hadmits
        · exact hrest other w hmem
      · rintro ⟨hall, hafter⟩
        exact ⟨fun other w hmem => hall other w (.inr hmem), hafter⟩
    | error e =>
      constructor
      · intro hassigned
        cases hassigned
      · rintro ⟨hall, -⟩
        have hok := checkAssignable_eq_ok.mpr (hall name v List.mem_cons_self)
        cases hcheck.symm.trans hok

end ClassDef

/-- The value that is given last under a name. -/
def lastGiven (name : String) (values : List (String × Variant)) : Option Variant :=
  (values.reverse.find? fun given => given.1 == name).map Prod.snd

namespace Broker

open CimBroker.Action

/-! ## Paths that were given out -/

/-- The paths that come back from storing objects in a row of deeds, in order. -/
def issued : Broker → List Deed → List String
  | _, [] => []
  | b, d :: deeds => (d.issued? b).toList ++ issued (d.after b) deeds

/-- The paths that come back are among those under which objects are stored. -/
theorem stores_issued (b : Broker) (deeds : List Deed) :
    ∃ paths, Stores paths b (course b deeds) ∧ paths.length ≤ deeds.countP Deed.isInsert ∧
      ∀ path ∈ issued b deeds, path ∈ paths := by
  induction deeds generalizing b with
  | nil => exact ⟨[], .refl b, Nat.le_refl 0, nofun⟩
  | cons d deeds ih =>
    obtain ⟨paths, hfirst, hone, hissued⟩ := d.stores b
    obtain ⟨more, hrest, hcount, hissuedRest⟩ := ih (d.after b)
    refine ⟨paths ++ more, hfirst.trans hrest, ?_, fun path hpath => ?_⟩
    · rw [List.length_append, List.countP_cons]
      cases hd : d.isInsert <;> simp only [hd, Bool.toNat_true, Bool.toNat_false] at hone <;>
        simp <;> omega
    · rcases List.mem_append.mp hpath with hnow | hlater
      · exact List.mem_append_left more (hissued path (Option.mem_toList.mp hnow))
      · exact List.mem_append_right paths (hissuedRest path hlater)

/-- The next path is none of those under which objects were stored so far. -/
theorem Stores.fresh {paths : List String} {b b' : Broker} (h : Stores paths b b')
    (className : String) : instancePath className (b'.lastId + 1) ∉ paths := by
  intro hmem
  have hnumber := List.mem_map_of_mem (f := pathNumber) hmem
  rw [pathNumber_instancePath, h.numbers, List.mem_range'_1, h.lastId_eq] at hnumber
  omega

/-! ## Storing -/

/-- An object was stored: it is the only one that is new or different, nothing waits in its queue,
and it holds what was given last under each name. -/
structure Inserted (className : String) (values : List (String × Variant)) (path : String)
    (b b' : Broker) : Prop where
  vacant : b.objects.get? path = none
  stored : ∃ o, b'.objects.get? path = some o ∧ o.className = className ∧ o.pending = [] ∧
    ∀ name, o.values.get? name = lastGiven name values
  others : ∀ other, other ≠ path → b'.objects.get? other = b.objects.get? other
  rest : b' = { b with lastId := b.lastId + 1, objects := b'.objects }

theorem Rooted.inserted {b : Broker} (h : b.Rooted) {className : String} {c : ClassDef}
    (hc : b.classes.get? className = some c) {values : List (String × Variant)}
    {stored : Table Variant} (hassign : c.assign .empty values = .ok stored) :
    Inserted className values (instancePath c.name (b.lastId + 1)) b
      { b with
        lastId := b.lastId + 1
        objects := b.objects.set (instancePath c.name (b.lastId + 1)) ⟨c.name, stored, []⟩ } := by
  refine ⟨h.fresh c.name, ⟨⟨c.name, stored, []⟩, ?_, h.named className c hc, rfl, fun name => ?_⟩,
    fun other hother => ?_, rfl⟩
  · rw [Table.get?_set, if_pos rfl]
  · obtain ⟨-, rfl⟩ := ClassDef.assign_eq_ok_iff.mp hassign
    show Table.get? _ name = _
    rw [Table.get?_foldl_set, Table.get?_empty, Option.or_none]
    rfl
  · rw [Table.get?_set, if_neg (Ne.symm hother)]

/-- Storing succeeds exactly if the class is there and admits every value. -/
theorem insert_isOk_iff (className : String) (values : List (String × Variant)) (b : Broker) :
    ((insert className values).run b).1.isOk = true ↔
      ∃ c, b.classes.get? className = some c ∧ ∀ name v, (name, v) ∈ values → c.Admits name v := by
  unfold insert classNamed
  cases hc : b.classes.get? className with
  | none => simp [run_bind, state, require, hc, Except.isOk, Except.toBool]
  | some c =>
    cases hassign : c.assign .empty values with
    | ok stored =>
      have hadmits := (ClassDef.assign_eq_ok_iff.mp hassign).1
      simpa [run_bind, state, require, hc, hassign, Except.isOk, Except.toBool] using hadmits
    | error e =>
      have hrefused : ¬ ∀ name v, (name, v) ∈ values → c.Admits name v := by
        intro hall
        cases hassign.symm.trans (ClassDef.assign_eq_ok_iff.mpr ⟨hall, rfl⟩)
      simpa [run_bind, state, require, hc, hassign, Except.isOk, Except.toBool] using hrefused

/-- **No path is given out twice.** After any run (`course`), each stored object belongs to a class
that is there, and no more objects have been numbered than the run was asked to store.  Storing
another (`insert`) either changes nothing, which is so exactly if the class is missing or does not
admit a value (`ClassDef.Admits`), or it yields a path that the run has not given out before
(`issued`), under which it adds one object, and it touches nothing else (`Inserted`). -/
theorem insert_issues_new_path (deeds : List Deed) (className : String)
    (values : List (String × Variant)) :
    let b := course .empty deeds
    (∀ path o, b.objects.get? path = some o → b.hasClass o.className = true) ∧
      b.lastId ≤ deeds.countP Deed.isInsert ∧
      (((insert className values).run b).1.isOk = true ↔
        ∃ c, b.classes.get? className = some c ∧
          ∀ name v, (name, v) ∈ values → c.Admits name v) ∧
      ((∃ e, (insert className values).run b = (.error e, b)) ∨
        ∃ path b', (insert className values).run b = (.ok path, b') ∧
          path ∉ issued .empty deeds ∧ Inserted className values path b b') := by
  intro b
  have hrooted : b.Rooted := rooted_course deeds
  obtain ⟨paths, hstores, hcount, hissued⟩ := stores_issued .empty deeds
  refine ⟨fun path o ho => ?_, ?_, insert_isOk_iff className values b, ?_⟩
  · obtain ⟨c, hc⟩ := hrooted.classed path o ho
    simp [hasClass, Table.contains, hc]
  · have hlast : b.lastId = 0 + paths.length := hstores.lastId_eq
    omega
  · rcases insert_cases className values b with hfails | ⟨c, stored, hc, hassign, hrun⟩
    · exact .inl hfails
    · refine .inr ⟨_, _, hrun, fun hmem => ?_, hrooted.inserted hc hassign⟩
      exact hstores.fresh c.name (hissued _ hmem)

end Broker

end CimBroker
