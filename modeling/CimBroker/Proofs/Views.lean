/-
# CimBroker.Proofs.Views — what is seen through a handle

An object behind a handle has its own values from the moment it was handed out.  Fetching, spawning,
cloning and querying hand out new objects; setting, queueing, removing and defining classes change
the store; none of this can be seen through a handle that is there already.  What changes the view
is a write through the handle itself, in the one property that it names, and only if it succeeds.
In the other direction a write never reaches the store, and one that is refused does nothing at all.

`view_changes_by_own_writes` collects this, and `view_outlasts_store` is a handle that shows what is
stored no more.  The view is that of one object, as `Broker.shown` has it.  An object that is
embedded in it has a handle, and so a view, of its own; what becomes of the two together is the
matter of `CimBroker.Proofs.Sharing`.
-/
import CimBroker.Proofs.StoreDeeds

namespace CimBroker

/-- The bag with another value under a name. -/
def PropertyBag.having (bag : PropertyBag) (name : String) (v : Variant) : PropertyBag :=
  ⟨bag.properties.map fun p => if p.name = name then { p with value := v } else p⟩

namespace Broker

open CimBroker.Action

/-- What looking at all properties of an object shows. -/
def shown (b : Broker) (h : Handle) : Except Error PropertyBag := ((properties h).run b).1

/-- The deed is a write through the handle, under the name, that succeeds. -/
def Deed.Puts (b : Broker) (h : Handle) (name : String) (d : Deed) : Prop :=
  ∃ v, d = .request (.put h name v) ∧ ((put h name v).run b).1 = .ok ()

variable {b : Broker} {h : Handle} {o : LiveObject}

theorem shown_of_live (ho : b.live[h.id]? = some o) : shown b h = .ok o.bag := by
  have hrun : (properties h).run b = (.ok o.bag, b) := by
    unfold properties
    rw [run_bind_of_ok (liveObject_eq_ok.mpr ⟨ho, rfl⟩)]
    rfl
  rw [shown, hrun]

/-- A write shows in the bag under its name. -/
theorem bag_set {name : String} (hown : isSystemName name = false) (v : Variant) :
    LiveObject.bag { o with values := o.values.set name v } = o.bag.having name v := by
  have hclass : classProperty ≠ name := by
    rintro rfl
    exact absurd hown (by decide)
  have hpath : pathProperty ≠ name := by
    rintro rfl
    exact absurd hown (by decide)
  unfold LiveObject.bag PropertyBag.having
  rw [List.map_append, List.map_cons, List.map_cons, List.map_nil, if_neg hclass, if_neg hpath,
    List.map_map]
  congr 2
  refine List.map_congr_left fun p _ => ?_
  show Property.mk p.1 (((o.values.set name v).get? p.1).getD .null) p.2 = _
  rw [Table.get?_set]
  by_cases hname : p.1 = name
  · simp [hname]
  · simp [hname, Ne.symm hname, LiveObject.value]

/-! ## One deed -/

/-- **Nothing but a write through the handle** changes the object behind it. -/
theorem live_after (ho : b.live[h.id]? = some o) {d : Deed} (hd : ∀ name, ¬ d.Puts b h name) :
    (d.after b).live[h.id]? = some o := by
  by_cases hwrite : ∃ h' name v, d = .request (.put h' name v) ∧
      ((put h' name v).run b).1 = .ok ()
  · obtain ⟨h', name, v, rfl, hok⟩ := hwrite
    obtain ⟨o', v', -, hw⟩ := written_of_put (Prod.ext hok rfl)
    -- a write changes the object that it is for, and that is another one
    refine hw.others h.id o (fun heq => hd name ⟨v, ?_, ?_⟩) ho
    · rw [show h = h' from congrArg Handle.mk heq]
    · rw [show h = h' from congrArg Handle.mk heq]
      exact hok
  · have hgrows : Grows (fun _ => True) b (d.after b) :=
      (Grows.refl fun _ _ => trivial).deed (fun _ _ => trivial) (fun _ _ => trivial)
        fun h' name v heq hok => hwrite ⟨h', name, v, heq, hok⟩
    exact hgrows.live _ o ho

/-- The object behind a handle is the one that it was, and only values under names that meet a
condition may differ. -/
structure Resembles (names : String → Prop) (o o' : LiveObject) : Prop where
  definition : o'.definition = o.definition
  path : o'.path = o.path
  isClass : o'.isClass = o.isClass
  value : ∀ name, ¬ names name → o'.value name = o.value name

theorem Resembles.trans {names : String → Prop} {o o' o'' : LiveObject}
    (h : Resembles names o o') (h' : Resembles names o' o'') : Resembles names o o'' :=
  ⟨h'.definition.trans h.definition, h'.path.trans h.path, h'.isClass.trans h.isClass,
    fun name hname => (h'.value name hname).trans (h.value name hname)⟩

theorem Resembles.mono {names names' : String → Prop} {o o' : LiveObject}
    (h : Resembles names o o') (hnames : ∀ name, names name → names' name) :
    Resembles names' o o' :=
  ⟨h.definition, h.path, h.isClass, fun name hname => h.value name (mt (hnames name) hname)⟩

/-- Where no name meets the condition, the same is shown. -/
theorem Resembles.bag_eq {names : String → Prop} {o o' : LiveObject} (h : Resembles names o o')
    (hnames : ∀ name, ¬ names name) : o'.bag = o.bag := by
  unfold LiveObject.bag
  rw [h.definition, h.path]
  congr 2
  exact List.map_congr_left fun p _ => congrArg (Property.mk p.1 · p.2) (h.value _ (hnames p.1))

/-- After any deed the object is there, and has changed at most where the deed is a write. -/
theorem resembles_after (ho : b.live[h.id]? = some o) (d : Deed) :
    ∃ o', (d.after b).live[h.id]? = some o' ∧ Resembles (d.Puts b h) o o' := by
  by_cases hwrite : ∃ name, d.Puts b h name
  · obtain ⟨name, v, rfl, hok⟩ := hwrite
    obtain ⟨o', v', ho', hw⟩ := written_of_put (Prod.ext hok rfl)
    obtain rfl := Option.some.inj (ho.symm.trans ho')
    refine ⟨_, hw.there, rfl, rfl, rfl, fun other hother => ?_⟩
    have hne : name ≠ other := by
      rintro rfl
      exact hother ⟨v, rfl, hok⟩
    show ((o.values.set name v').get? other).getD .null = _
    rw [Table.get?_set, if_neg hne]
    rfl
  · exact ⟨o, live_after ho fun name hname => hwrite ⟨name, hname⟩, rfl, rfl, rfl, fun _ _ => rfl⟩

/-! ## Runs -/

/-- After any run the object is there, and has changed at most where a deed of the run was a
write. -/
theorem resembles_course (ho : b.live[h.id]? = some o) (deeds : List Deed) :
    ∃ o', (course b deeds).live[h.id]? = some o' ∧
      Resembles (fun name => Happens (fun b d => d.Puts b h name) b deeds) o o' := by
  induction deeds generalizing b o with
  | nil => exact ⟨o, ho, rfl, rfl, rfl, fun _ _ => rfl⟩
  | cons d deeds ih =>
    obtain ⟨between, hbetween, hfirst⟩ := resembles_after ho d
    obtain ⟨o', ho', hrest⟩ := ih hbetween
    refine ⟨o', ho', (hfirst.mono fun name hputs => ?_).trans (hrest.mono fun name hputs => ?_)⟩
    · exact Happens.cons_iff.mpr (.inl hputs)
    · exact Happens.cons_iff.mpr (.inr hputs)

/-- **What a handle shows changes by writes through it, and by nothing else.** After any run
(`course`) the object behind a handle is the one that it was (`Resembles`), and a property whose
value is another was written through this handle, with success, in the course of the run
(`Deed.Puts`).  Such a write shows in the one property that it names (`PropertyBag.having`).
Whatever the handle, a write leaves the store as it is, and one that is refused, since the name is
the system's or the definition does not admit the value (`ClassDef.Admits`), leaves everything that
is stored or live as it is. -/
theorem view_changes_by_own_writes (ho : b.live[h.id]? = some o) :
    (∀ deeds, ∃ o', shown (course b deeds) h = .ok o'.bag ∧
      Resembles (fun name => Happens (fun b d => d.Puts b h name) b deeds) o o') ∧
    (∀ name v b', (put h name v).run b = (.ok (), b') →
      ∃ v', Kept b b' v v' ∧ shown b' h = .ok (o.bag.having name v')) ∧
    (∀ h' name v outcome b', (put h' name v).run b = (outcome, b') →
      b'.classes = b.classes ∧ b'.objects = b.objects ∧ (outcome ≠ .ok () → b'.live = b.live)) ∧
    ∀ h' o' name v, b.live[h'.id]? = some o' →
      isSystemName name = true ∨ ¬ o'.definition.Admits name v →
      ((put h' name v).run b).1 ≠ .ok () := by
  refine ⟨fun deeds => ?_, fun name v b' hrun => ?_, fun h' name v outcome b' hrun => ?_,
    fun h' o' name v ho' hrefused hok => ?_⟩
  · obtain ⟨o', ho', hresembles⟩ := resembles_course ho deeds
    exact ⟨o', shown_of_live ho', hresembles⟩
  · obtain ⟨o', v', ho', hw⟩ := written_of_put hrun
    obtain rfl := Option.some.inj (ho.symm.trans ho')
    exact ⟨v', hw.kept, (shown_of_live hw.there).trans (congrArg _ (bag_set hw.own v'))⟩
  · by_cases hok : outcome = .ok ()
    · obtain ⟨_, _, -, hw⟩ := written_of_put (hok ▸ hrun)
      exact ⟨hw.classes, hw.objects, fun hne => absurd hok hne⟩
    · have hafter : b' = _ := (congrArg Prod.snd hrun).symm.trans
        (put_failed (hrun ▸ hok : ((put h' name v).run b).1 ≠ .ok ()))
      rw [hafter]
      exact ⟨rfl, rfl, fun _ => rfl⟩
  · obtain ⟨hown, ⟨o'', ho'', hadmits⟩, -⟩ := put_eq_ok_iff.mp hok
    obtain rfl := Option.some.inj (ho'.symm.trans ho'')
    rcases hrefused with hsystem | hmistyped
    · exact absurd (hown.symm.trans hsystem) Bool.false_ne_true
    · exact hmistyped hadmits

/-- A broker that has handed out an object. -/
def viewed : Broker :=
  course .empty [.request (.defineClass namedClass),
    .request (.insert "Widget" [("Name", .text "first")]),
    .request (.fetch (instancePath "Widget" 1))]

/-- What was handed out keeps its name, whatever becomes of the object in the store and of other
handles to it. -/
theorem view_outlasts_store :
    viewed.live[0]? = some ⟨namedClass, some (instancePath "Widget" 1), false,
      ⟨[("Name", .text "first")]⟩⟩ ∧
    shown (course viewed [.request (.setProperty (instancePath "Widget" 1) "Name" (.text "second")),
      .request (.schedule (instancePath "Widget" 1) "Name" (.text "third")),
      .request (.fetch (instancePath "Widget" 1)), .request (.clone ⟨0⟩),
      .request (.put ⟨1⟩ "Name" (.text "fourth")),
      .request (.defineClass (.ofProperties "Widget" [])),
      .request (.remove (instancePath "Widget" 1))]) ⟨0⟩ = shown viewed ⟨0⟩ := by
  have ho : viewed.live[(⟨0⟩ : Handle).id]? = some ⟨namedClass, some (instancePath "Widget" 1),
      false, ⟨[("Name", .text "first")]⟩⟩ := rfl
  refine ⟨ho, ?_⟩
  obtain ⟨o', hshown, hresembles⟩ := (view_changes_by_own_writes ho).1 _
  rw [hshown, shown_of_live ho, hresembles.bag_eq]
  -- the only write goes through another handle
  rintro name ⟨before, d, later, heq, v, rfl, -⟩
  have hmem := heq ▸ List.mem_append_right before (List.mem_cons_self (l := later))
  simp at hmem

end Broker
end CimBroker
