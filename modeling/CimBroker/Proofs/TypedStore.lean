/-
# CimBroker.Proofs.TypedStore — values stand where they are declared

A broker is *typed* when each value of a stored object stands under a name that the object's class
declares and is admitted by the declaration, and the same is true of every object behind a handle
and the definition that it carries.

Typed alone is not kept: a stored object carries changes to come, and a fetch applies them as they
are.  The invariant is `Sound`, which says the same of the changes that will be applied, and every
operation of the broker keeps it; queueing a change keeps it if the change is admitted.

Each operation has a lemma here (`kept_sound`, `insert_sound`, `schedule_sound`, `bring_sound` and
the others), and runs of them are taken together in `CimBroker.Proofs.BrokerRuns`.  Operations that
only read are covered by what they leave alone.
-/
import CimBroker.Broker.Connection
import CimBroker.Proofs.Conditions

namespace CimBroker

/-! ## Values and definitions -/

namespace ClassDef

variable {c : ClassDef}

/-- The class declares the name, and the declaration admits the value. -/
def Admits (c : ClassDef) (name : String) (v : Variant) : Prop :=
  ∃ t, c.declared? name = some t ∧ t.accepts v = true

theorem checkAssignable_eq_ok {name : String} {v : Variant} :
    c.checkAssignable name v = .ok () ↔ c.Admits name v := by
  unfold checkAssignable Admits
  cases c.declared? name with
  | none => simp
  | some t => cases h : t.accepts v <;> simp [h]

/-- Every value is admitted under its name. -/
def Types (c : ClassDef) (values : Table Variant) : Prop :=
  ∀ name v, values.get? name = some v → c.Admits name v

theorem Types.empty : c.Types .empty := by
  intro name v h
  cases h

theorem Types.set {values : Table Variant} (h : c.Types values) {name : String} {v : Variant}
    (hv : c.Admits name v) : c.Types (values.set name v) := by
  intro other w hw
  rw [Table.get?_set] at hw
  split at hw
  · rename_i hname
    cases hw
    rw [← hname]
    exact hv
  · exact h other w hw

/-- Assigned values are admitted, since each assignment is checked. -/
theorem Types.assign {values after : Table Variant} {assignments : List (String × Variant)}
    (h : c.Types values) (hafter : c.assign values assignments = .ok after) : c.Types after := by
  induction assignments generalizing values with
  | nil =>
    cases hafter
    exact h
  | cons assignment rest ih =>
    obtain ⟨name, v⟩ := assignment
    rw [ClassDef.assign] at hafter
    split at hafter
    · rename_i hcheck
      exact ih (h.set (checkAssignable_eq_ok.mp hcheck)) hafter
    · cases hafter

/-- What was assigned is admitted. -/
theorem admits_of_assign {values after : Table Variant} {assignments : List (String × Variant)}
    (hafter : c.assign values assignments = .ok after) {name : String} {v : Variant}
    (hmem : (name, v) ∈ assignments) : c.Admits name v := by
  induction assignments generalizing values with
  | nil => cases hmem
  | cons assignment rest ih =>
    obtain ⟨other, w⟩ := assignment
    rw [ClassDef.assign] at hafter
    split at hafter
    · rename_i hcheck
      rcases List.mem_cons.mp hmem with heq | hrest
      · cases heq
        exact checkAssignable_eq_ok.mp hcheck
      · exact ih hafter hrest
    · cases hafter

end ClassDef

namespace Broker

open CimBroker.Action

/-! ## The invariant -/

/-- Each value, stored or behind a handle, stands under a declared name and is accepted by its
declared type. -/
structure Typed (b : Broker) : Prop where
  stored : ∀ path o, b.objects.get? path = some o →
    ∃ c, b.classes.get? o.className = some c ∧ c.Types o.values
  live : ∀ o ∈ b.live, o.definition.Types o.values

/-- The object fits its class, and so do the changes that are still to be applied to it.  Nothing is
applied to an object whose path is also the name of a class, since it cannot be fetched. -/
def Fits (b : Broker) (path : String) (o : StoredObject) : Prop :=
  ∃ c, b.classes.get? o.className = some c ∧ c.Types o.values ∧
    (b.classes.get? path = none → ∀ change ∈ o.pending, c.Admits change.1 change.2)

/-- The invariant of the broker: classes are known by their own names, every stored object fits, and
every live object is typed. -/
structure Sound (b : Broker) : Prop where
  named : ∀ name c, b.classes.get? name = some c → c.name = name
  stored : ∀ path o, b.objects.get? path = some o → b.Fits path o
  live : ∀ o ∈ b.live, o.definition.Types o.values

theorem Sound.typed {b : Broker} (h : b.Sound) : b.Typed := by
  refine ⟨fun path o ho => ?_, h.live⟩
  obtain ⟨c, hc, htypes, -⟩ := h.stored path o ho
  exact ⟨c, hc, htypes⟩

theorem sound_empty : Broker.empty.Sound := by
  refine ⟨?_, ?_, ?_⟩
  · intro name c h
    cases h
  · intro path o h
    cases h
  · intro o h
    simp [Broker.empty] at h

namespace Sound

variable {b : Broker}

/-- Nothing but classes, stored objects and live objects matters. -/
theorem congr {b' : Broker} (h : b.Sound) (hclasses : b'.classes = b.classes)
    (hobjects : b'.objects = b.objects) (hlive : b'.live = b.live) : b'.Sound := by
  refine ⟨?_, ?_, ?_⟩
  · rw [hclasses]
    exact h.named
  · intro path o ho
    rw [hobjects] at ho
    unfold Fits
    rw [hclasses]
    exact h.stored path o ho
  · rw [hlive]
    exact h.live

/-- An object that fits may be put in its place. -/
theorem store (h : b.Sound) {path : String} {o : StoredObject} (ho : b.Fits path o) :
    Sound { b with objects := b.objects.set path o } := by
  refine ⟨h.named, ?_, h.live⟩
  intro other o' ho'
  rw [show ({ b with objects := b.objects.set path o } : Broker).objects = b.objects.set path o from
    rfl, Table.get?_set] at ho'
  split at ho'
  · rename_i hpath
    cases ho'
    rw [← hpath]
    exact ho
  · exact h.stored other o' ho'

theorem erase (h : b.Sound) (path : String) :
    Sound { b with objects := b.objects.erase path } := by
  refine ⟨h.named, ?_, h.live⟩
  intro other o ho
  rw [show ({ b with objects := b.objects.erase path } : Broker).objects = b.objects.erase path from
    rfl, Table.get?_erase] at ho
  split at ho
  · cases ho
  · exact h.stored other o ho

/-- A typed object may be handed out. -/
theorem push (h : b.Sound) {o : LiveObject} (ho : o.definition.Types o.values) :
    Sound { b with live := b.live.push o } := by
  refine ⟨h.named, h.stored, ?_⟩
  intro o' ho'
  rcases Array.mem_push.mp ho' with hmem | rfl
  · exact h.live o' hmem
  · exact ho

/-- The values of a live object may be replaced by typed ones. -/
theorem replace (h : b.Sound) {i : Nat} {o : LiveObject} {values : Table Variant}
    (ho : b.live[i]? = some o) (hvalues : o.definition.Types values) :
    Sound { b with live := b.live.modify i fun o => { o with values := values } } := by
  refine ⟨h.named, h.stored, ?_⟩
  intro o' ho'
  obtain ⟨j, hj⟩ := Array.mem_iff_getElem?.mp ho'
  rw [Array.getElem?_modify] at hj
  split at hj
  · rename_i hij
    subst hij
    rw [ho] at hj
    cases hj
    exact hvalues
  · exact h.live o' (Array.mem_of_getElem? hj)

/-- A class may be defined under a name that is free. -/
theorem define (h : b.Sound) {c : ClassDef} (hfree : b.classes.get? c.name = none) :
    Sound { b with classes := b.classes.set c.name c } := by
  -- what was defined before is defined as before
  have hkept : ∀ {name c'}, b.classes.get? name = some c' →
      (b.classes.set c.name c).get? name = some c' := by
    intro name c' hc'
    rw [Table.get?_set, if_neg, hc']
    rintro rfl
    rw [hfree] at hc'
    cases hc'
  refine ⟨?_, ?_, h.live⟩
  · intro name c' hc'
    rw [show ({ b with classes := b.classes.set c.name c } : Broker).classes =
      b.classes.set c.name c from rfl, Table.get?_set] at hc'
    split at hc'
    · rename_i hname
      cases hc'
      exact hname
    · exact h.named name c' hc'
  · intro path o ho
    obtain ⟨c', hc', htypes, hpending⟩ := h.stored path o ho
    refine ⟨c', hkept hc', htypes, fun hpath => hpending ?_⟩
    -- a path that no class is named after now was none before
    cases hbefore : b.classes.get? path with
    | none => rfl
    | some c'' =>
      rw [show ({ b with classes := b.classes.set c.name c } : Broker).classes =
        b.classes.set c.name c from rfl, hkept hbefore] at hpath
      cases hpath

end Sound

/-- The action keeps the invariant, whether it succeeds or fails. -/
abbrev KeepsSound {α : Type} (action : Action Broker α) : Prop :=
  Meets Sound action (fun _ => Sound) Sound

/-! ## Looking things up -/

theorem keepsSound_note (call : Call) : KeepsSound (note call) :=
  Meets.change fun _ h => h.congr rfl rfl rfl

section Lookups

variable {P E : Broker → Prop} (hE : ∀ b, P b → E b)
include hE

theorem classNamed_meets (name : String) :
    Meets P (classNamed name) (fun c b => P b ∧ b.classes.get? name = some c) E := by
  refine Meets.bind (Meets.state (P := P)) fun b => ?_
  refine Meets.require ?_ fun b' h => hE b' h.2
  rintro c b' hc ⟨rfl, h⟩
  exact ⟨h, hc⟩

theorem liveObject_meets (h : Handle) :
    Meets P (liveObject h) (fun o b => P b ∧ b.live[h.id]? = some o) E := by
  refine Meets.bind (Meets.state (P := P)) fun b => ?_
  refine Meets.require ?_ fun b' h => hE b' h.2
  rintro o b' ho ⟨rfl, hP⟩
  exact ⟨hP, ho⟩

theorem storedAt_meets (path : String) :
    Meets P (storedAt path) (fun o b => P b ∧ b.objects.get? path = some o) E := by
  refine Meets.bind (Meets.state (P := P)) fun b => ?_
  refine Meets.require ?_ fun b' h => hE b' h.2
  rintro o b' ho ⟨rfl, h⟩
  exact ⟨h, ho⟩

end Lookups

theorem Sound.types_of_live {b : Broker} (h : b.Sound) {i : Nat} {o : LiveObject}
    (ho : b.live[i]? = some o) : o.definition.Types o.values :=
  h.live o (Array.mem_of_getElem? ho)

/-! ## Handing out objects -/

/-- What is live stands where it stood when another object is handed out. -/
theorem live_push {b : Broker} {i : Nat} {o : LiveObject} (other : LiveObject)
    (ho : b.live[i]? = some o) : (b.live.push other)[i]? = some o := by
  obtain ⟨hi, -⟩ := Array.getElem?_eq_some_iff.mp ho
  rw [Array.getElem?_push_lt hi, ← Array.getElem?_eq_getElem hi]
  exact ho

/-- A typed object is handed out, and everything that was there before is still there. -/
theorem bring_sound (o : LiveObject) {P : Broker → Prop}
    (hP : ∀ b, P b → b.Sound ∧ o.definition.Types o.values) :
    Meets P (bring o) (fun _ => Sound) Sound := by
  refine Meets.ofRun fun b hb => ?_
  obtain ⟨h, ho⟩ := hP b hb
  exact h.push ho

theorem keepsSound_bringClass (c : ClassDef) : KeepsSound (bringClass c) :=
  bring_sound _ fun _ h => ⟨h, ClassDef.Types.empty⟩

theorem keepsSound_clone (h : Handle) : KeepsSound (clone h) := by
  refine Meets.bind (liveObject_meets (fun _ h => h) h) fun o => ?_
  exact bring_sound o fun b hb => ⟨hb.1, hb.1.types_of_live hb.2⟩

theorem keepsSound_get (h : Handle) (name : String) : KeepsSound (get h name) := by
  refine Meets.bind (keepsSound_note _) fun _ => ?_
  refine Meets.bind (liveObject_meets (fun _ h => h) h) fun o => ?_
  exact Meets.ofExcept (fun _ _ _ hb => hb.1) fun _ hb => hb.1

theorem keepsSound_properties (h : Handle) : KeepsSound (properties h) := by
  refine Meets.bind (liveObject_meets (fun _ h => h) h) fun o => ?_
  exact Meets.pure fun _ hb => hb.1

theorem keepsSound_objectText (h : Handle) : KeepsSound (objectText h) := by
  refine Meets.bind (liveObject_meets (fun _ h => h) h) fun o => ?_
  exact Meets.pure fun _ hb => hb.1

theorem keepsSound_spawn (h : Handle) : KeepsSound (spawn h) := by
  refine Meets.bind (liveObject_meets (fun _ h => h) h) fun o => ?_
  split
  · exact bring_sound _ fun _ hb => ⟨hb.1, ClassDef.Types.empty⟩
  · exact Meets.throw fun _ hb => hb.1

theorem keepsSound_bringParameters (parameters : Declarations) :
    KeepsSound (bringParameters parameters) := by
  unfold bringParameters
  split
  · exact Meets.bind (keepsSound_bringClass _) fun _ => Meets.pure fun _ h => h
  · exact Meets.pure fun _ h => h

theorem keepsSound_signature (h : Handle) (method : String) : KeepsSound (signature h method) := by
  refine Meets.bind (liveObject_meets (fun _ h => h) h) fun o => ?_
  refine Meets.bind (Meets.require (Q := fun _ => Sound) (fun _ _ _ hb => hb.1) fun _ hb => hb.1)
    fun m => ?_
  refine Meets.bind (keepsSound_bringParameters m.inputs) fun inputs => ?_
  exact Meets.bind (keepsSound_bringParameters m.outputs) fun outputs => Meets.pure fun _ h => h

theorem keepsSound_bringOutputs (m : MethodDef) (results : List (String × Variant)) :
    KeepsSound (bringOutputs m results) := by
  unfold bringOutputs
  split
  · exact Meets.pure fun _ h => h
  · rename_i c _
    refine Meets.bind (Meets.ofExcept (Q := fun values b => b.Sound ∧ c.Types values) ?_
      fun _ h => h) fun values => ?_
    · exact fun values b hvalues h => ⟨h, ClassDef.Types.empty.assign hvalues⟩
    · exact Meets.bind (bring_sound _ fun _ hb => hb) fun _ => Meets.pure fun _ h => h

/-! ## Writing to objects -/

/-- A declaration admits the clone of an object if it admits the object: it looks at the tag. -/
theorem accepts_object (t : CimType) (h h' : Handle) :
    t.accepts (.object h) = t.accepts (.object h') := rfl

/-- The value that is kept is admitted wherever the value is that is written, and keeping it leaves
the objects behind older handles as they are. -/
theorem kept_sound (v : Variant) {i : Nat} {o : LiveObject} {name : String}
    (hv : o.definition.Admits name v) :
    Meets (fun b => b.Sound ∧ b.live[i]? = some o) (kept v)
      (fun v' b => (b.Sound ∧ b.live[i]? = some o) ∧ o.definition.Admits name v') Sound := by
  unfold kept
  split
  · rename_i h
    have hclone : Meets (fun b => b.Sound ∧ b.live[i]? = some o) (clone h)
        (fun _ (b : Broker) => b.Sound ∧ b.live[i]? = some o) Sound := by
      refine Meets.bind (liveObject_meets (fun _ hb => hb.1) h) fun o' => Meets.ofRun fun b hb => ?_
      obtain ⟨⟨hsound, ho⟩, ho'⟩ := hb
      exact ⟨hsound.push (hsound.types_of_live ho'), live_push o' ho⟩
    refine Meets.bind hclone fun h' => Meets.pure fun b hb => ⟨hb, ?_⟩
    obtain ⟨t, ht, haccepts⟩ := hv
    exact ⟨t, ht, (accepts_object t h' h).trans haccepts⟩
  · exact Meets.pure fun b hb => ⟨hb, hv⟩

theorem keepsSound_put (h : Handle) (name : String) (v : Variant) : KeepsSound (put h name v) := by
  have hwrite : KeepsSound (do
      let o ← liveObject h
      Action.ofExcept (o.definition.checkAssignable name v)
      let v ← kept v
      setLiveValues h (o.values.set name v)) := by
    refine Meets.bind (liveObject_meets (fun _ h => h) h) fun o => ?_
    refine Meets.bind (R := fun _ b => (b.Sound ∧ b.live[h.id]? = some o) ∧
      o.definition.Admits name v) ?_ fun _ => ?_
    · refine Meets.ofExcept (fun _ b hcheck hb => ⟨hb, ?_⟩) fun _ hb => hb.1
      exact ClassDef.checkAssignable_eq_ok.mp hcheck
    · -- the object that was looked at is the one whose values are replaced
      refine Meets.bind (R := fun v' b => (b.Sound ∧ b.live[h.id]? = some o) ∧
        o.definition.Admits name v') ?_ fun v' => Meets.change fun b hb => ?_
      · intro b hb
        exact kept_sound v hb.2 b hb.1
      · exact hb.1.1.replace hb.1.2 ((hb.1.1.types_of_live hb.1.2).set hb.2)
  refine Meets.bind (keepsSound_note _) fun _ => ?_
  split
  · exact Meets.bind (Meets.throw (Q := fun (_ : PUnit) => Sound) fun _ hb => hb) fun _ => hwrite
  · exact hwrite

/-! ## The store -/

/-- A class may be defined under a name that no class has. -/
theorem defineClass_sound (c : ClassDef) :
    Meets (fun b => b.Sound ∧ b.classes.get? c.name = none) (defineClass c) (fun _ => Sound)
      Sound :=
  Meets.change fun _ h => h.1.define h.2

/-- A new instance is stored under its path, and its class admits the values that it was given. -/
theorem insert_sound (className : String) (values : List (String × Variant)) :
    Meets Sound (insert className values) (fun path b => b.Sound ∧ ∃ o c,
      b.objects.get? path = some o ∧ b.classes.get? o.className = some c ∧
        ∀ name v, (name, v) ∈ values → c.Admits name v) Sound := by
  refine Meets.bind (classNamed_meets (fun _ h => h) className) fun c => ?_
  refine Meets.bind (Meets.ofExcept (Q := fun stored b => (b.Sound ∧
    b.classes.get? className = some c) ∧ c.assign .empty values = .ok stored) ?_ fun _ hb => hb.1)
    fun stored => Meets.ofRun fun b hb => ?_
  · exact fun stored b hstored hb => ⟨hb, hstored⟩
  · obtain ⟨⟨h, hc⟩, hstored⟩ := hb
    have hname : c.name = className := h.named className c hc
    have hclass : b.classes.get? c.name = some c := hname ▸ hc
    have hfits : b.Fits (instancePath c.name (b.lastId + 1)) ⟨c.name, stored, []⟩ :=
      ⟨c, hclass, ClassDef.Types.empty.assign hstored, fun _ => List.forall_mem_nil _⟩
    refine ⟨(h.store hfits).congr rfl rfl rfl, ⟨c.name, stored, []⟩, c, ?_, hclass, ?_⟩
    · simp [Table.get?_set]
    · exact fun name v hmem => ClassDef.admits_of_assign hstored hmem

/-- The change may be queued: the class of the object that is stored at the path admits it, unless
the path is the name of a class. -/
def MayChange (b : Broker) (path name : String) (v : Variant) : Prop :=
  ∀ o c, b.objects.get? path = some o → b.classes.get? path = none →
    b.classes.get? o.className = some c → c.Admits name v

/-- Queueing a change that may be queued keeps the invariant, and whatever else may be queued at the
path may still be. -/
theorem schedule_sound (path : String) {admitted : String → Variant → Prop} {name : String}
    {v : Variant} (hv : admitted name v) :
    Meets (fun b => b.Sound ∧ ∀ name v, admitted name v → b.MayChange path name v)
      (schedule path name v)
      (fun _ b => b.Sound ∧ ∀ name v, admitted name v → b.MayChange path name v) Sound := by
  refine Meets.bind (storedAt_meets (fun _ hb => hb.1) path) fun o => Meets.change fun b hb => ?_
  · obtain ⟨⟨h, hmay⟩, ho⟩ := hb
    obtain ⟨c, hc, htypes, hpending⟩ := h.stored path o ho
    constructor
    · refine h.store ⟨c, hc, htypes, fun hpath change hchange => ?_⟩
      rcases List.mem_append.mp hchange with hmem | hmem
      · exact hpending hpath change hmem
      · rw [List.mem_singleton.mp hmem]
        exact hmay name v hv o c ho hpath hc
    · intro name' v' hv' o' c' ho' hpath hc'
      simp only [Table.get?_set, if_true, Option.some.injEq] at ho'
      subst ho'
      exact hmay name' v' hv' o c' ho hpath hc'

theorem keepsSound_setProperty (path name : String) (v : Variant) :
    KeepsSound (setProperty path name v) := by
  refine Meets.bind (storedAt_meets (fun _ h => h) path) fun o => ?_
  refine Meets.bind (classNamed_meets (fun _ h => h.1) o.className) fun c => ?_
  refine Meets.bind (R := fun _ b => ((b.Sound ∧ b.objects.get? path = some o) ∧
    b.classes.get? o.className = some c) ∧ c.Admits name v) ?_ fun _ => Meets.change fun b hb => ?_
  · refine Meets.ofExcept (fun _ b hcheck hb => ⟨hb, ?_⟩) fun _ hb => hb.1.1
    exact ClassDef.checkAssignable_eq_ok.mp hcheck
  · obtain ⟨⟨⟨h, ho⟩, hc⟩, hv⟩ := hb
    obtain ⟨c', hc', htypes, hpending⟩ := h.stored path o ho
    obtain rfl := Option.some.inj (hc.symm.trans hc')
    exact h.store ⟨c, hc, htypes.set hv, hpending⟩

theorem keepsSound_remove (path : String) : KeepsSound (remove path) := by
  refine Meets.ofRun fun b h => ?_
  exact h.erase path

theorem keepsSound_insertJob (states : List (BitVec 16)) (code : BitVec 16) (description : String) :
    KeepsSound (insertJob states code description) := by
  -- a state of a job is a number, and the class admits every number if it admits the first
  have hqueue (path : String) (states : List (BitVec 16)) :
      Meets (fun b => b.Sound ∧ ∀ name v, (name = "JobState" ∧ ∃ n, v = .int32 n) →
          b.MayChange path name v)
        (states.forM fun state => schedule path "JobState" (.int32 state.toNat))
        (fun _ b => b.Sound ∧ ∀ name v, (name = "JobState" ∧ ∃ n, v = .int32 n) →
          b.MayChange path name v) Sound := by
    induction states with
    | nil => exact Meets.pure fun _ h => h
    | cons state states ih =>
      exact Meets.bind (schedule_sound path ⟨rfl, _, rfl⟩) fun _ => ih
  have hinsert : KeepsSound (do
      let first := (states.head?.map BitVec.toNat).getD 7
      let path ← insert jobClass
        [("JobState", .int32 first), ("ErrorCode", .int32 code.toNat),
          ("ErrorDescription", .text description)]
      (states.drop 1).forM fun state => schedule path "JobState" (.int32 state.toNat)
      return path) := by
    refine Meets.bind (insert_sound jobClass _) fun path => ?_
    refine Meets.bind ((hqueue path (states.drop 1)).mono ?_ fun _ _ h => h) fun _ => ?_
    · rintro b ⟨h, o, c, ho, hc, hadmits⟩
      refine ⟨h, ?_⟩
      rintro name v ⟨rfl, n, rfl⟩ o' c' ho' - hc'
      obtain rfl := Option.some.inj (ho.symm.trans ho')
      obtain rfl := Option.some.inj (hc.symm.trans hc')
      obtain ⟨t, ht, haccepts⟩ := hadmits "JobState" _ List.mem_cons_self
      exact ⟨t, ht, haccepts⟩
    · exact Meets.pure fun _ h => h.1
  refine Meets.bind (Meets.state (P := Sound)) fun b => ?_
  split
  · rename_i hnone
    refine Meets.bind ((defineClass_sound (.job jobClass)).mono ?_ fun _ _ h => h) fun _ => hinsert
    rintro b' ⟨rfl, h⟩
    refine ⟨h, ?_⟩
    show b.classes.get? jobClass = none
    simpa [hasClass, Table.contains] using hnone
  · exact hinsert.mono (fun _ h => h.2) fun _ _ h => h

/-! ## Fetching -/

/-- An object that fits still fits after its oldest change. -/
theorem Fits.advance {b : Broker} {path : String} {o : StoredObject} (h : b.Fits path o)
    (hpath : b.classes.get? path = none) : b.Fits path (StoredObject.advance o) := by
  obtain ⟨c, hc, htypes, hpending⟩ := h
  unfold StoredObject.advance
  split
  · exact ⟨c, hc, htypes, hpending⟩
  · rename_i name v rest hqueue
    have hall : ∀ change ∈ (name, v) :: rest, c.Admits change.1 change.2 := hqueue ▸ hpending hpath
    rw [List.forall_mem_cons] at hall
    exact ⟨c, hc, htypes.set hall.1, fun _ => hall.2⟩

theorem keepsSound_snapshot (path : String) : KeepsSound (snapshot path) := by
  refine Meets.bind (Meets.state (P := Sound)) fun b₀ => ?_
  cases hclass : b₀.classes.get? path with
  | some c =>
    refine Meets.bind (bring_sound _ fun _ h => ⟨h.2, ClassDef.Types.empty⟩) fun _ => ?_
    exact Meets.pure fun _ h => h
  | none =>
    refine Meets.bind (Meets.state (P := fun b => b₀ = b ∧ b.Sound)) fun b₁ => ?_
    cases hobject : b₁.objects.get? path with
    | none => exact Meets.pure fun _ h => h.2.2
    | some o =>
      -- what is handed out are the values before the change
      refine Meets.bind (Meets.change (R := fun b => b.Sound ∧
        ∀ c, b.classes.get? o.className = some c → c.Types o.values) ?_) fun _ => ?_
      · rintro b ⟨rfl, rfl, h⟩
        have hfits := h.stored path o hobject
        refine ⟨h.store (hfits.advance hclass), fun c hc => ?_⟩
        obtain ⟨c', hc', htypes, -⟩ := hfits
        obtain rfl := Option.some.inj (hc.symm.trans hc')
        exact htypes
      · refine Meets.bind (classNamed_meets (fun _ h => h.1) o.className) fun c => ?_
        refine Meets.bind (bring_sound _ fun b hb => ⟨hb.1.1, hb.1.2 c hb.2⟩) fun _ => ?_
        exact Meets.pure fun _ h => h

theorem keepsSound_fetchAll (paths : List String) : KeepsSound (fetchAll paths) := by
  induction paths with
  | nil => exact Meets.pure fun _ h => h
  | cons path paths ih =>
    refine Meets.bind (keepsSound_snapshot path) fun found => ?_
    cases found with
    | none => exact ih
    | some h => exact Meets.bind ih fun _ => Meets.pure fun _ h => h

end Broker

end CimBroker
