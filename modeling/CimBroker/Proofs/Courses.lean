/-
# CimBroker.Proofs.Courses — what happens to a broker, one deed after the other

A run of a broker is a row of *deeds*.  Most deeds are requests; a method call falls into parts, as
its routine may do anything in between: the call is written down, the routine does its own deeds,
and the outputs are handed out (`invoke_course`).  Nothing is assumed of a run: classes may be
defined anew, anything may be queued, and deeds may fail.

What a deed can do is said once.  Most deeds leave the store alone and at most hand out objects
whose values were known before (`Adds`), and a write changes one object or none (`live_of_put`,
`put_failed`).  `CimBroker.Proofs.StoreDeeds` has the deeds that change the store.

What is proved of a row of deeds is proved by `course_keeps` or `Along.keeps` from one deed, and
`Happens` says of a run that it does something at some time.
-/
import CimBroker.Proofs.BrokerRuns
import CimBroker.Proofs.ParameterObjects

namespace CimBroker.Broker

open CimBroker.Action

/-! ## Deeds -/

/-- What can happen to a broker. -/
inductive Deed where
  | request (r : Request)
  /-- A call has begun, and its routine is to run. -/
  | call (path method : String)
  /-- What a routine yielded is handed out. -/
  | outputs (m : MethodDef) (results : List (String × Variant))

/-- The broker after a deed, whether the deed succeeded or not. -/
def Deed.after (b : Broker) : Deed → Broker
  | request r => r.after b
  | call path method => begun path method b
  | outputs m results => ((bringOutputs m results).run b).2

/-- The broker after a row of deeds. -/
def course (b : Broker) (deeds : List Deed) : Broker := deeds.foldl Deed.after b

@[simp] theorem course_nil (b : Broker) : course b [] = b := rfl

@[simp] theorem course_cons (b : Broker) (d : Deed) (deeds : List Deed) :
    course b (d :: deeds) = course (d.after b) deeds := rfl

theorem course_append (b : Broker) (deeds more : List Deed) :
    course b (deeds ++ more) = course (course b deeds) more := List.foldl_append

/-- What each deed of a row keeps is kept by the row. -/
theorem course_keeps {I : Broker → Prop} {deeds : List Deed}
    (hstep : ∀ d ∈ deeds, ∀ b, I b → I (d.after b)) {b : Broker} (hb : I b) :
    I (course b deeds) := by
  induction deeds generalizing b with
  | nil => exact hb
  | cons d deeds ih =>
    obtain ⟨hd, hrest⟩ := List.forall_mem_cons.mp hstep
    exact ih hrest (hd b hb)

/-- Each deed of a row meets a condition at the broker to which it is done. -/
def Along (P : Broker → Deed → Prop) : Broker → List Deed → Prop
  | _, [] => True
  | b, d :: deeds => P b d ∧ Along P (d.after b) deeds

/-- A deed of a row meets a condition at the broker to which it is done. -/
def Happens (P : Broker → Deed → Prop) (b : Broker) (deeds : List Deed) : Prop :=
  ∃ before d later, deeds = before ++ d :: later ∧ P (course b before) d

theorem Happens.cons_iff {P : Broker → Deed → Prop} {b : Broker} {d : Deed} {deeds : List Deed} :
    Happens P b (d :: deeds) ↔ P b d ∨ Happens P (d.after b) deeds := by
  constructor
  · rintro ⟨before, d', later, heq, hP⟩
    cases before with
    | nil =>
      cases heq
      exact .inl hP
    | cons first before =>
      cases heq
      exact .inr ⟨before, d', later, rfl, hP⟩
  · rintro (hP | ⟨before, d', later, rfl, hP⟩)
    · exact ⟨[], d, deeds, rfl, hP⟩
    · exact ⟨d :: before, d', later, rfl, hP⟩

theorem not_happens_nil {P : Broker → Deed → Prop} {b : Broker} : ¬ Happens P b [] := by
  rintro ⟨before, d, later, heq, -⟩
  simp at heq

section Conditions

variable {I C : Broker → Prop} {P Q Q' : Broker → Deed → Prop} {b : Broker} {deeds : List Deed}

/-- What each deed keeps under a condition is kept by a row of deeds that meet it. -/
theorem Along.keeps (halong : Along P b deeds) (hkeep : ∀ b d, C b → P b d → C (d.after b))
    (hb : C b) : C (course b deeds) := by
  induction deeds generalizing b with
  | nil => exact hb
  | cons d deeds ih => exact ih halong.2 (hkeep b d hb halong.1)

theorem Along.happens_congr (halong : Along P b deeds)
    (hkeep : ∀ b d, C b → P b d → C (d.after b))
    (hstep : ∀ b d, C b → P b d → (Q b d ↔ Q' b d)) (hb : C b) :
    Happens Q b deeds ↔ Happens Q' b deeds := by
  induction deeds generalizing b with
  | nil => exact iff_of_false not_happens_nil not_happens_nil
  | cons d deeds ih =>
    rw [Happens.cons_iff, Happens.cons_iff, hstep b d hb halong.1,
      ih halong.2 (hkeep b d hb halong.1)]

/-- A property holds throughout a run exactly if it holds at the start and no deed destroys it. -/
theorem Along.throughout_iff (halong : Along P b deeds)
    (hkeep : ∀ b d, C b → P b d → C (d.after b))
    (hstep : ∀ b d, C b → P b d → I b → (I (d.after b) ↔ ¬ Q b d)) (hb : C b) :
    (∀ n, I (course b (deeds.take n))) ↔ I b ∧ ¬ Happens Q b deeds := by
  induction deeds generalizing b with
  | nil =>
    simp only [List.take_nil, course_nil, forall_const, not_happens_nil, not_false_eq_true,
      and_true]
  | cons d deeds ih =>
    have hrest := ih halong.2 (hkeep b d hb halong.1)
    rw [Happens.cons_iff, not_or]
    constructor
    · intro hall
      have hstart : I b := hall 0
      obtain ⟨hafter, hlater⟩ := hrest.mp fun n => hall (n + 1)
      exact ⟨hstart, (hstep b d hb halong.1 hstart).mp hafter, hlater⟩
    · rintro ⟨hstart, hfirst, hlater⟩ n
      cases n with
      | zero => exact hstart
      | succ n => exact hrest.mpr ⟨(hstep b d hb halong.1 hstart).mpr hfirst, hlater⟩ n

end Conditions

/-- **A method call is a row of deeds**, a `course`, if what its routine does is one. -/
theorem invoke_course {ω : Type} (routines : Routines ω) (own : ω) (path method : String)
    (inputs : Option Handle) (b : Broker)
    (hroutine : ∀ routine call, ∃ deeds,
      ((routines routine call).run (begun path method b, own)).2.1 =
        course (begun path method b) deeds) :
    ∃ deeds, ((invoke routines path method inputs).run (b, own)).2.1 =
      course b (.call path method :: deeds) := by
  rw [invoke_eq, run_bind, run_onFirst, opening_after]
  cases ((opening path method inputs).run b).1 with
  | error e => exact ⟨[], rfl⟩
  | ok found =>
    obtain ⟨deeds, hdeeds⟩ := hroutine found.2.1 found.2.2
    show ∃ deeds, (Action.run (do
      let results ← routines found.2.1 found.2.2
      onFirst (bringOutputs found.1 results)) (begun path method b, own)).2.1 = _
    rw [run_bind]
    rcases hrun : (routines found.2.1 found.2.2).run (begun path method b, own) with ⟨outcome, st⟩
    rw [hrun] at hdeeds
    cases outcome with
    | error e => exact ⟨deeds, hdeeds⟩
    | ok results =>
      refine ⟨deeds ++ [.outputs found.1 results], ?_⟩
      show ((bringOutputs found.1 results).run st.1).2 = _
      rw [course_cons, course_append, show Deed.after b (.call path method) =
        begun path method b from rfl, ← hdeeds]
      rfl

/-! ## Values -/

/-- The value is somewhere in the broker: behind a handle, in the store, or waiting in a queue. -/
inductive Occurs (b : Broker) : Variant → Prop
  | live {i : Nat} {o : LiveObject} {name : String} {v : Variant} (ho : b.live[i]? = some o)
      (hv : o.values.get? name = some v) : Occurs b v
  | stored {path name : String} {o : StoredObject} {v : Variant}
      (ho : b.objects.get? path = some o) (hv : o.values.get? name = some v) : Occurs b v
  | queued {path name : String} {o : StoredObject} {v : Variant}
      (ho : b.objects.get? path = some o) (hv : (name, v) ∈ o.pending) : Occurs b v

/-- The value is passed with the request. -/
def Request.Gives : Request → Variant → Prop
  | insert _ values, v => ∃ name, (name, v) ∈ values
  | insertJob _ _ _, v => (∃ n, v = .int32 n) ∨ ∃ s, v = .text s
  | schedule _ _ w, v => v = w
  | setProperty _ _ w, v => v = w
  | put _ _ w, v => v = w
  | _, _ => False

/-- The value is passed with the deed. -/
def Deed.Gives : Deed → Variant → Prop
  | request r, v => r.Gives v
  | call _ _, _ => False
  | outputs _ results, v => ∃ name, (name, v) ∈ results

/-- Assigned values come from the assignments. -/
theorem mem_of_assign {c : ClassDef} {values after : Table Variant}
    {assignments : List (String × Variant)} (hafter : c.assign values assignments = .ok after)
    {name : String} {v : Variant} (hv : after.get? name = some v) :
    values.get? name = some v ∨ (name, v) ∈ assignments := by
  induction assignments generalizing values with
  | nil =>
    cases hafter
    exact .inl hv
  | cons assignment rest ih =>
    obtain ⟨other, w⟩ := assignment
    rw [ClassDef.assign] at hafter
    split at hafter
    · rcases ih hafter with hset | hrest
      · rw [Table.get?_set] at hset
        split at hset
        · rename_i hname
          cases hset
          exact .inr (hname ▸ List.mem_cons_self)
        · exact .inl hset
      · exact .inr (List.mem_cons_of_mem _ hrest)
    · cases hafter

/-! ## Deeds that leave the store alone -/

/-- The store is the same, everything that was live still is, and what is live now was live before
or has only known values. -/
structure Adds (known : Variant → Prop) (b b' : Broker) : Prop extends Extends b b' where
  lastId : b'.lastId = b.lastId
  new : ∀ (i : Nat) (o : LiveObject), b'.live[i]? = some o →
    b.live[i]? = some o ∨ ∀ name v, o.values.get? name = some v → known v

section Adding

variable {known : Variant → Prop} {b₀ : Broker}

theorem Adds.refl (b : Broker) : Adds known b b :=
  ⟨⟨rfl, rfl, fun _ _ ho => ho⟩, rfl, fun _ _ ho => .inl ho⟩

/-- Only what is stored and what is live matters. -/
theorem Adds.congr {b b' : Broker} (h : Adds known b₀ b) (hclasses : b'.classes = b.classes)
    (hobjects : b'.objects = b.objects) (hlastId : b'.lastId = b.lastId)
    (hlive : b'.live = b.live) : Adds known b₀ b' := by
  refine ⟨⟨hclasses.trans h.classes, hobjects.trans h.objects, ?_⟩, hlastId.trans h.lastId, ?_⟩
  · rw [hlive]
    exact h.live
  · rw [hlive]
    exact h.new

theorem Adds.push {b : Broker} (h : Adds known b₀ b) {o : LiveObject}
    (ho : ∀ name v, o.values.get? name = some v → known v) :
    Adds known b₀ { b with live := b.live.push o } := by
  refine ⟨⟨h.classes, h.objects, fun i o' ho' => live_push o (h.live i o' ho')⟩, h.lastId, ?_⟩
  intro i o' ho'
  rcases Nat.lt_or_ge i b.live.size with hi | hi
  · refine h.new i o' ?_
    rwa [Array.getElem?_push_lt hi, ← Array.getElem?_eq_getElem hi] at ho'
  · -- the object at the end is the new one
    obtain ⟨hlt, heq⟩ := Array.getElem?_eq_some_iff.mp ho'
    have hend : i = b.live.size := by
      have hsize : i < (b.live.push o).size := hlt
      rw [Array.size_push] at hsize
      omega
    subst hend
    have hnew : o = o' := by simpa using heq
    exact .inr (hnew ▸ ho)

/-- The action adds at most objects with known values, whether it succeeds or fails. -/
abbrev KeepsAdding {α : Type} (known : Variant → Prop) (b₀ : Broker) (action : Action Broker α) :
    Prop :=
  Meets (Adds known b₀) action (fun _ => Adds known b₀) (Adds known b₀)

theorem keepsAdding_note (call : Call) : KeepsAdding known b₀ (note call) :=
  Meets.change fun _ h => h.congr rfl rfl rfl rfl

theorem keepsAdding_bring {o : LiveObject} {P : Broker → Prop} (hP : ∀ b, P b → Adds known b₀ b)
    (ho : ∀ name v, o.values.get? name = some v → known v) :
    Meets P (bring o) (fun _ => Adds known b₀) (Adds known b₀) :=
  Meets.ofRun fun b hb => (hP b hb).push ho

theorem keepsAdding_bringClass (c : ClassDef) : KeepsAdding known b₀ (bringClass c) :=
  keepsAdding_bring (fun _ h => h) nofun

theorem keepsAdding_get (h : Handle) (name : String) : KeepsAdding known b₀ (get h name) := by
  refine Meets.bind (keepsAdding_note _) fun _ => ?_
  refine Meets.bind (liveObject_meets (fun _ h => h) h) fun o => ?_
  exact Meets.ofExcept (fun _ _ _ hb => hb.1) fun _ hb => hb.1

theorem keepsAdding_properties (h : Handle) : KeepsAdding known b₀ (properties h) := by
  refine Meets.bind (liveObject_meets (fun _ h => h) h) fun o => ?_
  exact Meets.pure fun _ hb => hb.1

theorem keepsAdding_objectText (h : Handle) : KeepsAdding known b₀ (objectText h) := by
  refine Meets.bind (liveObject_meets (fun _ h => h) h) fun o => ?_
  exact Meets.pure fun _ hb => hb.1

theorem keepsAdding_spawn (h : Handle) : KeepsAdding known b₀ (spawn h) := by
  refine Meets.bind (liveObject_meets (fun _ h => h) h) fun o => ?_
  split
  · exact keepsAdding_bring (fun _ hb => hb.1) nofun
  · exact Meets.throw fun _ hb => hb.1

theorem keepsAdding_bringParameters (parameters : Declarations) :
    KeepsAdding known b₀ (bringParameters parameters) := by
  unfold bringParameters
  split
  · exact Meets.bind (keepsAdding_bringClass _) fun _ => Meets.pure fun _ h => h
  · exact Meets.pure fun _ h => h

theorem keepsAdding_signature (h : Handle) (method : String) :
    KeepsAdding known b₀ (signature h method) := by
  refine Meets.bind (liveObject_meets (fun _ h => h) h) fun o => ?_
  refine Meets.bind (Meets.require (Q := fun _ => Adds known b₀) (fun _ _ _ hb => hb.1)
    fun _ hb => hb.1) fun m => ?_
  refine Meets.bind (keepsAdding_bringParameters m.inputs) fun inputs => ?_
  exact Meets.bind (keepsAdding_bringParameters m.outputs) fun outputs => Meets.pure fun _ h => h

theorem keepsAdding_next (c : Cursor) : KeepsAdding known b₀ (next c) := by
  refine Meets.of_after fun b h => ?_
  unfold next
  rw [run_ofRun]
  split
  · exact h
  · exact h.congr rfl rfl rfl rfl

theorem keepsAdding_classObject (name : String) : KeepsAdding known b₀ (classObject name) := by
  refine Meets.bind (classNamed_meets (fun _ h => h) name) fun c => ?_
  exact keepsAdding_bring (fun _ hb => hb.1) nofun

theorem keepsAdding_logIn (namespaceName : String) (credentials : Option Credentials) :
    KeepsAdding known b₀ (logIn namespaceName credentials) := by
  refine Meets.bind (keepsAdding_note _) fun _ => ?_
  refine Meets.bind (Meets.state (P := Adds known b₀)) fun b => ?_
  split
  · split
    · exact Meets.pure fun _ h => h.2
    · exact Meets.throw fun _ h => h.2
  · exact Meets.pure fun _ h => h.2

/-- What is handed out of the outputs was yielded. -/
theorem keepsAdding_bringOutputs (m : MethodDef) {results : List (String × Variant)}
    (hresults : ∀ name v, (name, v) ∈ results → known v) :
    KeepsAdding known b₀ (bringOutputs m results) := by
  unfold bringOutputs
  split
  · exact Meets.pure fun _ h => h
  · rename_i c _
    refine Meets.bind (Meets.ofExcept (Q := fun values b => Adds known b₀ b ∧
      ∀ name v, values.get? name = some v → known v) ?_ fun _ h => h) fun values => ?_
    · refine fun values b hvalues h => ⟨h, fun name v hv => ?_⟩
      exact hresults name v ((mem_of_assign hvalues hv).resolve_left nofun)
    · refine Meets.bind (R := fun _ => Adds known b₀) ?_ fun _ => Meets.pure fun _ h => h
      exact Meets.ofRun fun b hb => hb.1.push hb.2

/-- Values behind handles are known if those that occurred at the start are. -/
theorem keepsAdding_clone (hknown : ∀ v, b₀.Occurs v → known v) (h : Handle) :
    KeepsAdding known b₀ (clone h) := by
  refine Meets.bind (liveObject_meets (fun _ h => h) h) fun o => ?_
  refine Meets.ofRun fun b hb => hb.1.push fun name v hv => ?_
  rcases hb.1.new _ o hb.2 with hlive | hvalues
  · exact hknown v (.live hlive hv)
  · exact hvalues name v hv

end Adding

/-- The deeds that leave the store alone and what is live as it is. -/
def Request.IsQuiet : Request → Prop
  | associate _ _ | requireCredentials _ | clearCalls | classObject _ | logIn _ _ | next _ | get _ _
  | properties _ | spawn _ | clone _ | signature _ _ | text _ => True
  | _ => False

/-- The deeds that leave the store alone and what is live as it is. -/
def Deed.IsQuiet : Deed → Prop
  | request r => r.IsQuiet
  | call _ _ | outputs _ _ => True

/-- **A quiet deed only adds** (`Adds`). -/
theorem Deed.IsQuiet.adds {d : Deed} (hd : d.IsQuiet) (b : Broker) :
    Adds (fun v => b.Occurs v ∨ d.Gives v) b (d.after b) := by
  have hb : Adds (fun v => b.Occurs v ∨ d.Gives v) b b := .refl b
  cases d with
  | call path method => exact hb.congr rfl rfl rfl rfl
  | outputs m results =>
    exact (keepsAdding_bringOutputs m fun name v hmem => .inr ⟨name, hmem⟩).after hb
  | request r =>
    cases r with
    | associate first second => exact hb.congr rfl rfl rfl rfl
    | requireCredentials c => exact hb.congr rfl rfl rfl rfl
    | clearCalls => exact hb.congr rfl rfl rfl rfl
    | classObject name => exact (keepsAdding_classObject name).after hb
    | logIn namespaceName credentials =>
      exact (keepsAdding_logIn namespaceName credentials).after hb
    | next cursor => exact (keepsAdding_next cursor).after hb
    | get h name => exact (keepsAdding_get h name).after hb
    | properties h => exact (keepsAdding_properties h).after hb
    | spawn h => exact (keepsAdding_spawn h).after hb
    | clone h => exact (keepsAdding_clone (fun _ hv => .inl hv) h).after hb
    | signature h method => exact (keepsAdding_signature h method).after hb
    | text h => exact (keepsAdding_objectText h).after hb
    | _ => exact hd.elim

/-! ## Writing -/

/-- If keeping a value fails, nothing has happened. -/
theorem kept_fails (v : Variant) (b : Broker) :
    Meets (fun s => s = b) (kept v) (fun _ _ => True) fun s => s = b := by
  unfold kept
  split
  · rename_i h
    have hclone : Meets (fun s => s = b) (clone h) (fun _ _ => True) fun s => s = b := by
      refine Meets.bind (liveObject_meets (fun _ hs => hs) h) fun o => ?_
      exact Meets.ofRun fun _ _ => trivial
    exact Meets.bind hclone fun _ => Meets.pure fun _ _ => trivial
  · exact Meets.pure fun _ _ => trivial

/-- A write that fails is written down, and that is all. -/
theorem put_failed {h : Handle} {name : String} {v : Variant} {b : Broker}
    (hfailed : ((put h name v).run b).1 ≠ .ok ()) :
    ((put h name v).run b).2 = { b with trail := .put name :: b.trail } := by
  let noted : Broker := { b with trail := .put name :: b.trail }
  have hguarded : Meets (fun s => s = noted) (do
      let o ← liveObject h
      Action.ofExcept (o.definition.checkAssignable name v)
      let v ← kept v
      setLiveValues h (o.values.set name v)) (fun _ _ => True) fun s => s = noted := by
    refine Meets.bind (liveObject_meets (fun _ hs => hs) h) fun o => ?_
    refine Meets.bind (R := fun _ s => s = noted) ?_ fun _ => ?_
    · exact Meets.ofExcept (fun _ _ _ hs => hs.1) fun _ hs => hs.1
    · refine Meets.bind (kept_fails v noted) fun v' => ?_
      exact Meets.change fun _ _ => trivial
  have hput : Meets (fun s => s = b) (put h name v) (fun _ _ => True) fun s => s = noted := by
    refine Meets.bind (R := fun _ s => s = noted) (Meets.change ?_) fun _ => ?_
    · rintro s rfl
      rfl
    · split
      · exact Meets.bind (Meets.throw (Q := fun (_ : PUnit) s => s = noted) fun _ hs => hs)
          fun _ => hguarded
      · exact hguarded
  rcases hrun : (put h name v).run b with ⟨outcome, b'⟩
  cases outcome with
  | error e => exact (hput b rfl).2 e b' hrun
  | ok _ =>
    rw [hrun] at hfailed
    exact absurd rfl hfailed

/-- Keeping a value is nothing, or copying an object. -/
theorem kept_cases {v v' : Variant} {b b' : Broker} (hrun : (kept v).run b = (.ok v', b')) :
    ((∀ h, v ≠ .object h) ∧ v' = v ∧ b' = b) ∨
      ∃ h o, v = .object h ∧ b.live[h.id]? = some o ∧ v' = .object ⟨b.live.size⟩ ∧
        b' = { b with live := b.live.push o } := by
  unfold kept at hrun
  split at hrun
  · rename_i h
    obtain ⟨h', between, hclone, hpure⟩ := run_bind_eq_ok.mp hrun
    cases hpure
    obtain ⟨o, b₁, hlive, hbring⟩ := run_bind_eq_ok.mp hclone
    obtain ⟨ho, rfl⟩ := liveObject_eq_ok.mp hlive
    cases hbring
    exact .inr ⟨h, o, rfl, ho, rfl, rfl⟩
  · rename_i hv
    cases hrun
    exact .inl ⟨hv, rfl, rfl⟩

/-- What is live after a write that succeeds: the object with the value that is kept, and if an
object was written, a copy of it at the end. -/
theorem live_of_put {h : Handle} {name : String} {v : Variant} {b b' : Broker}
    (hrun : (put h name v).run b = (.ok (), b')) :
    ∃ o, b.live[h.id]? = some o ∧
      (((∀ h', v ≠ .object h') ∧
        b'.live = b.live.modify h.id fun o' => { o' with values := o.values.set name v }) ∨
      ∃ h' o₁, v = .object h' ∧ b.live[h'.id]? = some o₁ ∧
        b'.live = (b.live.push o₁).modify h.id fun o' =>
          { o' with values := o.values.set name (.object ⟨b.live.size⟩) }) := by
  obtain ⟨⟨⟩, b₁, hnote, hguarded⟩ := run_bind_eq_ok.mp hrun
  cases hnote
  split at hguarded
  · -- a system property is refused
    obtain ⟨x, b₂, hthrow, -⟩ := run_bind_eq_ok.mp hguarded
    cases hthrow
  · obtain ⟨o, b₂, hlive, hchecked⟩ := run_bind_eq_ok.mp hguarded
    obtain ⟨ho, rfl⟩ := liveObject_eq_ok.mp hlive
    obtain ⟨⟨⟩, b₃, hcheck, hkeeping⟩ := run_bind_eq_ok.mp hchecked
    rw [run_ofExcept] at hcheck
    obtain ⟨-, rfl⟩ := Prod.mk.inj hcheck
    obtain ⟨v', b₄, hkept, hset⟩ := run_bind_eq_ok.mp hkeeping
    cases hset
    refine ⟨o, ho, ?_⟩
    rcases kept_cases hkept with ⟨hplain, rfl, rfl⟩ | ⟨h', o₁, rfl, ho₁, rfl, rfl⟩
    · exact .inl ⟨hplain, rfl⟩
    · exact .inr ⟨h', o₁, rfl, ho₁, rfl⟩

end CimBroker.Broker
