/-
# CimBroker.Proofs.ParameterObjects — the object that carries the inputs of a call

Before a method of an object in memory is called, its class is looked up, the method's inputs are
turned into a definition, and a blank instance of that definition is handed out: the parameter
object.  Setting an input writes to it, and an object that is written is cloned first.

All that a broker does to prepare a call is to add: to the trail, and to the live objects
(`Extends`).  So the lemmas on preparing say what is new, and nothing of what is still there.  A
write is the one step that changes what is live, and `Written` says what it changes.

`run_parameters` is the object that is handed out, and `put_eq_ok_iff` says which writes to it
succeed.  What reaches the routine is put together from this in `CimBroker.Proofs.Inputs`.
-/
import CimBroker.Proofs.Journal
import CimBroker.Proofs.TypedStore
import CimBroker.Session.Invocation

namespace CimBroker.Broker

open CimBroker.Action

/-! ## Additions -/

/-- The store is the same, and everything that was live still is. -/
structure Extends (b b' : Broker) : Prop where
  classes : b'.classes = b.classes
  objects : b'.objects = b.objects
  live : ∀ (i : Nat) (o : LiveObject), b.live[i]? = some o → b'.live[i]? = some o

theorem Extends.trans {b b' b'' : Broker} (h : b.Extends b') (h' : b'.Extends b'') :
    b.Extends b'' := by
  refine ⟨h'.classes.trans h.classes, h'.objects.trans h.objects, ?_⟩
  intro i o ho
  exact h'.live i o (h.live i o ho)

theorem extends_note (trail : List Call) (b : Broker) : b.Extends { b with trail := trail } :=
  ⟨rfl, rfl, fun _ _ ho => ho⟩

theorem extends_push (o : LiveObject) (b : Broker) :
    b.Extends { b with live := b.live.push o } :=
  ⟨rfl, rfl, fun _ _ ho => live_push o ho⟩

/-! ## Reading -/

/-- What reading a property yields at a moment. -/
def readAt (h : Handle) (name : String) (b : Broker) : Except Error (Variant × CimType) :=
  b.live[h.id]?.elim (.error (.notFound "object")) fun o => o.read name

/-- The broker once a read is written down. -/
def readFrom (name : String) (b : Broker) : Broker := { b with trail := .get name :: b.trail }

/-- Reading a property is written down and changes nothing else. -/
theorem run_get (h : Handle) (name : String) (b : Broker) :
    (get h name).run b = (readAt h name b, readFrom name b) := by
  unfold get note liveObject readAt readFrom
  cases ho : b.live[h.id]? with
  | none => simp [change, state, require, run_bind, ho]
  | some o => simp [change, state, require, run_bind, ho]

section Session

variable {ω : Type} {st st' : Broker × ω} {h : Handle}

theorem run_access_get (name : String) :
    ((access.onFirst ω).get h name).run st = (readAt h name st.1, readFrom name st.1, st.2) :=
  run_onFirst_of (run_get h name st.1)

theorem run_getAs (name : String) (t : DataType) :
    ((access.onFirst ω).getAs h name t).run st =
      ((readAt h name st.1).bind fun found => t.decode found.1, readFrom name st.1, st.2) := by
  rw [ObjectAccess.run_getAs, run_access_get]

/-- The path of an object reads back as it is. -/
theorem decode_path (o : LiveObject) :
    (o.read pathProperty).bind (fun found => (DataType.optional .text).decode found.1) =
      .ok o.path := by
  unfold LiveObject.read LiveObject.systemValue?
  rw [if_pos rfl]
  cases o.path with
  | none => rfl
  | some path => rfl

/-- The path is required of an object that has one. -/
theorem run_requirePath_eq_ok {path : String} :
    ((access.onFirst ω).requirePath h).run st = (.ok path, st') ↔
      (∃ o, st.1.live[h.id]? = some o ∧ o.path = some path) ∧
        st' = (readFrom pathProperty st.1, st.2) := by
  unfold ObjectAccess.requirePath ObjectAccess.path?
  rw [run_bind, run_getAs, readAt]
  cases st.1.live[h.id]? with
  | none => simp [Except.bind]
  | some o =>
    rw [Option.elim_some, decode_path, run_require_eq_ok]
    simp

/-- The declared type is read of an object that has the property. -/
theorem run_declaredType_eq_ok {name : String} {t : CimType} :
    ((access.onFirst ω).declaredType h name).run st = (.ok t, st') ↔
      (∃ o v, st.1.live[h.id]? = some o ∧ o.read name = .ok (v, t)) ∧
        st' = (readFrom name st.1, st.2) := by
  unfold ObjectAccess.declaredType
  rw [run_bind, run_access_get, readAt]
  cases st.1.live[h.id]? with
  | none => simp
  | some o =>
    rw [Option.elim_some]
    cases hread : o.read name with
    | error e => simp [hread]
    | ok found => simp [hread, eq_comm, Prod.ext_iff]

theorem run_className {o : LiveObject} (ho : st.1.live[h.id]? = some o) :
    ((access.onFirst ω).className h).run st =
      (.ok o.definition.name, readFrom classProperty st.1, st.2) := by
  unfold ObjectAccess.className
  rw [run_getAs, readAt, ho]
  rfl

end Session

/-! ## Preparing a call -/

/-- A new object is live under its handle. -/
theorem run_bring (o : LiveObject) (b : Broker) :
    ∃ h b', (bring o).run b = (.ok h, b') ∧ b.Extends b' ∧ b'.live[h.id]? = some o := by
  refine ⟨⟨b.live.size⟩, { b with live := b.live.push o }, rfl, extends_push o b, ?_⟩
  simp

/-- Fetching the name of a class hands out its definition. -/
theorem run_fetch_class {name : String} {c : ClassDef} {b : Broker}
    (hc : b.classes.get? name = some c) :
    ∃ h b', (fetch name).run b = (.ok (some h), b') ∧ b.Extends b' ∧
      b'.live[h.id]? = some ⟨c, some c.name, true, .empty⟩ := by
  have hnoted := extends_note (.fetch name :: b.trail) b
  obtain ⟨h, b', hbring, hadd, hlive⟩ := run_bring ⟨c, some c.name, true, .empty⟩
    { b with trail := .fetch name :: b.trail }
  refine ⟨h, b', ?_, hnoted.trans hadd, hlive⟩
  unfold fetch snapshot note bringClass
  simp [change, state, run_bind, hc, hbring, Except.map]

/-- The definition that the inputs or the outputs of a method form. -/
abbrev parameterClass (parameters : Declarations) : ClassDef :=
  .ofProperties "__PARAMETERS" parameters

/-- There is a handle to the given object if there are parameters, and none otherwise. -/
def Carries (parameters : Declarations) (o : LiveObject) : Option Handle → Broker → Prop
  | none, _ => parameters = []
  | some h, b => parameters ≠ [] ∧ b.live[h.id]? = some o

/-- An object that is carried is carried on, as long as it is left alone. -/
theorem Carries.later {parameters : Declarations} {o : LiveObject} {found : Option Handle}
    {b b' : Broker} (h : Carries parameters o found b)
    (hlive : ∀ h', found = some h' → b.live[h'.id]? = some o → b'.live[h'.id]? = some o) :
    Carries parameters o found b' := by
  cases found with
  | none => exact h
  | some h' => exact ⟨h.1, hlive h' rfl h.2⟩

theorem run_bringParameters (parameters : Declarations) (b : Broker) :
    ∃ found b', (bringParameters parameters).run b = (.ok found, b') ∧ b.Extends b' ∧
      Carries parameters ⟨parameterClass parameters, some "__PARAMETERS", true, .empty⟩ found
        b' := by
  unfold bringParameters ClassDef.ofParameters?
  cases parameters with
  | nil => exact ⟨none, b, rfl, ⟨rfl, rfl, fun _ _ ho => ho⟩, rfl⟩
  | cons parameter rest =>
    obtain ⟨h, b', hbring, hadd, hlive⟩ := run_bring
      ⟨parameterClass (parameter :: rest), some "__PARAMETERS", true, .empty⟩ b
    refine ⟨some h, b', ?_, hadd, List.cons_ne_nil _ _, hlive⟩
    have hclass : (bringClass (parameterClass (parameter :: rest))).run b = (.ok h, b') := hbring
    show (bringClass (parameterClass (parameter :: rest)) >>= fun h => pure (some h)).run b = _
    rw [run_bind_of_ok hclass]
    rfl

/-- The inputs of a method that the class declares. -/
theorem run_signature {h : Handle} {o : LiveObject} {method : String} {m : MethodDef} {b : Broker}
    (ho : b.live[h.id]? = some o) (hm : o.definition.method? method = some m) :
    ∃ found b', (signature h method).run b = (.ok found, b') ∧ b.Extends b' ∧
      Carries m.inputs ⟨parameterClass m.inputs, some "__PARAMETERS", true, .empty⟩ found.1 b' := by
  obtain ⟨inputs, b₁, hinputs, hadd₁, hcarries⟩ := run_bringParameters m.inputs b
  obtain ⟨outputs, b₂, houtputs, hadd₂, -⟩ := run_bringParameters m.outputs b₁
  refine ⟨(inputs, outputs), b₂, ?_, hadd₁.trans hadd₂,
    hcarries.later fun h' _ => hadd₂.live h'.id _⟩
  unfold signature liveObject
  simp [state, require, run_bind, ho, hm, hinputs, houtputs, Except.map]

/-- Spawning from a definition hands out a blank instance of it. -/
theorem run_spawn {h : Handle} {o : LiveObject} {b : Broker} (ho : b.live[h.id]? = some o)
    (hclass : o.isClass = true) :
    ∃ h' b', (spawn h).run b = (.ok h', b') ∧ b.Extends b' ∧
      b'.live[h'.id]? = some ⟨o.definition, none, false, .empty⟩ := by
  obtain ⟨h', b', hbring, hadd, hlive⟩ := run_bring ⟨o.definition, none, false, .empty⟩ b
  refine ⟨h', b', ?_, hadd, hlive⟩
  unfold spawn liveObject bringInstance
  simp [state, require, run_bind, ho, hclass, hbring]

section Session

variable {ω : Type} {st : Broker × ω} {h : Handle}

/-- The blank object for the inputs of a method that the class declares. -/
theorem run_parameters {o : LiveObject} {method : String} {m : MethodDef}
    (ho : st.1.live[h.id]? = some o) (hm : o.definition.method? method = some m) :
    ∃ inputs b', ((access.onFirst ω).parameters h method).run st = (.ok inputs, b', st.2) ∧
      st.1.Extends b' ∧
      Carries m.inputs ⟨parameterClass m.inputs, none, false, .empty⟩ inputs b' := by
  obtain ⟨⟨definition, outputs⟩, b₁, hsignature, hadd₁, hcarries⟩ := run_signature ho hm
  have hsigned : ((access.onFirst ω).signature h method).run st =
      (.ok (definition, outputs), b₁, st.2) := run_onFirst_of hsignature
  unfold ObjectAccess.parameters
  rw [run_bind_of_ok hsigned]
  cases definition with
  | none => exact ⟨none, b₁, rfl, hadd₁, hcarries⟩
  | some definition =>
    obtain ⟨inputs, b₂, hspawn, hadd₂, hlive⟩ := run_spawn hcarries.2 rfl
    have hspawned : ((access.onFirst ω).spawn definition).run (b₁, st.2) =
        (.ok inputs, b₂, st.2) := run_onFirst_of hspawn
    refine ⟨some inputs, b₂, ?_, hadd₁.trans hadd₂, hcarries.1, hlive⟩
    show (((access.onFirst ω).spawn definition) >>= fun h => pure (some h)).run (b₁, st.2) = _
    rw [run_bind_of_ok hspawned]
    rfl

end Session

/-! ## Writing -/

/-- What is kept of a value that is written: the value itself, or of an object a new one that is as
the object was before. -/
inductive Kept (before now : Broker) : Variant → Variant → Prop
  | plain {v : Variant} (hv : ∀ h, v ≠ .object h) : Kept before now v v
  | copied {h h' : Handle} {o : LiveObject} (ho : before.live[h.id]? = some o)
      (ho' : now.live[h'.id]? = some o) : Kept before now (.object h) (.object h')

/-- A copy stays a copy of what the object was, as long as it is left alone. -/
theorem Kept.later {before before' now now' : Broker} {v v' : Variant} (h : Kept before now v v')
    (hbefore : before'.live = before.live)
    (hcopy : ∀ h', v' = .object h' → ∀ o, now.live[h'.id]? = some o → now'.live[h'.id]? = some o) :
    Kept before' now' v v' := by
  cases h with
  | plain hv => exact .plain hv
  | copied ho ho' => exact .copied (hbefore ▸ ho) (hcopy _ rfl _ ho')

/-- What a write leaves behind: the object has the value that is kept, and nothing else that was
there before is changed. -/
structure Written (h : Handle) (o : LiveObject) (name : String) (v v' : Variant)
    (b b' : Broker) : Prop where
  classes : b'.classes = b.classes
  objects : b'.objects = b.objects
  /-- The name is no system property. -/
  own : isSystemName name = false
  admits : o.definition.Admits name v
  kept : Kept b b' v v'
  there : b'.live[h.id]? = some { o with values := o.values.set name v' }
  others : ∀ (i : Nat) (o' : LiveObject), i ≠ h.id → b.live[i]? = some o' →
    b'.live[i]? = some o'
  /-- An object that is kept is not the one that is written to. -/
  apart : ∀ h', v' = .object h' → h'.id ≠ h.id

/-- Only what is live and what is stored matters. -/
theorem Written.before {h : Handle} {o : LiveObject} {name : String} {v v' : Variant}
    {b b₀ b' : Broker} (w : Written h o name v v' b b') (hclasses : b.classes = b₀.classes)
    (hobjects : b.objects = b₀.objects) (hlive : b.live = b₀.live) :
    Written h o name v v' b₀ b' := by
  refine ⟨w.classes.trans hclasses, w.objects.trans hobjects, w.own, w.admits, ?_, w.there, ?_,
    w.apart⟩
  · exact w.kept.later hlive.symm fun _ _ _ h => h
  · exact hlive ▸ w.others

theorem liveObject_eq_ok {h : Handle} {o : LiveObject} {b b' : Broker} :
    (liveObject h).run b = (.ok o, b') ↔ b.live[h.id]? = some o ∧ b' = b := by
  unfold liveObject
  rw [run_bind]
  exact run_require_eq_ok

/-- Keeping a value adds at most a copy, under a handle of its own. -/
theorem kept_of_run {v v' : Variant} {b b' : Broker} (hrun : (kept v).run b = (.ok v', b')) :
    b.Extends b' ∧ Kept b b' v v' ∧ ∀ h', v' = .object h' → h'.id = b.live.size := by
  unfold kept at hrun
  split at hrun
  · rename_i h
    obtain ⟨h', between, hclone, hpure⟩ := run_bind_eq_ok.mp hrun
    cases hpure
    obtain ⟨o, b₁, hlive, hbring⟩ := run_bind_eq_ok.mp hclone
    obtain ⟨ho, rfl⟩ := liveObject_eq_ok.mp hlive
    cases hbring
    refine ⟨extends_push o b₁, .copied ho (by simp), ?_⟩
    rintro h' ⟨⟩
    rfl
  · rename_i hv
    cases hrun
    exact ⟨⟨rfl, rfl, fun _ _ ho => ho⟩, .plain hv, fun h' heq => absurd heq (hv h')⟩

/-- Replacing the values of an object once the value to be written is kept. -/
theorem written_of_kept {h : Handle} {o : LiveObject} {name : String} {v v' : Variant}
    {b b' : Broker} (ho : b.live[h.id]? = some o) (hown : isSystemName name = false)
    (hadmits : o.definition.Admits name v) (hrun : (kept v).run b = (.ok v', b')) :
    Written h o name v v' b { b' with
      live := b'.live.modify h.id fun o' => { o' with values := o.values.set name v' } } := by
  obtain ⟨hadd, hkept, hfresh⟩ := kept_of_run hrun
  have ho' : b'.live[h.id]? = some o := hadd.live h.id o ho
  have hid : h.id < b.live.size := (Array.getElem?_eq_some_iff.mp ho).1
  -- a copy is new, so the object that is written to is another one
  have hapart : ∀ h', v' = .object h' → h'.id ≠ h.id := by
    intro h' hv'
    rw [hfresh h' hv']
    exact Nat.ne_of_gt hid
  have hothers : ∀ (i : Nat) (o' : LiveObject), i ≠ h.id → b'.live[i]? = some o' →
      (b'.live.modify h.id fun o' => { o' with values := o.values.set name v' })[i]? = some o' := by
    intro i o' hi hlive
    rw [Array.getElem?_modify, if_neg (Ne.symm hi), hlive]
  refine ⟨hadd.classes, hadd.objects, hown, hadmits, ?_, ?_, ?_, hapart⟩
  · exact hkept.later rfl fun h' hv' o' hlive => hothers h'.id o' (hapart h' hv') hlive
  · show (b'.live.modify h.id _)[h.id]? = _
    rw [Array.getElem?_modify, if_pos rfl, ho']
    rfl
  · exact fun i o' hi hlive => hothers i o' hi (hadd.live i o' hlive)

/-- **A write that succeeds** (`Written`) is one that the definition of the object admits, and it
changes the one value. -/
theorem written_of_put {h : Handle} {name : String} {v : Variant} {b b' : Broker}
    (hrun : (put h name v).run b = (.ok (), b')) :
    ∃ o v', b.live[h.id]? = some o ∧ Written h o name v v' b b' := by
  obtain ⟨⟨⟩, b₁, hnote, hguarded⟩ := run_bind_eq_ok.mp hrun
  cases hnote
  split at hguarded
  · -- a system property is refused
    obtain ⟨x, b₂, hthrow, -⟩ := run_bind_eq_ok.mp hguarded
    cases hthrow
  · rename_i hown
    obtain ⟨o, b₂, hlive, hchecked⟩ := run_bind_eq_ok.mp hguarded
    obtain ⟨ho, rfl⟩ := liveObject_eq_ok.mp hlive
    obtain ⟨⟨⟩, b₃, hcheck, hkeeping⟩ := run_bind_eq_ok.mp hchecked
    rw [run_ofExcept] at hcheck
    obtain ⟨hadmits, rfl⟩ := Prod.mk.inj hcheck
    obtain ⟨v', b₄, hkept, hset⟩ := run_bind_eq_ok.mp hkeeping
    cases hset
    have hwritten := written_of_kept ho (Bool.eq_false_iff.mpr hown)
      (ClassDef.checkAssignable_eq_ok.mp hadmits) hkept
    -- writing the round trip down left everything as it was
    exact ⟨o, v', ho, hwritten.before rfl rfl rfl⟩

/-- A value can be kept if it is no object, or one that is live. -/
theorem kept_succeeds {v : Variant} {b : Broker}
    (hlive : ∀ h, v = .object h → ∃ o, b.live[h.id]? = some o) :
    ∃ v' b', (kept v).run b = (.ok v', b') := by
  unfold kept
  split
  · rename_i h
    obtain ⟨o, ho⟩ := hlive h rfl
    obtain ⟨h', b', hbring, -, -⟩ := run_bring o b
    have hclone : (clone h).run b = (.ok h', b') := by
      unfold clone
      rw [run_bind_of_ok (liveObject_eq_ok.mpr ⟨ho, rfl⟩), hbring]
    exact ⟨_, b', run_bind_of_ok hclone⟩
  · exact ⟨v, b, rfl⟩

/-- **When a write succeeds**: the name is none of the system's, and the definition of the object
`Admits` the value. An object that is written has to be live. -/
theorem put_eq_ok_iff {h : Handle} {name : String} {v : Variant} {b : Broker} :
    ((put h name v).run b).1 = .ok () ↔
      isSystemName name = false ∧ (∃ o, b.live[h.id]? = some o ∧ o.definition.Admits name v) ∧
        ∀ h', v = .object h' → ∃ o, b.live[h'.id]? = some o := by
  constructor
  · intro hok
    obtain ⟨o, v', ho, hw⟩ := written_of_put (Prod.ext hok rfl)
    refine ⟨hw.own, ⟨o, ho, hw.admits⟩, ?_⟩
    rintro h' rfl
    cases hw.kept with
    | plain hv => exact absurd rfl (hv h')
    | copied ho' _ => exact ⟨_, ho'⟩
  · rintro ⟨hown, ⟨o, ho, hadmits⟩, hlive⟩
    have hnote : (note (.put name)).run b =
        (.ok (), { b with trail := .put name :: b.trail }) := rfl
    have hfound : (liveObject h).run { b with trail := .put name :: b.trail } = (.ok o, _) :=
      liveObject_eq_ok.mpr ⟨ho, rfl⟩
    obtain ⟨v', b', hkept⟩ := kept_succeeds (b := { b with trail := .put name :: b.trail }) hlive
    unfold put
    rw [run_bind_of_ok hnote, hown]
    show (Action.run (do
      let o ← liveObject h
      Action.ofExcept (o.definition.checkAssignable name v)
      let v ← kept v
      setLiveValues h (o.values.set name v)) _).1 = _
    rw [run_bind_of_ok hfound, ClassDef.checkAssignable_eq_ok.mpr hadmits,
      run_bind_of_ok (run_ofExcept (.ok ()) _), run_bind_of_ok hkept]
    rfl

end CimBroker.Broker
