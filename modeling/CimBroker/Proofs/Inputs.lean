/-
# CimBroker.Proofs.Inputs — what a routine sees of the inputs that were set

An invocation is prepared on an object in memory, its inputs are set, each as often as one likes and
in any order, and it is executed.  This module says what reaches the routine then: every declared
input in the order of its declaration, holding what the last setting of its name has become, or
nothing.

What a setting becomes is decided in two steps.  The form in which an argument is *sent* depends on
the declared type: an object is sent as its path where a reference is declared.  What is *kept* of
an object that is sent as itself is a copy, so that what happens to the object later does not show.

Other things may happen between the settings, as long as they spare what the call depends on: the
class, the place of the target in the store, and the objects that only the invocation knows of
(`Spares`).  The invariant is `Filled`: it holds from the beginning (`filled_begin`), one setting
keeps it (`Filled.set`), and so does everything that leaves the invocation's objects alone
(`Filled.later`).

`routine_sees_inputs` is the statement for a whole call, and `configuration_is_seen` a call in which
a reference, an object that has changed since, and an unset input arrive.  It is about calls whose
settings all succeed; what happens after one that fails is said in `CimBroker.Proofs.FailFast`.
-/
import CimBroker.Proofs.BrokerRuns
import CimBroker.Proofs.FailFast
import CimBroker.Proofs.ParameterObjects
import CimBroker.Proofs.Selection

namespace CimBroker.Broker

open CimBroker.Action

variable {τ ω : Type}

/-! ## What is sent and what arrives -/

/-- An input that was set, and the broker as it was then. -/
structure Setting where
  name : String
  argument : Argument
  before : Broker

/-- The last setting of a name, of settings of which the latest comes first. -/
def lastSet (name : String) (settings : List Setting) : Option Setting :=
  settings.find? fun s => s.name == name

/-- The form in which an argument is sent to an input of the given type. -/
inductive Sent (t : CimType) (before : Broker) : Argument → Variant → Prop
  | value (v : Variant) : Sent t before (.value v) v
  /-- Texts are an array, also when there are none. -/
  | texts (items : List String) : Sent t before (.texts items) (.array ⟨.text, items.map .text⟩)
  | path {h : Handle} {o : LiveObject} {path : String} (ht : t.isReference = true)
      (ho : before.live[h.id]? = some o) (hpath : o.path = some path) :
      Sent t before (.object h) (.text path)
  | object {h : Handle} (ht : t.isReference = false) : Sent t before (.object h) (.object h)

/-- What an argument has become by now: it is sent, and kept. -/
def Arrives (t : CimType) (before now : Broker) (x : Argument) (v : Variant) : Prop :=
  ∃ sent, Sent t before x sent ∧ Kept before now sent v

/-- What an input of the given type holds now: nothing if it was never set, and otherwise what its
last setting has become. -/
def Shown (t : CimType) (now : Broker) : Option Setting → Variant → Prop
  | none, v => v = .null
  | some s, v => Arrives t s.before now s.argument v

/-- A declared type admits what is kept of a value if it admits the value. -/
theorem Kept.accepted {before now : Broker} {v v' : Variant} (h : Kept before now v v')
    {t : CimType} (hv : t.accepts v = true) : t.accepts v' = true := by
  cases h with
  | plain => exact hv
  | copied ho ho' => exact (accepts_object t _ _).trans hv

/-! ## One setting -/

/-- The session over a broker in memory. -/
abbrev session (routines : Routines ω) (config : SessionConfig) (pace : Pace) :
    Service (Broker × ω) :=
  ⟨connection routines, config, pace⟩

variable (routines : Routines ω) (config : SessionConfig) (pace : Pace)

/-- The system has no value of its own under any other name. -/
theorem systemValue?_of_own (o : LiveObject) {name : String} (hown : isSystemName name = false) :
    o.systemValue? name = none := by
  unfold LiveObject.systemValue?
  rw [if_neg, if_neg]
  · rintro rfl
    exact absurd hown (by decide)
  · rintro rfl
    exact absurd hown (by decide)

/-- A property that is none of the system's has the type that its class declares. -/
theorem declared_of_read {o : LiveObject} {name : String} {v : Variant} {t : CimType}
    (hown : isSystemName name = false) (hread : o.read name = .ok (v, t)) :
    o.definition.declared? name = some t := by
  unfold LiveObject.read at hread
  rw [systemValue?_of_own o hown] at hread
  cases hdeclared : o.definition.declared? name with
  | none =>
    rw [hdeclared] at hread
    cases hread
  | some t' =>
    rw [hdeclared] at hread
    cases hread
    rfl

theorem written_of_access_put {h : Handle} {name : String} {v : Variant} {st st' : Broker × ω}
    (hrun : ((access.onFirst ω).put h name v).run st = (.ok (), st')) :
    ∃ o v', st.1.live[h.id]? = some o ∧ Written h o name v v' st.1 st'.1 := by
  have hput : (onFirst (put h name v)).run st = (.ok (), st') := hrun
  rw [run_onFirst] at hput
  obtain ⟨hok, rfl⟩ := Prod.mk.inj hput
  exact written_of_put (Prod.ext hok rfl)

/-- **One setting.** An input that is set successfully is sent in the form that its declared type
asks for (`Sent`), and `Written` to the parameter object. -/
theorem written_of_stage {i : Invocation} {name : String} {x : Argument} {st st' : Broker × ω}
    (hrun : (i.stage (session routines config pace) name x).run st = (.ok (), st')) :
    ∃ hp o t v v', i.inputs = some hp ∧ st.1.live[hp.id]? = some o ∧
      o.definition.declared? name = some t ∧ Sent t st.1 x v ∧
      Written hp o name v v' st.1 st'.1 := by
  obtain ⟨hp, st₁, hrequire, hrest⟩ := run_bind_eq_ok.mp hrun
  obtain ⟨hinputs, rfl⟩ := run_require_eq_ok.mp hrequire
  cases x with
  | value v =>
    obtain ⟨o, v', ho, hwritten⟩ := written_of_access_put hrest
    obtain ⟨t, ht, -⟩ := hwritten.admits
    exact ⟨hp, o, t, v, v', hinputs, ho, ht, .value v, hwritten⟩
  | texts items =>
    obtain ⟨o, v', ho, hwritten⟩ := written_of_access_put hrest
    obtain ⟨t, ht, -⟩ := hwritten.admits
    exact ⟨hp, o, t, .ofTexts items, v', hinputs, ho, ht, .texts items, hwritten⟩
  | object h =>
    obtain ⟨t, st₂, hdeclared, hform⟩ := run_bind_eq_ok.mp hrest
    obtain ⟨⟨o, v₀, ho, hread⟩, rfl⟩ := run_declaredType_eq_ok.mp hdeclared
    by_cases ht : t.isReference = true
    · rw [if_pos ht] at hform
      obtain ⟨path, st₃, hpath, hput⟩ := run_bind_eq_ok.mp hform
      obtain ⟨⟨o', ho', hpath'⟩, rfl⟩ := run_requirePath_eq_ok.mp hpath
      obtain ⟨o'', v', ho'', hwritten⟩ := written_of_access_put hput
      -- the reads in between changed nothing but the trail
      obtain rfl : o = o'' := Option.some.inj (ho.symm.trans ho'')
      refine ⟨hp, o, t, .text path, v', hinputs, ho, declared_of_read hwritten.own hread, ?_,
        hwritten.before rfl rfl rfl⟩
      exact .path ht ho' hpath'
    · rw [if_neg ht] at hform
      obtain ⟨o'', v', ho'', hwritten⟩ := written_of_access_put hform
      obtain rfl : o = o'' := Option.some.inj (ho.symm.trans ho'')
      refine ⟨hp, o, t, .object h, v', hinputs, ho, declared_of_read hwritten.own hread, ?_,
        hwritten.before rfl rfl rfl⟩
      exact .object (Bool.eq_false_iff.mpr ht)

/-! ## The parameter object on its way -/

theorem lastSet_cons (name : String) (s : Setting) (settings : List Setting) :
    lastSet name (s :: settings) = if s.name = name then some s else lastSet name settings := by
  unfold lastSet
  rw [List.find?_cons]
  by_cases h : s.name = name
  · simp [h]
  · rw [beq_eq_false_iff_ne.mpr h, if_neg h]

/-- What has arrived stays as it is, as long as its copy is left alone. -/
theorem Arrives.later {t : CimType} {before now now' : Broker} {x : Argument} {v : Variant}
    (h : Arrives t before now x v)
    (hcopy : ∀ h', v = .object h' → ∀ o, now.live[h'.id]? = some o → now'.live[h'.id]? = some o) :
    Arrives t before now' x v := by
  obtain ⟨sent, hsent, hkept⟩ := h
  exact ⟨sent, hsent, hkept.later rfl hcopy⟩

/-- The handle is one that only the invocation has: to its parameter object, or to an object that is
a value of it. -/
def Owns (i : Invocation) (b : Broker) (h : Handle) : Prop :=
  i.inputs = some h ∨ ∃ hp o name, i.inputs = some hp ∧ b.live[hp.id]? = some o ∧
    o.values.get? name = some (.object h)

/-- The invocation is still to be executed, and its parameter object holds what was set. -/
structure Filled (path method : String) (inputs : Declarations) (settings : List Setting)
    (values : Table Variant) (i : Invocation) (b : Broker) : Prop where
  call : i.path = path ∧ i.method = method
  fresh : i.failure = none ∧ i.executed = false ∧ i.ended = false
  carried : Carries inputs ⟨parameterClass inputs, none, false, values⟩ i.inputs b
  unset : ∀ name, lastSet name settings = none → values.get? name = none
  holds : ∀ name s, lastSet name settings = some s → ∃ t v,
    (parameterClass inputs).declared? name = some t ∧ values.get? name = some v ∧
      t.accepts v = true ∧ Arrives t s.before b s.argument v
  /-- The objects among the values are not the parameter object. -/
  apart : ∀ hp name h, i.inputs = some hp → values.get? name = some (.object h) → h.id ≠ hp.id

namespace Filled

variable {path method : String} {inputs : Declarations} {settings : List Setting}
  {values : Table Variant} {i : Invocation} {b : Broker}

/-- The objects among the values are the invocation's own. -/
theorem owns (h : Filled path method inputs settings values i b) {name : String} {t : CimType}
    {h' : Handle} (ht : (parameterClass inputs).declared? name = some t)
    (hvalue : values.get? name = some (.object h')) : Owns i b h' := by
  have hcarried := h.carried
  cases hinputs : i.inputs with
  | none =>
    -- nothing is declared where there is no parameter object
    rw [hinputs] at hcarried
    rw [show inputs = [] from hcarried] at ht
    cases ht
  | some hp =>
    rw [hinputs] at hcarried
    exact .inr ⟨hp, _, name, hinputs, hcarried.2, hvalue⟩

/-- **What spares the objects that the invocation `Owns` keeps what was set** (`Filled`). -/
theorem later (h : Filled path method inputs settings values i b) {b' : Broker}
    (hown : ∀ h', Owns i b h' → ∀ o, b.live[h'.id]? = some o → b'.live[h'.id]? = some o) :
    Filled path method inputs settings values i b' := by
  refine ⟨h.call, h.fresh, ?_, h.unset, ?_, h.apart⟩
  · exact h.carried.later fun hp hinputs => hown hp (.inl hinputs) _
  · intro name s hs
    obtain ⟨t, v, ht, hvalue, haccepts, harrives⟩ := h.holds name s hs
    refine ⟨t, v, ht, hvalue, haccepts, harrives.later ?_⟩
    rintro h' rfl
    exact hown h' (h.owns ht hvalue)

/-- **One more setting.** The name that is set holds what is kept of what is sent, and every other
name what it held (`Filled`). -/
theorem stage (h : Filled path method inputs settings values i b) {hp : Handle} {o : LiveObject}
    {t : CimType} {name : String} {x : Argument} {v v' : Variant} {b' : Broker}
    (hinputs : i.inputs = some hp) (ho : b.live[hp.id]? = some o)
    (ht : o.definition.declared? name = some t) (hsent : Sent t b x v)
    (hw : Written hp o name v v' b b') :
    Filled path method inputs (⟨name, x, b⟩ :: settings) (values.set name v') i b' := by
  have hcarried := h.carried
  rw [hinputs] at hcarried
  obtain ⟨hne, hlive⟩ := hcarried
  obtain rfl : o = ⟨parameterClass inputs, none, false, values⟩ :=
    Option.some.inj (ho.symm.trans hlive)
  have haccepts : t.accepts v' = true := by
    obtain ⟨t', ht', hv⟩ := hw.admits
    obtain rfl : t = t' := Option.some.inj (ht.symm.trans ht')
    exact hw.kept.accepted hv
  refine ⟨h.call, h.fresh, ?_, ?_, ?_, ?_⟩
  · rw [hinputs]
    exact ⟨hne, hw.there⟩
  · intro other hunset
    rw [lastSet_cons] at hunset
    split at hunset
    · cases hunset
    · rename_i hname
      rw [Table.get?_set, if_neg hname]
      exact h.unset other hunset
  · intro other s hs
    rw [lastSet_cons] at hs
    rw [Table.get?_set]
    split at hs
    · rename_i hname
      cases hs
      obtain rfl : name = other := hname
      rw [if_pos rfl]
      exact ⟨t, v', ht, rfl, haccepts, v, hsent, hw.kept⟩
    · rename_i hname
      rw [if_neg hname]
      obtain ⟨t', w, ht', hvalue, hadmits, harrives⟩ := h.holds other s hs
      refine ⟨t', w, ht', hvalue, hadmits, harrives.later ?_⟩
      rintro h' rfl o' ho'
      exact hw.others h'.id o' (h.apart hp other h' hinputs hvalue) ho'
  · intro hp' other h' hinputs' hvalue
    obtain rfl : hp = hp' := Option.some.inj (hinputs.symm.trans hinputs')
    rw [Table.get?_set] at hvalue
    split at hvalue
    · exact hw.apart h' (Option.some.inj hvalue)
    · exact h.apart hp other h' hinputs hvalue

/-- The invocation's own objects are live. -/
theorem live_of_owns (h : Filled path method inputs settings values i b) {h' : Handle}
    (hown : Owns i b h') : ∃ o, b.live[h'.id]? = some o := by
  have hcarried := h.carried
  rcases hown with hinputs | ⟨hp, o, name, hinputs, ho, hvalue⟩
  · rw [hinputs] at hcarried
    exact ⟨_, hcarried.2⟩
  · rw [hinputs] at hcarried
    obtain rfl := Option.some.inj (ho.symm.trans hcarried.2)
    cases hlast : lastSet name settings with
    | none =>
      rw [h.unset name hlast] at hvalue
      cases hvalue
    | some s =>
      -- an object among the values is a copy
      obtain ⟨t, v, -, hv, -, sent, -, hkept⟩ := h.holds name s hlast
      obtain rfl := Option.some.inj (hv.symm.trans hvalue)
      cases hkept with
      | plain hplain => exact absurd rfl (hplain h')
      | copied _ hcopy => exact ⟨_, hcopy⟩

/-- Writing a call down leaves everything as it is. -/
theorem begun (h : Filled path method inputs settings values i b) (path' method' : String) :
    Filled path method inputs settings values i (Broker.begun path' method' b) :=
  h.later fun _ _ _ ho => ho

end Filled

/-! ## The call as a whole -/

/-- The target is stored as an instance of the class, under the path of an instance, and every class
is known by an identifier. -/
structure Hosts (path : String) (c : ClassDef) (b : Broker) : Prop where
  stored : ∃ o, b.objects.get? path = some o ∧ o.className = c.name
  defined : b.classes.get? c.name = some c
  isInstance : ∃ n, path = instancePath c.name n
  identifiers : ∀ name c', b.classes.get? name = some c' →
    ∃ identifier : Wql.Identifier, identifier.text = name

namespace Hosts

variable {path : String} {c : ClassDef} {b : Broker}

theorem congr (h : Hosts path c b) {b' : Broker} (hclasses : b'.classes = b.classes)
    (hobjects : b'.objects = b.objects) : Hosts path c b' := by
  obtain ⟨hstored, hdefined, hinstance, hidentifiers⟩ := h
  rw [← hobjects] at hstored
  rw [← hclasses] at hdefined hidentifiers
  exact ⟨hstored, hdefined, hinstance, hidentifiers⟩

/-- No class is named like the target: the path of an instance has an equals sign. -/
theorem unnamed (h : Hosts path c b) : b.classes.get? path = none := by
  cases hc : b.classes.get? path with
  | none => rfl
  | some c' =>
    obtain ⟨identifier, hidentifier⟩ := h.identifiers path c' hc
    obtain ⟨n, hpath⟩ := h.isInstance
    have hequals : '=' ∈ identifier.text.toList := by
      rw [hidentifier, hpath, instancePath]
      simp
    exact absurd rfl (identifier.plain '=' hequals).2

/-- The method is found where the target is stored. -/
theorem run_methodAt (h : Hosts path c b) {method : String} {m : MethodDef} {r : Routine}
    (hm : c.method? method = some m) (hr : m.routine = some r) :
    (methodAt path method).run b = (.ok (m, r), b) := by
  obtain ⟨o, ho, hclass⟩ := h.stored
  unfold methodAt classNameAt storedAt classNamed
  simp [state, require, run_bind, h.unnamed, ho, hclass, h.defined, hm, hr]

end Hosts

/-- The handle shows the target. -/
structure Shows (target : Handle) (path : String) (c : ClassDef) (b : Broker) : Prop extends
    Hosts path c b where
  shown : ∃ o, b.live[target.id]? = some o ∧ o.path = some path ∧ o.definition.name = c.name

/-- What happens beside an invocation leaves its objects alone, and the target and its class where
they are. -/
structure Spares (path : String) (c : ClassDef) (i : Invocation) (b b' : Broker) : Prop where
  hosts : Hosts path c b'
  owned : ∀ h, Owns i b h → b'.live[h.id]? = b.live[h.id]?

/-- A write to any other object spares the invocation, also one to an object that was set. -/
theorem Filled.spares {path method : String} {inputs : Declarations} {settings : List Setting}
    {values : Table Variant} {i : Invocation} {b b' : Broker} {c : ClassDef}
    (h : Filled path method inputs settings values i b) (hhosts : Hosts path c b) {other : Handle}
    {o : LiveObject} {name : String} {v v' : Variant} (hw : Written other o name v v' b b')
    (hother : ¬ Owns i b other) : Spares path c i b b' := by
  refine ⟨hhosts.congr hw.classes hw.objects, fun h' hown => ?_⟩
  obtain ⟨o', ho'⟩ := h.live_of_owns hown
  have hne : h'.id ≠ other.id := by
    intro heq
    obtain rfl : h' = other := congrArg Handle.mk heq
    exact hother hown
  rw [ho', hw.others h'.id o' hne ho']

/-- An invocation that was begun on a target, whose inputs were set, each with success, and beside
which other things happened. -/
inductive Filling (s : Service (Broker × τ)) (target : Handle) (method path : String) (c : ClassDef)
    (start : Broker × τ) : Invocation → Broker × τ → List Setting → Prop
  | begun : Filling s target method path c start ((Invocation.begin s target method).run start).1
      ((Invocation.begin s target method).run start).2 []
  | set {i : Invocation} {st : Broker × τ} {settings : List Setting}
      (h : Filling s target method path c start i st settings) (name : String) (x : Argument)
      (hok : ((i.set s name x).run st).1.failure = none) :
      Filling s target method path c start ((i.set s name x).run st).1 ((i.set s name x).run st).2
        (⟨name, x, st.1⟩ :: settings)
  | meanwhile {i : Invocation} {st : Broker × τ} {settings : List Setting}
      (h : Filling s target method path c start i st settings) {st' : Broker × τ}
      (hspares : Spares path c i st.1 st'.1) :
      Filling s target method path c start i st' settings

theorem run_begin {σ : Type} (s : Service σ) (target : Handle) (method : String) (st : σ) :
    (Invocation.begin s target method).run st =
      (.prepared method ((Invocation.preparation s target method).run st).1,
        ((Invocation.preparation s target method).run st).2) := rfl

section Preparation

variable {path : String} {c : ClassDef} {target : Handle}

/-- The class definition is found by the name that the target bears. -/
theorem run_classOf {st : Broker × ω} {o : LiveObject} (ho : st.1.live[target.id]? = some o)
    (hname : o.definition.name = c.name) (hc : st.1.classes.get? c.name = some c) :
    ∃ h b', ((session routines config pace).classOf target).run st = (.ok h, b', st.2) ∧
      st.1.Extends b' ∧ b'.live[h.id]? = some ⟨c, some c.name, true, .empty⟩ := by
  have hread := extends_note (.get classProperty :: st.1.trail) st.1
  obtain ⟨h, b', hfetch, hadd, hlive⟩ := run_fetch_class (b := readFrom classProperty st.1)
    (show (readFrom classProperty st.1).classes.get? c.name = some c from hc)
  refine ⟨h, b', ?_, hread.trans hadd, hlive⟩
  have hfetched : ((session routines config pace).connection.fetch c.name).run
      (readFrom classProperty st.1, st.2) = (.ok (some h), b', st.2) := run_onFirst_of hfetch
  have hnamed : ((session routines config pace).access.className target).run st =
      (.ok c.name, readFrom classProperty st.1, st.2) := hname ▸ run_className ho
  unfold Service.classOf Service.getObject
  rw [run_bind_of_ok hnamed, run_bind_of_ok hfetched]
  rfl

/-- **An invocation begins** on a target that is stored, and has a blank parameter object, if its
method takes inputs. -/
theorem filled_begin {st : Broker × ω} (h : Shows target path c st.1) {method : String}
    {m : MethodDef} (hm : c.method? method = some m) :
    let begun := (Invocation.begin (session routines config pace) target method).run st
    Filled path method m.inputs [] .empty begun.1 begun.2.1 ∧ Hosts path c begun.2.1 := by
  obtain ⟨o, ho, hpath, hname⟩ := h.shown
  have hrequire : ((session routines config pace).access.requirePath target).run st =
      (.ok path, readFrom pathProperty st.1, st.2) :=
    run_requirePath_eq_ok.mpr ⟨⟨o, ho, hpath⟩, rfl⟩
  have hread : (readFrom pathProperty st.1, st.2).1.live[target.id]? = some o := ho
  obtain ⟨definition, b₁, hclass, hadd₁, hlive₁⟩ :=
    run_classOf routines config pace hread hname h.defined
  have hdefinition : (b₁, st.2).1.live[definition.id]? = some ⟨c, some c.name, true, .empty⟩ :=
    hlive₁
  obtain ⟨inputs, b₂, hparameters, hadd₂, hcarries⟩ := run_parameters hdefinition hm
  have hprepared : (Invocation.preparation (session routines config pace) target method).run st =
      (.ok (path, inputs), b₂, st.2) := by
    unfold Invocation.preparation
    rw [run_bind_of_ok hrequire, run_bind_of_ok hclass]
    have hfound : ((session routines config pace).access.parameters definition method).run
        (b₁, st.2) = (.ok inputs, b₂, st.2) := hparameters
    rw [run_bind_of_ok hfound]
    rfl
  have hbegun : (Invocation.begin (session routines config pace) target method).run st =
      (.prepared method (.ok (path, inputs)), b₂, st.2) := by
    rw [run_begin, hprepared]
  rw [hbegun]
  have hadd := (extends_note (.get pathProperty :: st.1.trail) st.1).trans (hadd₁.trans hadd₂)
  refine ⟨⟨⟨rfl, rfl⟩, ⟨rfl, rfl, rfl⟩, hcarries, fun _ _ => rfl, ?_, ?_⟩,
    h.toHosts.congr hadd.classes hadd.objects⟩
  · rintro name s ⟨⟩
  · rintro hp name h' - ⟨⟩

end Preparation

section Settings

variable {routines config pace} {path : String} {c : ClassDef} {target : Handle} {method : String}
  {m : MethodDef} {start st : Broker × ω} {i : Invocation} {settings : List Setting}

/-- One successful setting of an invocation that is filled. -/
theorem Filled.set {values : Table Variant}
    (h : Filled path method m.inputs settings values i st.1) (hhosts : Hosts path c st.1)
    (name : String) (x : Argument)
    (hok : ((i.set (session routines config pace) name x).run st).1.failure = none) :
    let after := (i.set (session routines config pace) name x).run st
    (∃ values', Filled path method m.inputs (⟨name, x, st.1⟩ :: settings) values' after.1
      after.2.1) ∧ Hosts path c after.2.1 := by
  obtain ⟨hfailure, -, hended⟩ := h.fresh
  rw [Invocation.set_open _ st name x hfailure hended] at hok ⊢
  rcases hstage : (i.stage (session routines config pace) name x).run st with ⟨outcome, st'⟩
  rw [hstage] at hok
  cases outcome with
  | error e =>
    -- a setting that failed would have left its failure behind
    rw [Invocation.noting, Invocation.failure_fail hfailure] at hok
    cases hok
  | ok done =>
    obtain ⟨hp, o, t, v, v', hinputs, ho, ht, hsent, hw⟩ := written_of_stage _ _ _ hstage
    exact ⟨⟨_, h.stage hinputs ho ht hsent hw⟩, hhosts.congr hw.classes hw.objects⟩

/-- **Along the way**, through any `Filling`, the parameter object holds what was set (`Filled`),
and the target stays where it is. -/
theorem Filling.filled
    (h : Filling (session routines config pace) target method path c start i st settings)
    (hshows : Shows target path c start.1) (hm : c.method? method = some m) :
    (∃ values, Filled path method m.inputs settings values i st.1) ∧ Hosts path c st.1 := by
  induction h with
  | begun =>
    obtain ⟨hfilled, hhosts⟩ := filled_begin routines config pace hshows hm
    exact ⟨⟨_, hfilled⟩, hhosts⟩
  | set h name x hok ih =>
    obtain ⟨⟨values, hfilled⟩, hhosts⟩ := ih
    exact hfilled.set hhosts name x hok
  | meanwhile h hspares ih =>
    obtain ⟨⟨values, hfilled⟩, -⟩ := ih
    refine ⟨⟨values, hfilled.later fun h' hown o ho => ?_⟩, hspares.hosts⟩
    rw [hspares.owned h' hown, ho]

end Settings

/-! ## What the routine sees -/

/-- The routines, which also keep a list of the calls that they carried out. -/
def logged (routines : Routines ω) : Routines (ω × List (Routine × MethodCall)) :=
  fun routine call => ofRun fun st =>
    let ran := (routines routine call).run (st.1, st.2.1)
    (ran.1, ran.2.1, ran.2.2, st.2.2 ++ [(routine, call)])

/-- What a routine sees of the object that carries the inputs, if there is one. -/
def seen (inputs : Option Handle) (o : LiveObject) : PropertyBag :=
  inputs.elim .empty fun _ => o.bag

theorem run_inputBag {parameters : Declarations} {o : LiveObject} {inputs : Option Handle}
    {b : Broker} (h : Carries parameters o inputs b) :
    (inputBag inputs).run b = (.ok (seen inputs o), b) := by
  cases inputs with
  | none => rfl
  | some hp =>
    unfold inputBag properties
    rw [run_bind_of_ok (liveObject_eq_ok.mpr ⟨h.2, rfl⟩)]
    rfl

/-- A call is opened with what the parameter object holds. -/
theorem run_opening {path method : String} {c : ClassDef} {m : MethodDef} {r : Routine}
    {settings : List Setting} {values : Table Variant} {i : Invocation} {b : Broker}
    (h : Filled path method m.inputs settings values i b) (hhosts : Hosts path c b)
    (hm : c.method? method = some m) (hr : m.routine = some r) :
    (opening path method i.inputs).run b =
      (.ok (m, r, ⟨path, method, seen i.inputs ⟨parameterClass m.inputs, none, false, values⟩⟩),
        begun path method b) := by
  have hhosts' : Hosts path c (Broker.begun path method b) := hhosts.congr rfl rfl
  have hmethod := hhosts'.run_methodAt hm hr
  unfold opening
  rw [run_bind_of_ok (show (note (.invoke path method)).run b = (.ok (), begun path method b) from
    rfl), run_bind_of_ok hmethod, run_bind_of_ok (run_inputBag (h.begun path method).carried)]
  rfl

/-- Once a call is opened, its routine runs, once and on what was found. -/
theorem invoke_logged {path method : String} {inputs : Option Handle} {m : MethodDef} {r : Routine}
    {call : MethodCall} {st : Broker × ω × List (Routine × MethodCall)}
    (h : (opening path method inputs).run st.1 = (.ok (m, r, call), begun path method st.1)) :
    ((invoke (logged routines) path method inputs).run st).2.2.2 = st.2.2 ++ [(r, call)] := by
  have hopened : (onFirst (opening path method inputs)).run st =
      (.ok (m, r, call), begun path method st.1, st.2) := run_onFirst_of h
  -- the list of calls is written by the routine alone, whatever comes of it
  have hran : ((logged routines r call).run (begun path method st.1, st.2)).2.2.2 =
      st.2.2 ++ [(r, call)] := rfl
  rw [invoke_eq, run_bind_of_ok hopened, run_bind]
  rcases hrun : (logged routines r call).run (begun path method st.1, st.2) with ⟨outcome, st'⟩
  rw [hrun] at hran
  cases outcome with
  | error e => exact hran
  | ok results => exact hran

/-- Where no name is declared twice, each one is declared with the type beside it. -/
theorem declared_of_mem {parameters : Declarations} (h : (parameters.map Prod.fst).Nodup)
    {p : String × CimType} (hp : p ∈ parameters) :
    (parameterClass parameters).declared? p.1 = some p.2 := by
  show (parameters.find? fun q => q.1 == p.1).map Prod.snd = some p.2
  induction parameters with
  | nil => cases hp
  | cons q rest ih =>
    rw [List.map_cons, List.nodup_cons] at h
    rw [List.find?_cons]
    rcases List.mem_cons.mp hp with rfl | hrest
    · simp
    · -- the name stands further on, so it is not the first
      have hne : q.1 ≠ p.1 := fun heq => h.1 (heq ▸ List.mem_map_of_mem hrest)
      rw [beq_eq_false_iff_ne.mpr hne]
      exact ih h.2 hrest

/-- The parameter object shows each declared input with what its last setting has become. -/
theorem Filled.shown {path method : String} {inputs : Declarations} {settings : List Setting}
    {values : Table Variant} {i : Invocation} {b : Broker}
    (h : Filled path method inputs settings values i b) (hdistinct : (inputs.map Prod.fst).Nodup)
    {input : String × CimType} (hmem : input ∈ inputs) :
    let v := (values.get? input.1).getD .null
    input.2.accepts v = true ∧ Shown input.2 b (lastSet input.1 settings) v := by
  cases hlast : lastSet input.1 settings with
  | none =>
    rw [h.unset input.1 hlast]
    exact ⟨rfl, rfl⟩
  | some s =>
    obtain ⟨t, v, ht, hvalue, haccepts, harrives⟩ := h.holds input.1 s hlast
    rw [declared_of_mem hdistinct hmem] at ht
    cases ht
    rw [hvalue]
    exact ⟨haccepts, harrives⟩

/-- What a routine sees of the inputs of its method, after the given settings.  Without inputs there
are no properties at all; otherwise there are the class and the path of the parameter object, and
then each declared input in order, with a value that its declared type accepts. -/
structure Sees (inputs : Declarations) (settings : List Setting) (now : Broker)
    (bag : PropertyBag) : Prop where
  nothing : inputs = [] → bag = .empty
  everything : inputs ≠ [] → ∃ value : String → Variant,
    bag.properties =
      ⟨classProperty, .text "__PARAMETERS", .scalarOf .string⟩ ::
      ⟨pathProperty, .null, .scalarOf .string⟩ ::
      inputs.map (fun input => ⟨input.1, value input.1, input.2⟩) ∧
    ∀ input ∈ inputs, input.2.accepts (value input.1) = true ∧
      Shown input.2 now (lastSet input.1 settings) (value input.1)

theorem Filled.sees {path method : String} {inputs : Declarations} {settings : List Setting}
    {values : Table Variant} {i : Invocation} {b : Broker}
    (h : Filled path method inputs settings values i b) (hdistinct : (inputs.map Prod.fst).Nodup) :
    Sees inputs settings b (seen i.inputs ⟨parameterClass inputs, none, false, values⟩) := by
  have hcarried := h.carried
  cases hinputs : i.inputs with
  | none =>
    rw [hinputs] at hcarried
    exact ⟨fun _ => rfl, fun hsome => absurd hcarried hsome⟩
  | some hp =>
    rw [hinputs] at hcarried
    refine ⟨fun hnone => absurd hnone hcarried.1, fun _ => ?_⟩
    exact ⟨fun name => (values.get? name).getD .null, rfl, fun input hmem => h.shown hdistinct hmem⟩

/-- **What a routine sees of its inputs.** Take an object that is stored in a broker whose classes
are named by identifiers (`Shows`), a method that its class declares with distinct input names and a
routine, and an invocation begun on the object, with inputs set, each with success, and with other
things happening in between that leave the class, the object's place in the store and the
invocation's own objects alone (`Filling`).  Executing it runs the routine exactly once (`logged`),
with the path of the object, and with every declared input in its place, holding what the last
setting of its name has become, or nothing if it was never set (`Sees`). -/
theorem routine_sees_inputs {routines : Routines ω} {config : SessionConfig} {pace : Pace}
    {start st : Broker × ω × List (Routine × MethodCall)} {target : Handle} {path method : String}
    {c : ClassDef} {m : MethodDef} {r : Routine} {i : Invocation} {settings : List Setting}
    (hshows : Shows target path c start.1) (hm : c.method? method = some m)
    (hr : m.routine = some r) (hdistinct : (m.inputs.map Prod.fst).Nodup)
    (hfilling : Filling (session (logged routines) config pace) target method path c start i st
      settings) :
    ∃ bag, ((i.execute (session (logged routines) config pace)).run st).2.2.2 =
        st.2.2 ++ [(r, ⟨path, method, bag⟩)] ∧
      Sees m.inputs settings (begun path method st.1) bag := by
  obtain ⟨⟨values, hfilled⟩, hhosts⟩ := hfilling.filled hshows hm
  obtain ⟨hfailure, hexecuted, hended⟩ := hfilled.fresh
  refine ⟨seen i.inputs ⟨parameterClass m.inputs, none, false, values⟩, ?_,
    (hfilled.begun path method).sees hdistinct⟩
  rw [Invocation.execute_open _ st hfailure hexecuted hended, hfilled.call.1, hfilled.call.2]
  exact invoke_logged routines (run_opening hfilled hhosts hm hr)

/-- A class of settings. -/
def settingClass : ClassDef := .ofProperties "Msvm_Setting" [("InstanceID", .scalarOf .string)]

/-- A method with inputs of every kind. -/
def configure : MethodDef :=
  ⟨"Configure", [("Target", .scalarOf .reference), ("Embedded", .scalarOf .object),
    ("Names", .arrayOf .string), ("Count", .scalarOf (.integer false .w32))], [], some ⟨0⟩⟩

/-- A class of services with that method. -/
def serviceClass : ClassDef := ⟨"Msvm_Service", [], [configure]⟩

/-- A broker with a setting and a service, both of which were fetched. -/
def served : Broker :=
  [.defineClass settingClass, .defineClass serviceClass,
    .insert "Msvm_Setting" [("InstanceID", .text "s1")], .insert "Msvm_Service" [],
    .object (instancePath "Msvm_Service" 2),
    .object (instancePath "Msvm_Setting" 1)].foldl Request.after .empty

theorem served_shows : Shows ⟨0⟩ (instancePath "Msvm_Service" 2) serviceClass served := by
  refine ⟨⟨⟨_, rfl, rfl⟩, rfl, ⟨2, rfl⟩, ?_⟩, ⟨_, rfl, rfl, rfl⟩⟩
  intro name c hc
  have hclasses : served.classes =
    ⟨[("Msvm_Service", serviceClass), ("Msvm_Setting", settingClass)]⟩ := rfl
  rw [hclasses] at hc
  simp only [Table.get?, Table.lookup?] at hc
  split at hc
  · rename_i hname
    exact ⟨⟨"Msvm_Service", by decide, by decide⟩, hname⟩
  · split at hc
    · rename_i hname
      exact ⟨⟨"Msvm_Setting", by decide, by decide⟩, hname⟩
    · cases hc

/-- A session in which routines do nothing but be listened to. -/
def listening : Service (Broker × Unit × List (Routine × MethodCall)) :=
  session (logged fun _ _ => pure []) .standard ⟨0, fun _ _ => ⟨0⟩⟩

/-- A call on the service, with the setting as a reference and as an object. -/
def configuring : Invocation × (Broker × Unit × List (Routine × MethodCall)) :=
  let calls : StateM (Broker × Unit × List (Routine × MethodCall)) Invocation := do
    let i ← Invocation.begin listening ⟨0⟩ "Configure"
    let i ← i.set listening "Target" (.object ⟨1⟩)
    i.set listening "Embedded" (.object ⟨1⟩)
  calls.run (served, (), [])

/-- The setting that was fetched is not the call's own: what is embedded is a copy. -/
theorem configuring_not_owns : ¬ Owns configuring.1 configuring.2.1 ⟨1⟩ := by
  have hinputs : configuring.1.inputs = some ⟨4⟩ := by decide +kernel
  have hvalues : (configuring.2.1.live[4]?).map LiveObject.values =
      some ⟨[("Embedded", .object ⟨5⟩), ("Target", .text (instancePath "Msvm_Setting" 1))]⟩ := by
    decide +kernel
  rintro (h | ⟨hp, o, name, h, ho, hvalue⟩)
  · cases hinputs.symm.trans h
  · cases hinputs.symm.trans h
    rw [show (⟨4⟩ : Handle).id = 4 from rfl] at ho
    rw [ho] at hvalues
    rw [Option.some.inj hvalues] at hvalue
    simp only [Table.get?, Table.lookup?] at hvalue
    split at hvalue
    · cases hvalue
    · split at hvalue
      · cases hvalue
      · cases hvalue

/-- A reference, an object that has changed since, no names after one, and no count. -/
theorem configuration_is_seen :
    ∃ i st settings,
      Filling listening ⟨0⟩ "Configure" (instancePath "Msvm_Service" 2) serviceClass
        (served, (), []) i st settings ∧
      settings.map (fun s => (s.name, s.argument)) =
        [("Names", .texts []), ("Names", .texts ["a"]), ("Embedded", .object ⟨1⟩),
          ("Target", .object ⟨1⟩)] ∧
      ∃ bag, ((i.execute listening).run st).2.2.2 =
          st.2.2 ++ [(⟨0⟩, ⟨instancePath "Msvm_Service" 2, "Configure", bag⟩)] ∧
        Sees configure.inputs settings (begun (instancePath "Msvm_Service" 2) "Configure" st.1)
          bag := by
  have hbegun : Filling listening ⟨0⟩ "Configure" (instancePath "Msvm_Service" 2) serviceClass
      (served, (), []) _ _ [] := .begun
  have htarget := hbegun.set "Target" (.object ⟨1⟩) (by decide +kernel)
  have hembedded : Filling listening ⟨0⟩ "Configure" (instancePath "Msvm_Service" 2) serviceClass
      (served, (), []) configuring.1 configuring.2 _ :=
    htarget.set "Embedded" (.object ⟨1⟩) (by decide +kernel)
  obtain ⟨⟨values, hfilled⟩, hhosts⟩ := hembedded.filled served_shows rfl
  have hput : ((put ⟨1⟩ "InstanceID" (.text "s2")).run configuring.2.1).1 = .ok () := by
    decide +kernel
  obtain ⟨o, v, -, hwritten⟩ := written_of_put (Prod.ext hput rfl)
  have hchanged : Filling listening ⟨0⟩ "Configure" (instancePath "Msvm_Service" 2) serviceClass
      (served, (), []) configuring.1 (_, configuring.2.2) _ :=
    hembedded.meanwhile (hfilled.spares hhosts hwritten configuring_not_owns)
  have hname := hchanged.set "Names" (.texts ["a"]) (by decide +kernel)
  have hnames := hname.set "Names" (.texts []) (by decide +kernel)
  exact ⟨_, _, _, hnames, rfl, routine_sees_inputs served_shows rfl rfl (by decide) hnames⟩

end CimBroker.Broker
