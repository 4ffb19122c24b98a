/-
# CimBroker.Proofs.MethodOutputs — what a caller reads of the outputs of a method

A routine yields results, each under a name, as many as it likes and in any order.  If all of them
are admitted by the declared outputs, an object is made of them that only the invocation knows of,
and the caller reads it output by output.  This module says what comes of that: the last result
under a name, decoded, and nothing where there is none.

One case is different.  Where a reference is declared, a path is held and an object is wanted, the
caller gets the object at that path, as it is stored at the moment of the reading (`OutputReading`).
So the same output can be read twice and show two states of one object, and it can be read in vain
if the object is gone by then.

The invariant is `HoldsOutputs`.  Executing establishes it (`execute_outputs`), and every further
step of the invocation but the end either keeps it or leaves a failure behind
(`HoldsOutputs.perform`).

`outputs_read_back` is the statement.  It is about the broker in memory, since what a fetch hands
out is part of it (`Offers`), and about methods with outputs whose names are distinct and not the
system's.
-/
import CimBroker.Proofs.IssuedPaths
import CimBroker.Proofs.QueuedChanges

namespace CimBroker.Broker

open CimBroker.Action

variable {ω : Type}

/-! ## The object of the outputs -/

/-- The declared outputs admit each result. -/
def AllAdmitted (outputs : Declarations) (results : List (String × Variant)) : Prop :=
  ∀ name v, (name, v) ∈ results → (parameterClass outputs).Admits name v

/-- A result is admitted if its name is declared with a type that accepts it. -/
theorem admits_iff {outputs : Declarations} (hdistinct : (outputs.map Prod.fst).Nodup)
    {name : String} {v : Variant} : (parameterClass outputs).Admits name v ↔
      ∃ declared, (name, declared) ∈ outputs ∧ declared.accepts v = true := by
  constructor
  · rintro ⟨declared, hdeclared, haccepts⟩
    have hfound : (outputs.find? fun p => p.1 == name).map Prod.snd = some declared := hdeclared
    obtain ⟨p, hp, rfl⟩ := Option.map_eq_some_iff.mp hfound
    obtain rfl : p.1 = name := by simpa using List.find?_some hp
    exact ⟨p.2, List.mem_of_find?_eq_some hp, haccepts⟩
  · rintro ⟨declared, hmem, haccepts⟩
    exact ⟨declared, declared_of_mem hdistinct hmem, haccepts⟩

theorem not_allAdmitted_iff {outputs : Declarations} (hdistinct : (outputs.map Prod.fst).Nodup)
    {results : List (String × Variant)} : ¬ AllAdmitted outputs results ↔
      ∃ result ∈ results, ∀ declared, (result.1, declared) ∈ outputs →
        declared.accepts result.2 = false := by
  simp only [AllAdmitted, admits_iff hdistinct]
  constructor
  · intro hnot
    simp only [not_forall, not_exists, not_and, Bool.not_eq_true] at hnot
    obtain ⟨name, v, hmem, hrefused⟩ := hnot
    exact ⟨(name, v), hmem, hrefused⟩
  · rintro ⟨⟨name, v⟩, hmem, hrefused⟩ hall
    obtain ⟨declared, hdeclared, haccepts⟩ := hall name v hmem
    exact absurd (haccepts.symm.trans (hrefused declared hdeclared)) nofun

/-- Outputs are made of results that are all admitted; otherwise nothing is. -/
theorem bringOutputs_cases {m : MethodDef} (hsome : m.outputs ≠ [])
    (results : List (String × Variant)) (b : Broker) :
    (¬ AllAdmitted m.outputs results ∧ ∃ e, (bringOutputs m results).run b = (.error e, b)) ∨
      AllAdmitted m.outputs results ∧ ∃ values,
        (∀ name, values.get? name = lastGiven name results) ∧
        (bringOutputs m results).run b = (.ok (some ⟨b.live.size⟩),
          { b with live := b.live.push ⟨parameterClass m.outputs, none, false, values⟩ }) := by
  have hclass : ClassDef.ofParameters? m.outputs = some (parameterClass m.outputs) := by
    unfold ClassDef.ofParameters?
    cases houtputs : m.outputs with
    | nil => exact absurd houtputs hsome
    | cons output rest => rfl
  unfold bringOutputs
  rw [hclass]
  cases hassign : (parameterClass m.outputs).assign .empty results with
  | error e =>
    refine .inl ⟨fun hall => ?_, e, by simp [run_bind, hassign]⟩
    cases hassign.symm.trans (ClassDef.assign_eq_ok_iff.mpr ⟨hall, rfl⟩)
  | ok values =>
    obtain ⟨hall, hvalues⟩ := ClassDef.assign_eq_ok_iff.mp hassign
    refine .inr ⟨hall, values, fun name => ?_, ?_⟩
    · rw [← hvalues, Table.get?_foldl_set, Table.get?_empty, Option.or_none]
      rfl
    · simp [run_bind, hassign, bringInstance, bring, Except.map]

/-- What an output holds: the last result under its name, and nothing if there is none. -/
def outputValue (results : List (String × Variant)) (name : String) : Variant :=
  (lastGiven name results).getD .null

/-- The invocation is executed, nothing has failed, and its outputs hold the last result under each
name. -/
structure HoldsOutputs (outputs : Declarations) (results : List (String × Variant))
    (i : Invocation) (b : Broker) : Prop where
  failure : i.failure = none
  executed : i.executed = true
  ended : i.ended = false
  /-- The inputs were handed over. -/
  inputs : i.inputs = none
  held : ∃ h values, i.outputs = some h ∧
    b.live[h.id]? = some ⟨parameterClass outputs, none, false, values⟩ ∧
    ∀ name, values.get? name = lastGiven name results

namespace HoldsOutputs

variable {outputs : Declarations} {results : List (String × Variant)} {i : Invocation}
  {b b' : Broker}

/-- What leaves the object of the outputs alone keeps them. -/
theorem later (h : HoldsOutputs outputs results i b)
    (hlive : ∀ h', i.outputs = some h' → ∀ o, b.live[h'.id]? = some o → b'.live[h'.id]? = some o) :
    HoldsOutputs outputs results i b' := by
  obtain ⟨h', values, houtputs, ho, hvalues⟩ := h.held
  exact ⟨h.failure, h.executed, h.ended, h.inputs, h', values, houtputs, hlive h' houtputs _ ho,
    hvalues⟩

/-- The outputs can be read, and a declared one shows its type and what it holds. -/
theorem readAt (h : HoldsOutputs outputs results i b) (hdistinct : (outputs.map Prod.fst).Nodup)
    {name : String} {declared : CimType} (hmem : (name, declared) ∈ outputs)
    (hown : isSystemName name = false) :
    ∃ h', i.readable name = .ok h' ∧
      Broker.readAt h' name b = .ok (outputValue results name, declared) := by
  obtain ⟨h', values, houtputs, ho, hvalues⟩ := h.held
  refine ⟨h', by simp [Invocation.readable, h.ended, h.executed, houtputs], ?_⟩
  have hdeclared : (parameterClass outputs).declared? name = some declared :=
    declared_of_mem hdistinct hmem
  unfold Broker.readAt LiveObject.read LiveObject.value
  rw [ho, Option.elim_some, systemValue?_of_own _ hown, hdeclared, hvalues]
  rfl

end HoldsOutputs

/-! ## Executing -/

section Session

variable (routines : Routines ω) (config : SessionConfig) (pace : Pace)

/-- **Executing** fails if a result is not admitted, and otherwise yields the outputs. -/
theorem execute_outputs {i : Invocation} {st ran : Broker × ω} {m : MethodDef} {r : Routine}
    {call : MethodCall} {results : List (String × Variant)}
    (hfresh : i.failure = none ∧ i.executed = false ∧ i.ended = false)
    (hopen : ((opening i.path i.method i.inputs).run st.1).1 = .ok (m, r, call))
    (hran : (routines r call).run (begun i.path i.method st.1, st.2) = (.ok results, ran))
    (hsome : m.outputs ≠ []) :
    let after := (i.execute (session routines config pace)).run st
    (¬ AllAdmitted m.outputs results ∧ after.1.failure.isSome) ∨
      AllAdmitted m.outputs results ∧ HoldsOutputs m.outputs results after.1 after.2.1 := by
  obtain ⟨hf, hx, he⟩ := hfresh
  have hopened : (onFirst (opening i.path i.method i.inputs)).run st =
      (.ok (m, r, call), begun i.path i.method st.1, st.2) :=
    run_onFirst_of (Prod.ext hopen (opening_after i.path i.method i.inputs st.1))
  have hinvoke :
      ((session routines config pace).connection.invoke i.path i.method i.inputs).run st =
      (onFirst (bringOutputs m results)).run ran := by
    show (invoke routines i.path i.method i.inputs).run st = _
    rw [invoke_eq, run_bind_of_ok hopened, run_bind_of_ok hran]
  dsimp only
  rw [Invocation.execute_open _ st hf hx he, hinvoke]
  rcases bringOutputs_cases hsome results ran.1 with ⟨hnot, e, hrun⟩ | ⟨hall, values, hvalues, hrun⟩
  · rw [run_onFirst_of hrun]
    refine .inl ⟨hnot, ?_⟩
    rw [Invocation.failure_fail (i := { i with inputs := none }) hf]
    rfl
  · rw [run_onFirst_of hrun]
    refine .inr ⟨hall, hf, rfl, he, rfl, ⟨ran.1.live.size⟩, values, rfl, ?_, hvalues⟩
    exact Array.getElem?_push_size

/-! ## Reading -/

/-- What a fetch of the path hands out at a moment: the definition of a class, or an object as it is
stored. -/
inductive Offers (path : String) (b : Broker) : LiveObject → Prop
  | definition {c : ClassDef} (hc : b.classes.get? path = some c) :
      Offers path b ⟨c, some c.name, true, .empty⟩
  | stored {o : StoredObject} {c : ClassDef} (hpath : b.classes.get? path = none)
      (ho : b.objects.get? path = some o) (hc : b.classes.get? o.className = some c) :
      Offers path b ⟨c, some path, false, o.values⟩

theorem Offers.congr {path : String} {b b' : Broker} {o : LiveObject} (h : Offers path b o)
    (hclasses : b'.classes = b.classes) (hobjects : b'.objects = b.objects) : Offers path b' o := by
  cases h with
  | definition hc => exact .definition (hclasses ▸ hc)
  | stored hpath ho hc => exact .stored (hclasses ▸ hpath) (hobjects ▸ ho) (hclasses ▸ hc)

/-- A path is resolved if a reference is declared, and an object is wanted. -/
def Resolves (declared : CimType) (v : Variant) (t : DataType) (path : String) : Prop :=
  v = .text path ∧ declared.isReference = true ∧ t.isObjectHandle = true

theorem Resolves.path_eq {declared : CimType} {v : Variant} {t : DataType} {path path' : String}
    (h : Resolves declared v t path) (h' : Resolves declared v t path') : path = path' := by
  cases h.1.symm.trans h'.1
  rfl

/-- What reading an output with a declared type and a value does, and what it yields: the value,
decoded; or the object at the path that the value is, at this moment, with one fetch; or a failure,
with one fetch too, if nothing can be handed out there. -/
inductive OutputReading (name : String) (declared : CimType) (v : Variant) (t : DataType)
    (b : Broker) : Except Error t.Value → Broker → Prop
  | direct (h : ∀ path, ¬ Resolves declared v t path) :
      OutputReading name declared v t b (t.decode v) (readFrom name b)
  | resolved {path : String} {o : LiveObject} {h : Handle} {x : t.Value} {b' : Broker}
      (hpath : Resolves declared v t path) (ho : Offers path b o)
      (hdecode : t.decode (.object h) = .ok x)
      (htrail : b'.trail = .fetch path :: .get name :: b.trail)
      (hnew : b'.live[h.id]? = some o)
      (hlive : ∀ (i : Nat) (o : LiveObject), b.live[i]? = some o → b'.live[i]? = some o) :
      OutputReading name declared v t b (.ok x) b'
  | dangling {path what : String} {b' : Broker} (hpath : Resolves declared v t path)
      (hnone : ∀ o, ¬ Offers path b o) (htrail : b'.trail = .fetch path :: .get name :: b.trail)
      (hlive : b'.live = b.live) :
      OutputReading name declared v t b (.error (.notFound what)) b'

/-- A reading leaves everything that is live as it is. -/
theorem OutputReading.live {name : String} {declared : CimType} {v : Variant} {t : DataType}
    {b b' : Broker} {outcome : Except Error t.Value}
    (h : OutputReading name declared v t b outcome b') {i : Nat} {o : LiveObject}
    (ho : b.live[i]? = some o) : b'.live[i]? = some o := by
  cases h with
  | direct => exact ho
  | resolved _ _ _ _ _ hlive => exact hlive i o ho
  | dangling _ _ _ hlive => rw [hlive, ho]

/-- Getting an object yields what is offered, or nothing is. -/
theorem run_getObject (path : String) (st : Broker × ω) :
    ∃ outcome b', ((session routines config pace).getObject path).run st = (outcome, b', st.2) ∧
      b'.trail = .fetch path :: st.1.trail ∧
      ((∃ h o, outcome = .ok h ∧ Offers path st.1 o ∧ b'.live[h.id]? = some o ∧
          ∀ (i : Nat) (o' : LiveObject), st.1.live[i]? = some o' → b'.live[i]? = some o') ∨
        ∃ what, outcome = .error (.notFound what) ∧ (∀ o, ¬ Offers path st.1 o) ∧
          b'.live = st.1.live) := by
  let noted : Broker := { st.1 with trail := .fetch path :: st.1.trail }
  have hsnapshot := run_snapshot path noted
  have hfetch : ((session routines config pace).connection.fetch path).run st =
      (((snapshot path).run noted).1, ((snapshot path).run noted).2, st.2) := rfl
  unfold Service.getObject
  rw [run_bind, hfetch]
  revert hsnapshot
  generalize ((snapshot path).run noted).1 = outcome
  generalize ((snapshot path).run noted).2 = b'
  intro hsnapshot
  cases hsnapshot with
  | definition hc =>
    refine ⟨_, _, rfl, rfl, .inl ⟨_, _, rfl, .definition hc, Array.getElem?_push_size, ?_⟩⟩
    exact fun _ _ => live_push _
  | found hpath ho hc =>
    refine ⟨_, _, rfl, rfl, .inl ⟨_, _, rfl, .stored hpath ho hc, Array.getElem?_push_size, ?_⟩⟩
    exact fun _ _ => live_push _
  | nothing hpath ho =>
    refine ⟨_, _, rfl, rfl, .inr ⟨path, rfl, fun o hoffers => ?_, rfl⟩⟩
    cases hoffers with
    | definition hc => cases hc.symm.trans hpath
    | stored _ ho' _ => cases ho'.symm.trans ho
  | orphan hpath ho hc =>
    refine ⟨_, _, rfl, rfl, .inr ⟨_, rfl, fun o hoffers => ?_, rfl⟩⟩
    cases hoffers with
    | definition hc' => cases hc'.symm.trans hpath
    | stored _ ho' hc' =>
      cases ho'.symm.trans ho
      cases hc'.symm.trans hc

/-- **One reading of an output** that is there (`OutputReading`). -/
theorem run_read {i : Invocation} {name : String} {t : DataType} {outputs : Handle}
    {declared : CimType} {v : Variant} {st : Broker × ω} (hreadable : i.readable name = .ok outputs)
    (hvalue : readAt outputs name st.1 = .ok (v, declared)) :
    ∃ outcome b', (i.read (session routines config pace) name t).run st = (outcome, b', st.2) ∧
      OutputReading name declared v t st.1 outcome b' := by
  have hreads : (Action.ofExcept (i.readable name)).run st = (.ok outputs, st) := by
    rw [hreadable, run_ofExcept]
  have hget : ((session routines config pace).access.get outputs name).run st =
      (.ok (v, declared), readFrom name st.1, st.2) :=
    hvalue ▸ run_access_get name
  unfold Invocation.read
  rw [run_bind_of_ok hreads, run_bind_of_ok hget]
  dsimp only
  have hdirect (h : ∀ path, ¬ Resolves declared v t path) :
      ∃ outcome b', (Action.ofExcept (t.decode v)).run (readFrom name st.1, st.2) =
        (outcome, b', st.2) ∧ OutputReading name declared v t st.1 outcome b' :=
    ⟨_, _, run_ofExcept _ _, .direct h⟩
  split
  · rename_i path hpath
    split
    · rename_i hresolve
      obtain ⟨href, hhandle⟩ := Bool.and_eq_true_iff.mp hresolve
      have hresolves : Resolves declared v t path := ⟨Variant.eq_text_of_text? hpath, href, hhandle⟩
      obtain ⟨outcome, b', hrun, htrail, hgot⟩ :=
        run_getObject routines config pace path (readFrom name st.1, st.2)
      rcases hgot with ⟨h, o, rfl, ho, hnew, hlive⟩ | ⟨what, rfl, hnone, hlive⟩
      · obtain ⟨x, hx⟩ := decode_object h hhandle
        refine ⟨.ok x, b', ?_, .resolved hresolves (ho.congr rfl rfl) hx htrail hnew hlive⟩
        rw [run_bind_of_ok hrun, hx, run_ofExcept]
      · refine ⟨.error (.notFound what), b', run_bind_of_error hrun, ?_⟩
        exact .dangling hresolves (fun o ho => hnone o (ho.congr rfl rfl)) htrail hlive
    · rename_i hresolve
      refine hdirect fun other hother => hresolve ?_
      rw [hother.2.1, hother.2.2]
      rfl
  · rename_i hpath
    refine hdirect fun other hother => ?_
    rw [hother.1] at hpath
    cases hpath

/-! ## Steps of the invocation -/

variable {outputs : Declarations} {results : List (String × Variant)} {i : Invocation}
  {st : Broker × ω}

/-- A reading leaves the outputs as they are, whichever output it is for. -/
theorem HoldsOutputs.read (h : HoldsOutputs outputs results i st.1) (name : String) (t : DataType) :
    HoldsOutputs outputs results i ((i.read (session routines config pace) name t).run st).2.1 := by
  obtain ⟨h', values, houtputs, ho, -⟩ := h.held
  have hreadable : i.readable name = .ok h' := by
    simp [Invocation.readable, h.ended, h.executed, houtputs]
  cases hvalue : Broker.readAt h' name st.1 with
  | ok found =>
    obtain ⟨outcome, b', hrun, hreading⟩ := run_read (t := t) routines config pace hreadable hvalue
    rw [hrun]
    exact h.later fun _ _ _ ho => hreading.live ho
  | error e =>
    have hreads : (Action.ofExcept (i.readable name)).run st = (.ok h', st) := by
      rw [hreadable, run_ofExcept]
    have hget : ((session routines config pace).access.get h' name).run st =
        (.error e, readFrom name st.1, st.2) := hvalue ▸ run_access_get name
    unfold Invocation.read
    rw [run_bind_of_ok hreads, run_bind_of_error hget]
    exact h.later fun _ _ _ ho => ho

open Invocation in
/-- **A step keeps the outputs** (`HoldsOutputs`), or leaves a failure behind. -/
theorem HoldsOutputs.perform (h : HoldsOutputs outputs results i st.1) {step : Invocation.Step}
    (hstep : step ≠ .finish) :
    let r := (i.perform (session routines config pace) step).run st
    r.1.1.failure.isSome ∨ r.1.1 = i ∧ HoldsOutputs outputs results i r.2.1 := by
  have hwork (action : Action (Broker × ω) Unit)
      (hkeeps : (action.run st).1 = .ok () → HoldsOutputs outputs results i (action.run st).2.1) :
      (i.noting (action.run st).1).failure.isSome ∨
        i.noting (action.run st).1 = i ∧ HoldsOutputs outputs results i (action.run st).2.1 := by
    cases houtcome : (action.run st).1 with
    | ok _ => exact .inr ⟨rfl, hkeeps houtcome⟩
    | error e =>
      refine .inl ?_
      show ((i.fail e).failure.isSome : Bool) = true
      rw [failure_fail h.failure]
      rfl
  rcases perform_cases (session routines config pace) st hstep with
    ⟨hi, hst⟩ | ⟨hne, -, hi, hst⟩ | ⟨-, hx, -⟩
  · dsimp only
    rw [hi, hst]
    exact .inr ⟨rfl, h⟩
  · dsimp only
    rw [hi, hst]
    refine hwork _ fun hok => ?_
    cases step with
    | set name x =>
      -- there are no inputs left to set
      have hrefused : (i.stage (session routines config pace) name x).run st =
          (.error (.notFound (i.method ++ " takes no input parameter " ++ name)), st) := by
        unfold stage
        rw [h.inputs]
        rfl
      rw [show (Step.set name x).work (session routines config pace) i =
        i.stage (session routines config pace) name x from rfl, hrefused] at hok
      cases hok
    | execute => exact absurd rfl hne
    | get name t destination =>
      rw [show (Step.get name t destination).work (session routines config pace) i =
        (do let _ ← i.read (session routines config pace) name t) from rfl, run_dropped]
      exact h.read routines config pace name t
    | getObject name destination =>
      rw [show (Step.getObject name destination).work (session routines config pace) i =
        (do let _ ← i.read (session routines config pace) name (.optional .handle)) from rfl,
        run_dropped]
      exact h.read routines config pace name (.optional .handle)
    | finish => exact absurd rfl hstep
  · rw [h.executed] at hx
    cases hx

end Session

/-- Along the way of an invocation: further steps of it but the end, and other things in between
that leave alone the object of its outputs, which only the invocation knows of. -/
inductive Asked (s : Service (Broker × ω)) (i : Invocation) (st : Broker × ω) :
    Invocation → Broker × ω → Prop
  | begun : Asked s i st i st
  | step {j : Invocation} {now : Broker × ω} (h : Asked s i st j now) {step : Invocation.Step}
      (hstep : step ≠ .finish) :
      Asked s i st ((j.perform s step).run now).1.1 ((j.perform s step).run now).2
  | meanwhile {j : Invocation} {now later : Broker × ω} (h : Asked s i st j now)
      (hspares : ∀ h, j.outputs = some h → later.1.live[h.id]? = now.1.live[h.id]?) :
      Asked s i st j later

/-- **Along the way** a failure is on record, or the outputs are as they were. -/
theorem HoldsOutputs.asked {routines : Routines ω} {config : SessionConfig} {pace : Pace}
    {outputs : Declarations} {results : List (String × Variant)} {i j : Invocation}
    {st now : Broker × ω} (h : HoldsOutputs outputs results i st.1)
    (hasked : Asked (session routines config pace) i st j now) :
    j.failure.isSome ∨ j = i ∧ HoldsOutputs outputs results j now.1 := by
  induction hasked with
  | begun => exact .inr ⟨rfl, h⟩
  | step _ hstep ih =>
    rcases ih with hfailed | ⟨rfl, hholds⟩
    · rw [Invocation.perform_failed _ _ hfailed hstep]
      exact .inl hfailed
    · rcases hholds.perform routines config pace hstep with hfailed | ⟨hsame, hholds'⟩
      · exact .inl hfailed
      · rw [hsame]
        exact .inr ⟨rfl, hholds'⟩
  | meanwhile _ hspares ih =>
    rcases ih with hfailed | ⟨rfl, hholds⟩
    · exact .inl hfailed
    · refine .inr ⟨rfl, hholds.later fun h' houtputs o ho => ?_⟩
      rw [hspares h' houtputs, ho]

/-- What has failed stays failed on the way. -/
theorem Asked.failed {s : Service (Broker × ω)} {i j : Invocation} {st now : Broker × ω}
    (h : Asked s i st j now) (hi : i.failure.isSome) : j.failure.isSome := by
  induction h with
  | begun => exact hi
  | step _ hstep ih => rwa [Invocation.perform_failed _ _ ih hstep]
  | meanwhile _ _ ih => exact ih

/-- **What a caller reads of the outputs of a method.** Take a method with outputs, whose names are
distinct and none of the system's, whatever results its routine yields.  Executing the invocation
(`Invocation.execute`) fails if and only if there is a result whose name is not declared or whose
declared type does not accept it.  As long as nothing has failed and the invocation has not ended
(`Asked`), reading an output yields the last result under its name, or nothing if there is none
(`outputValue`), decoded; where it does not decode, the destination stays as it was.  No fetch is
made for this, with one exception.  A path for which a reference is declared is resolved
(`Resolves`), with exactly one fetch, if an object is wanted: to what is stored there at that moment
(`Offers`), or to a failure that leaves the destination as it was. -/
theorem outputs_read_back {routines : Routines ω} {config : SessionConfig} {pace : Pace}
    {i : Invocation} {st ran : Broker × ω} {m : MethodDef} {r : Routine} {call : MethodCall}
    {results : List (String × Variant)}
    (hfresh : i.failure = none ∧ i.executed = false ∧ i.ended = false)
    (hopen : ((opening i.path i.method i.inputs).run st.1).1 = .ok (m, r, call))
    (hran : (routines r call).run (begun i.path i.method st.1, st.2) = (.ok results, ran))
    (hsome : m.outputs ≠ []) (hdistinct : (m.outputs.map Prod.fst).Nodup)
    (hown : ∀ output ∈ m.outputs, isSystemName output.1 = false) :
    let s := session routines config pace
    let after := (i.execute s).run st
    (after.1.failure.isSome ↔ ∃ result ∈ results, ∀ declared, (result.1, declared) ∈ m.outputs →
      declared.accepts result.2 = false) ∧
    ∀ j now, Asked s after.1 after.2 j now → j.failure = none →
      ∀ name declared, (name, declared) ∈ m.outputs → ∀ (t : DataType) (destination : t.Value),
        let v := outputValue results name
        let got := (j.get s name t destination).run now
        (∀ path, Resolves declared v t path →
          got.2.1.trail = .fetch path :: .get name :: now.1.trail ∧
          ((∃ o h x, Offers path now.1 o ∧ got.2.1.live[h.id]? = some o ∧
              t.decode (.object h) = .ok x ∧ got.1 = (j, x)) ∨
            (∀ o, ¬ Offers path now.1 o) ∧
              ∃ what, got.1 = (j.fail (.notFound what), destination))) ∧
        ((∀ path, ¬ Resolves declared v t path) →
          got.2 = (readFrom name now.1, now.2) ∧
          (∀ x, t.decode v = .ok x → got.1 = (j, x)) ∧
          ∀ e, t.decode v = .error e → got.1 = (j.fail e, destination)) := by
  intro s after
  have hexecuted := execute_outputs routines config pace hfresh hopen hran hsome
  constructor
  · rw [← not_allAdmitted_iff hdistinct]
    rcases hexecuted with ⟨hnot, hfailed⟩ | ⟨hall, hholds⟩
    · exact iff_of_true hfailed hnot
    · refine iff_of_false ?_ (not_not_intro hall)
      rw [show after.1.failure = none from hholds.failure]
      exact Bool.false_ne_true
  · intro j now hasked hopenYet name declared hmem t destination v got
    -- nothing has failed since, so the outputs are as they were
    obtain ⟨-, hholds⟩ :
        AllAdmitted m.outputs results ∧ HoldsOutputs m.outputs results j now.1 := by
      rcases hexecuted with ⟨-, hfailed⟩ | ⟨hall, hholds⟩
      · have hfailedYet := hasked.failed hfailed
        rw [hopenYet] at hfailedYet
        cases hfailedYet
      · rcases hholds.asked hasked with hfailed | ⟨-, hholdsYet⟩
        · rw [hopenYet] at hfailed
          cases hfailed
        · exact ⟨hall, hholdsYet⟩
    obtain ⟨h', hreadable, hvalue⟩ := hholds.readAt hdistinct hmem (hown _ hmem)
    obtain ⟨outcome, b', hrun, hreading⟩ := run_read (t := t) routines config pace hreadable hvalue
    have hgot : got = ((j.noting outcome, outcome.toOption.getD destination), b', now.2) := by
      show (j.get s name t destination).run now = _
      rw [Invocation.get_open s now name t destination hopenYet, hrun]
    rw [hgot]
    constructor
    · intro path hresolves
      cases hreading with
      | direct hnot => exact absurd hresolves (hnot path)
      | @resolved path' o h x b' hresolves' ho hdecode htrail hnew _ =>
        obtain rfl := hresolves'.path_eq hresolves
        exact ⟨htrail, .inl ⟨o, h, x, ho, hnew, hdecode, rfl⟩⟩
      | @dangling path' what b' hresolves' hnone htrail _ =>
        obtain rfl := hresolves'.path_eq hresolves
        exact ⟨htrail, .inr ⟨hnone, what, rfl⟩⟩
    · intro hnot
      cases hreading with
      | direct =>
        refine ⟨rfl, fun x hdecode => ?_, fun e hdecode => ?_⟩
        · rw [show t.decode (outputValue results name) = .ok x from hdecode]
          rfl
        · rw [show t.decode (outputValue results name) = .error e from hdecode]
          rfl
      | resolved hresolves => exact absurd hresolves (hnot _)
      | dangling hresolves => exact absurd hresolves (hnot _)

/-- A method that starts a job. -/
def produce : MethodDef :=
  ⟨"Produce", [], [("Job", .scalarOf .reference), ("ReturnValue", .scalarOf (.integer false .w32))],
    some ⟨0⟩⟩

/-- A broker with a setting, and with an object that has that method. -/
def producing : Broker :=
  [.defineClass settingClass, .defineClass ⟨"Msvm_Producer", [], [produce]⟩,
    .insert "Msvm_Setting" [("InstanceID", .text "s1")],
    .insert "Msvm_Producer" []].foldl Request.after .empty

/-- What the routine of the method yields: the job twice, and the second time it is there. -/
def production : List (String × Variant) :=
  [("Job", .text "nowhere"), ("ReturnValue", .int32 4096),
    ("Job", .text (instancePath "Msvm_Setting" 1))]

/-- Every routine yields that. -/
def producingRoutines : Routines Unit := fun _ _ => pure production

/-- A session with these routines. -/
def producer : Service (Broker × Unit) := session producingRoutines .standard ⟨0, fun _ _ => ⟨0⟩⟩

/-- The call, before it is executed. -/
def productionCall : Invocation :=
  ⟨instancePath "Msvm_Producer" 2, "Produce", none, none, false, false, none⟩

/-- The call, once it is executed. -/
def produced : Invocation × (Broker × Unit) := (productionCall.execute producer).run (producing, ())

/-- The job of the second result is got, as it is stored, and the return value after it. -/
theorem production_is_read :
    let job := (produced.1.get producer "Job" (.optional .handle) none).run produced.2
    (job.2.1.trail = .fetch (instancePath "Msvm_Setting" 1) :: .get "Job" :: produced.2.1.trail ∧
      ∃ o h, Offers (instancePath "Msvm_Setting" 1) produced.2.1 o ∧
        job.2.1.live[h.id]? = some o ∧ job.1 = (produced.1, some h)) ∧
    ((produced.1.get producer "ReturnValue" .uint32 0).run job.2).1 = (produced.1, 4096) := by
  intro job
  have hopen : ((opening productionCall.path productionCall.method productionCall.inputs).run
      producing).1 = .ok (produce, ⟨0⟩, ⟨instancePath "Msvm_Producer" 2, "Produce", .empty⟩) := rfl
  obtain ⟨-, hread⟩ := @outputs_read_back Unit producingRoutines .standard ⟨0, fun _ _ => ⟨0⟩⟩
    productionCall (producing, ()) _ produce ⟨0⟩ _ production ⟨rfl, rfl, rfl⟩ hopen rfl (by decide)
    (by decide) (by decide)
  have hfailure : produced.1.failure = none := by decide +kernel
  have hbegun : Asked producer produced.1 produced.2 produced.1 produced.2 := .begun
  obtain ⟨htrail, hjob⟩ := (hread produced.1 produced.2 hbegun hfailure "Job"
    (.scalarOf .reference) (by decide) (.optional .handle) none).1 (instancePath "Msvm_Setting" 1)
    ⟨rfl, rfl, rfl⟩
  have hoffers : Offers (instancePath "Msvm_Setting" 1) produced.2.1
      ⟨settingClass, some (instancePath "Msvm_Setting" 1), false, ⟨[("InstanceID", .text "s1")]⟩⟩ :=
    .stored (o := ⟨"Msvm_Setting", ⟨[("InstanceID", .text "s1")]⟩, []⟩) rfl rfl rfl
  rcases hjob with ⟨o, h, x, ho, hlive, hdecode, hgot⟩ | ⟨hnone, -⟩
  · cases hdecode
    have hstep : Asked producer produced.1 produced.2 job.1.1 job.2 :=
      hbegun.step (show Invocation.Step.getObject "Job" none ≠ .finish from nofun)
    have hsame : job.1.1 = produced.1 := congrArg Prod.fst hgot
    rw [hsame] at hstep
    obtain ⟨-, hdirect⟩ := hread produced.1 job.2 hstep hfailure "ReturnValue"
      (.scalarOf (.integer false .w32)) (by decide) .uint32 0
    obtain ⟨-, hvalue, -⟩ := hdirect fun path hresolves => by cases hresolves.2.1
    exact ⟨⟨htrail, o, h, ho, hlive, hgot⟩, hvalue 4096 rfl⟩
  · exact absurd hoffers (hnone _)

end CimBroker.Broker
