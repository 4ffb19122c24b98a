/-
# CimBroker.Proofs.PairPutting — a pair is added, or else changed

Putting a pair adds it, and changes it where adding blames an argument.  A wrong second step would
overwrite a value that somebody else has set, and a missing one would lose the pair, so it matters
which of the many ways for adding to fail leads to it.  `pair_put_by_adding_or_modifying` says so,
and says also what the two steps call: `AddKvpItems` and `ModifyKvpItems`, each at most once and
with the item of the pair that is put (`CarriesPair`, in `CimBroker.Proofs.MethodCalls`).

The journal of adding decides it.  A job that ends with the number for a bad argument, and whose
description can be read, always leads to the change.  The same number as a return value never does.
For the latter the journal of a call is read backwards: if it shows the return value and the job
being read from the outputs of the method, then the call has yielded just these
(`Service.call_of_answers`).

`scripted_pairs_are_put` has both cases.  What the guest holds afterwards is not said: that is up to
the other side, and two hosts that put one key at the same time are not considered.
-/
import CimBroker.Proofs.MethodCalls

namespace CimBroker

variable {σ α β : Type}

/-! ## A call, read off its journal -/

/-- Where an object is wanted, a text means nothing. -/
theorem decode_text_of_isObjectHandle (path : String) {t : DataType} (ht : t.isObjectHandle = true)
    (x : t.Value) : t.decode (.text path) ≠ .ok x := by
  induction t with
  | handle => exact nofun
  | optional t ih =>
    intro hdecode
    cases hinner : t.decode (.text path) with
    | error e => simp [DataType.decode, hinner, Except.map] at hdecode
    | ok y => exact ih ht y hinner
  | _ => cases ht

namespace Service

variable (s : Service σ)

/-- An object whose fetch was answered is the one that is got. -/
theorem getObject_answered (path : String) :
    Tells (fun outcome events => ∃ answer, events = [.fetch path answer] ∧
      ∀ h, answer = .ok (some h) → outcome = .ok h) (s.journaled.getObject path).run := by
  refine Tells.bind (R := fun answer events => events = [.fetch path answer])
    (Tells.witnessed fun _ => rfl) ?_ ?_
  · rintro found events rfl
    cases found with
    | none => exact Tells.throw ⟨_, rfl, nofun⟩
    | some h =>
      refine Tells.pure ⟨_, rfl, ?_⟩
      rintro h' ⟨⟩
      rfl
  · rintro e events rfl
    exact ⟨_, rfl, nofun⟩

end Service

namespace Invocation

variable (s : Service σ)

/-- The journal determines what was read: if it goes on as reading a value of the output does, then
that value was read, and these events are the reading. -/
def Shown (outputs : Handle) (name : String) (t : DataType) (outcome : Except Error t.Value)
    (events : List Event) : Prop :=
  ∀ x shown more rest, OutputRead outputs name t x shown → events ++ more = shown ++ rest →
    outcome = .ok x ∧ events = shown

theorem read_shown (i : Invocation) {name : String} {t : DataType}
    (ht : t.isObjectHandle = false → ∀ h x, t.decode (.object h) ≠ .ok x) {outputs : Handle}
    (hreadable : i.readable name = .ok outputs) :
    Tells (Shown outputs name t) (i.read s.journaled name t).run := by
  unfold read
  rw [hreadable, show (Action.ofExcept (.ok outputs) : Action (σ × List Event) Handle) =
    pure outputs from rfl, pure_bind]
  refine Tells.bind (R := fun answer events => events = [.get outputs name answer])
    (Tells.witnessed fun _ => rfl) ?_ ?_
  · rintro ⟨v, declared⟩ first rfl
    have hplain (h : ∀ path, v.text? = some path → declared.isReference = true →
        t.isObjectHandle = false) :
        Tells (fun outcome rest => Shown outputs name t outcome
          ([.get outputs name (.ok (v, declared))] ++ rest))
          (Action.ofExcept (t.decode v) : Action (σ × List Event) t.Value).run := by
      refine Tells.ofExcept fun x shown more rest hread hevents => ?_
      cases hread with
      | direct hdecode =>
        obtain ⟨⟨⟨rfl, rfl⟩⟩, -⟩ := List.cons.inj hevents
        exact ⟨hdecode, rfl⟩
      | @resolved path _ _ h' hpath href hdecode =>
        obtain ⟨⟨⟨rfl, rfl⟩⟩, -⟩ := List.cons.inj hevents
        exact absurd hdecode (ht (h path hpath href) h' x)
    dsimp only
    split
    · rename_i path hpath
      split
      · rename_i hresolve
        obtain ⟨href, hhandle⟩ := Bool.and_eq_true_iff.mp hresolve
        obtain rfl := Variant.eq_text_of_text? hpath
        have hfetched {found : Except Error Handle} {answer : Except Error (Option Handle)}
            (hanswer : ∀ h, answer = .ok (some h) → found = .ok h) :
            Shown outputs name t (found.bind fun h => t.decode (.object h))
              ([.get outputs name (.ok (.text path, declared))] ++ [.fetch path answer]) := by
          intro x shown more rest hread hevents
          cases hread with
          | direct hdecode =>
            obtain ⟨⟨⟨rfl, rfl⟩⟩, -⟩ := List.cons.inj hevents
            exact absurd hdecode (decode_text_of_isObjectHandle path hhandle x)
          | @resolved _ _ _ h _ _ hdecode =>
            obtain ⟨⟨⟨rfl, rfl⟩⟩, hfetch⟩ := List.cons.inj hevents
            obtain ⟨⟨rfl, rfl⟩, -⟩ := List.cons.inj hfetch
            obtain rfl := hanswer h rfl
            exact ⟨hdecode, rfl⟩
        refine Tells.bind (s.getObject_answered path) ?_ ?_
        · rintro h fetched ⟨answer, rfl, hanswer⟩
          exact Tells.ofExcept (hfetched hanswer)
        · rintro e fetched ⟨answer, rfl, hanswer⟩
          exact hfetched hanswer
      · rename_i hresolve
        refine hplain fun _ _ href => ?_
        simpa [href] using hresolve
    · rename_i hpath
      exact hplain fun path hsome => by rw [hpath] at hsome; cases hsome
  · rintro e events rfl x shown more rest hread hevents
    cases hread with
    | direct => simp at hevents
    | resolved => simp at hevents

end Invocation

/-- The method was called and returned outputs, and both were read from them, the return value with
the given number. -/
inductive AnsweredWith (method : String) (order : JobOutputs) (code : BitVec 32) : List Event → Prop
  | intro {before answers rest : List Event} {path : String} {inputs job : Option Handle}
      {outputs : Handle} (hanswers : Answered outputs code job order answers) :
      AnsweredWith method order code
        (before ++ .invoke path method inputs (.ok (some outputs)) :: (answers ++ rest))

namespace AnsweredWith

variable {method : String} {order : JobOutputs} {code : BitVec 32} {first events : List Event}

theorem exists_call (h : AnsweredWith method order code events) :
    ∃ e ∈ events, e.isInvoke = true := by
  cases h with
  | intro => exact ⟨_, List.mem_append_right _ List.mem_cons_self, rfl⟩

/-- What comes before the call may be left out. -/
theorem of_append (h : AnsweredWith method order code (first ++ events))
    (hfirst : ∀ e ∈ first, e.isInvoke = false) : AnsweredWith method order code events := by
  generalize hall : first ++ events = all at h
  cases h with
  | intro hanswers =>
    obtain ⟨before, -, rfl⟩ := Event.split_after Event.isInvoke hall rfl hfirst
    exact .intro hanswers

/-- Where the first event is the one call, the answers come right after it. -/
theorem of_cons {path called : String} {inputs : Option Handle}
    {answer : Except Error (Option Handle)}
    (h : AnsweredWith method order code (.invoke path called inputs answer :: events))
    (hevents : ∀ e ∈ events, e.isInvoke = false) :
    ∃ outputs job answers rest, answer = .ok (some outputs) ∧ events = answers ++ rest ∧
      Answered outputs code job order answers := by
  generalize hall : Event.invoke path called inputs answer :: events = all at h
  cases h with
  | @intro before answers rest path' inputs' job outputs hanswers =>
    cases before with
    | nil =>
      obtain ⟨⟨rfl, rfl, rfl, rfl⟩, rfl⟩ := List.cons.inj hall
      exact ⟨outputs, job, answers, rest, rfl, rfl, hanswers⟩
    | cons e before =>
      -- there would be a second call
      obtain ⟨-, rfl⟩ := List.cons.inj hall
      cases hevents _ (List.mem_append_right _ List.mem_cons_self)

end AnsweredWith

namespace Invocation

variable (s : Service σ)

theorem get_shown (i : Invocation) {name : String} {t : DataType}
    (ht : t.isObjectHandle = false → ∀ h x, t.decode (.object h) ≠ .ok x) (destination : t.Value) :
    Tells (fun r events => ∀ outputs, i.failure = none → i.readable name = .ok outputs →
      ∀ x shown more rest, OutputRead outputs name t x shown → events ++ more = shown ++ rest →
        r = (i, x) ∧ events = shown) (i.get s.journaled name t destination).run := by
  intro b journal
  cases hf : i.failure with
  | some e =>
    refine ⟨(i, destination), b, [], ?_, nofun⟩
    rw [get_failed s.journaled (b, journal) name t destination (by rw [hf]; rfl), List.append_nil]
  | none =>
    rw [get_open s.journaled (b, journal) name t destination hf]
    cases hreadable : i.readable name with
    | error e =>
      refine ⟨(i.fail e, destination), b, [], ?_, nofun⟩
      unfold read
      rw [hreadable, Action.run_bind_of_error (Action.run_ofExcept (.error e) _), List.append_nil]
      rfl
    | ok outputs =>
      obtain ⟨outcome, after, events, hrun, hshown⟩ := read_shown s i ht hreadable b journal
      rw [hrun]
      refine ⟨_, after, events, rfl, fun _ _ houtputs x shown more rest hread hevents => ?_⟩
      obtain rfl := Except.ok.inj houtputs
      obtain ⟨rfl, rfl⟩ := hshown x shown more rest hread hevents
      exact ⟨rfl, rfl⟩

end Invocation

theorem uint32_decode_object (h : Handle) (x : BitVec 32) :
    DataType.uint32.decode (.object h) ≠ .ok x := nofun

open Invocation in
/-- **A call whose journal shows both outputs being read** from what its method returned has yielded
them. -/
theorem Service.call_of_answers (s : Service σ) (target : Handle) (method : String)
    (inputs : List (String × Argument)) (code : BitVec 32)
    (hnames : ∀ input ∈ inputs, input.1 ≠ "ErrorCode") :
    Tells (fun outcome events => ∀ more, (∀ e ∈ more, e.isInvoke = false) →
        AnsweredWith method .returnValueFirst code (events ++ more) →
        ∃ job, outcome = .ok (code.toNat, job))
      (s.journaled.call target method inputs .returnValueFirst).run := by
  unfold Service.call
  refine Tells.bind (R := fun outcome events => ∃ r : Except Error Unit × Nat × Option Handle,
    outcome = .ok r ∧ ∀ more, (∀ e ∈ more, e.isInvoke = false) →
      AnsweredWith method .returnValueFirst code (events ++ more) →
      ∃ job, r = (.ok (), code.toNat, job)) (Tells.lift ?_) ?_ ?_
  · refine Tells.step_bind (begin_told s target method) fun i begun hbegun => ?_
    refine Tells.step_bind (setAll_told s hbegun.1 inputs hnames) fun i₁ staged hstaged => ?_
    refine Tells.step_bind (execute_shown s i₁) fun i₂ executed hexecuted => ?_
    -- both readings, with the fact that they call nothing
    refine Tells.step_bind ((get_shown s i₂ (t := .uint32) (fun _ => uint32_decode_object) 0).and
      (get_uncalled s i₂ .uint32 0)) ?_
    rintro ⟨i₃, returnValue⟩ first ⟨hvalue, hfirst⟩
    refine Tells.step_bind ((get_shown s i₃ (t := .optional .handle) nofun none).and
      (get_uncalled s i₃ (.optional .handle) none)) ?_
    rintro ⟨i₄, job⟩ rest ⟨hjob, hrest⟩
    refine Tells.of_eq (fun _ => rfl) ⟨_, rfl, fun more hmore hanswered => ?_⟩
    have hbefore : ∀ e ∈ begun ++ staged, e.isInvoke = false :=
      List.forall_mem_append.mpr
        ⟨fun e he => (hbegun.2 e he).calls, fun e he => (hstaged.2 e he).calls⟩
    have hafter : ∀ e ∈ first ++ (rest ++ more), e.isInvoke = false := by
      simp only [List.forall_mem_append]
      exact ⟨hfirst, hrest, hmore⟩
    have hanswered' : AnsweredWith method .returnValueFirst code
        (executed ++ (first ++ (rest ++ more))) := by
      refine AnsweredWith.of_append ?_ hbefore
      simpa using hanswered
    rcases hexecuted with rfl | ⟨-, answer, rfl, hreadable⟩
    · -- nothing was called at all
      obtain ⟨e, he, hinvoke⟩ := hanswered'.exists_call
      exact absurd hinvoke (by simp [hafter e (by simpa using he)])
    · obtain ⟨outputs, job', answers, others, rfl, hevents, hanswers⟩ := hanswered'.of_cons hafter
      obtain ⟨hf, hreadable⟩ := hreadable outputs rfl
      cases hanswers with
      | @returnValueFirst jobEvents valueEvents hreadValue hreadJob =>
        rw [List.append_assoc] at hevents
        obtain ⟨hr, rfl⟩ := hvalue outputs hf (hreadable _) _ _ _ _ hreadValue hevents
        obtain ⟨rfl, rfl⟩ := Prod.mk.inj hr
        have hevents' : rest ++ more = jobEvents ++ others := by simpa using hevents
        obtain ⟨hr', rfl⟩ := hjob outputs hf (hreadable _) _ _ _ _ hreadJob hevents'
        obtain ⟨rfl, rfl⟩ := Prod.mk.inj hr'
        refine ⟨job, ?_⟩
        rw [finish, hf]
  · rintro ⟨result, returnValue, job⟩ first ⟨_, ⟨⟩, hshown⟩
    cases result with
    | error e =>
      refine Tells.throw_bind fun more hmore hanswered => ?_
      obtain ⟨_, hr⟩ := hshown more hmore (by simpa using hanswered)
      cases hr
    | ok _ =>
      refine Tells.pure fun more hmore hanswered => ?_
      obtain ⟨_, hr⟩ := hshown more hmore (by simpa using hanswered)
      cases hr
      exact ⟨job, rfl⟩
  · rintro e events ⟨_, ⟨⟩, -⟩

namespace VirtualMachine

open JobWaiter

variable (s : Service σ) (vm : VirtualMachine)

/-- After quiet preparations the journal shows the same answers. -/
theorem answeredWith_after {method : String} {code : BitVec 32} {f : Except Error Unit}
    {action : Action (σ × List Event) α} {next : α → Action (σ × List Event) Unit}
    (h : Quietly action.run)
    (hnext : ∀ x, Tells (fun outcome events =>
      AnsweredWith method .returnValueFirst code events → outcome = f) (next x).run) :
    Tells (fun outcome events => AnsweredWith method .returnValueFirst code events → outcome = f)
      (action >>= next).run := by
  refine Tells.bind h (fun x first hquiet => ?_) fun e events hquiet hanswered => ?_
  · refine (hnext x).mono fun outcome rest hrest hanswered => hrest ?_
    exact hanswered.of_append fun e he => (hquiet e he).calls
  · obtain ⟨event, hevent, hinvoke⟩ := hanswered.exists_call
    rw [(hquiet event hevent).calls] at hinvoke
    cases hinvoke

/-- A return value that neither is zero nor starts a job is reported as it is, whatever it means as
the number of a job. -/
theorem exchange_of_answers (method key value hint : String) {code : BitVec 32}
    (hzero : code.toNat ≠ 0) (hstarted : code.toNat ≠ jobStarted) :
    Tells (fun outcome events => AnsweredWith method .returnValueFirst code events →
        outcome = .error (.methodFailed method code.toNat))
      (exchange s.journaled vm method key value hint).run := by
  refine answeredWith_after (Quietly.of_parallel fun journal =>
    (s.quiet_alongside journal).getSingleton _) fun target => ?_
  refine answeredWith_after (Quietly.of_parallel fun journal =>
    parallel_itemText (s.quiet_alongside journal) key value) fun item => ?_
  refine Tells.bind (s.call_of_answers target method _ code (by simp)) ?_ ?_
  · rintro ⟨returnValue, job⟩ first hshown
    have hwait : AddsOnly (fun e => e.isInvoke = false) (Action.mapError (Error.explained hint)
        ((JobWaiter.ofService s.journaled).waitResult s.journaled method returnValue job)).run :=
      AddsOnly.of_parallel fun journal =>
        Parallel.mapError _ (parallel_wait (s.uncalled_alongside journal) method returnValue job)
    intro b journal
    obtain ⟨outcome, after, events, hrun, huncalled⟩ := hwait b journal
    refine ⟨outcome, after, events, hrun, fun hanswered => ?_⟩
    obtain ⟨job', hcall⟩ := hshown events huncalled hanswered
    cases hcall
    rw [Action.run_mapError, waitResult, if_neg hzero, if_neg hstarted] at hrun
    exact (Prod.mk.inj hrun).1.symm
  · intro e events hshown hanswered
    obtain ⟨job, hcall⟩ := hshown [] (List.forall_mem_nil _) (by rwa [List.append_nil])
    cases hcall

/-- An operation reports the job whose description was read after its error number, if that number
means something and the description is a text. -/
theorem OperationTold.error_of_described {method : String} {order : JobOutputs} {f : Error → Error}
    {r : Except Error Unit} {events seen rest : List Event}
    (h : OperationTold method order f r events)
    {last last' : Handle} {told found : Variant × CimType} {code : BitVec 32} {description : String}
    (hsplit : events = seen ++ .get last "ErrorCode" (.ok told) :: rest)
    (hcode : DataType.uint32.decode told.1 = .ok code)
    (hfound : .get last' "ErrorDescription" (.ok found) ∈ rest)
    (htext : DataType.text.decode found.1 = .ok description) :
    Watched method order last seen ∧ r = .error (f (.job code.toNat (oneLine description))) := by
  have hread : (Event.get last "ErrorCode" (.ok told)) ∈ events := by rw [hsplit]; simp
  cases h with
  | cut hasks => cases hasks _ hread
  | done _ _ hasks => cases hasks _ hread
  | ended hwatched _ hasks hconclude =>
    cases hconclude with
    | unread =>
      -- nothing was read after an error number without meaning
      obtain ⟨-, -, rfl⟩ :=
        Event.split_unique Event.asksCode hsplit.symm rfl hasks (List.forall_mem_nil _)
      cases hfound
    | succeeded =>
      obtain ⟨-, -, rfl⟩ :=
        Event.split_unique Event.asksCode hsplit.symm rfl hasks (List.forall_mem_nil _)
      cases hfound
    | failed hcode' _ herror =>
      obtain ⟨rfl, hevent, rfl⟩ :=
        Event.split_unique Event.asksCode hsplit.symm rfl hasks (by simp [Event.asksCode])
      cases hevent
      cases hcode'.symm.trans hcode
      cases List.mem_singleton.mp hfound
      exact ⟨hwatched, by rw [herror found description rfl htext]; rfl⟩

/-! ## Putting a pair -/

/-- The outcome is that an argument was at fault. -/
def BlamesArgument (outcome : Except Error Unit) : Prop :=
  ∃ hint code, outcome = .error (.domain (.illegalArgument hint) code)

theorem isIllegalArgument_iff {e : Error} :
    e.isIllegalArgument = true ↔ BlamesArgument (.error e) := by
  constructor
  · intro h
    unfold Error.isIllegalArgument at h
    split at h
    · exact ⟨_, _, rfl⟩
    · cases h
  · rintro ⟨hint, code, heq⟩
    cases heq
    rfl

/-- Where adding blames an argument, putting goes on with changing. -/
theorem run_putPair_blamed (key value : String) {b : σ}
    (h : BlamesArgument ((vm.addPair s key value).run b).1) :
    (vm.putPair s key value).run b =
      (vm.modifyPair s key value).run ((vm.addPair s key value).run b).2 := by
  unfold putPair
  rw [Action.run_bind, Action.run_attempt]
  revert h
  rcases (vm.addPair s key value).run b with ⟨outcome, after⟩
  intro h
  cases outcome with
  | ok _ =>
    obtain ⟨_, _, heq⟩ := h
    cases heq
  | error e =>
    dsimp only
    rw [if_pos (isIllegalArgument_iff.mpr h)]

/-- Where it does not, putting is adding. -/
theorem run_putPair_unblamed (key value : String) {b : σ}
    (h : ¬ BlamesArgument ((vm.addPair s key value).run b).1) :
    (vm.putPair s key value).run b = (vm.addPair s key value).run b := by
  unfold putPair
  rw [Action.run_bind, Action.run_attempt]
  revert h
  rcases (vm.addPair s key value).run b with ⟨outcome, after⟩
  intro h
  cases outcome with
  | ok _ => rfl
  | error e =>
    dsimp only
    rw [if_neg (mt isIllegalArgument_iff.mp h)]
    rfl

/-- Putting a pair goes side by side with itself over two connections that answer alike. -/
theorem parallel_putPair {τ : Type} {R : σ → τ → Prop} {s : Service σ} {s' : Service τ}
    (k : s.Alongside (fun _ => True) R s') (hinvoke : s.InvokesAlike R s') (key value : String) :
    Parallel R (vm.putPair s key value).run (vm.putPair s' key value).run := by
  refine Parallel.bind (Parallel.attempt (parallel_exchange k hinvoke vm "AddKvpItems" key value _))
    fun outcome => ?_
  cases outcome with
  | ok _ => exact Parallel.pure ()
  | error e =>
    dsimp only
    split
    · exact parallel_exchange k hinvoke vm "ModifyKvpItems" key value _
    · exact Parallel.throw e

/-- **How a pair is put**, however the other side behaves.  The whole of `addPair` is done first.
If and only if it ends with a bad argument (`BlamesArgument`), the whole of `modifyPair` follows,
and its end is the end; otherwise adding is all there is.  A job of the first call that ended with
the number of a bad argument, and whose description was read, leads to the change (`Watched`); the
same number as a return value, read together with the job, does not (`AnsweredWith`).  Each method
is called at most once, and wherever it is called, its parameters carry the key and the value that
were to be put (`CarriesPair`). -/
theorem pair_put_by_adding_or_modifying (key value : String) (b : σ) :
    let added := (vm.addPair s.journaled key value).run (b, [])
    let modified := (vm.modifyPair s.journaled key value).run added.2
    let put := (vm.putPair s.journaled key value).run (b, [])
    (put.1, put.2.1) = (vm.putPair s key value).run b ∧
    (BlamesArgument added.1 → put = modified) ∧
    (¬ BlamesArgument added.1 →
      put = added ∧ ∀ e ∈ put.2.2, e.calls "ModifyKvpItems" = false) ∧
    (∀ seen last told rest last' found description,
      added.2.2 = seen ++ .get last "ErrorCode" (.ok told) :: rest →
      DataType.uint32.decode told.1 = .ok 32773 →
      .get last' "ErrorDescription" (.ok found) ∈ rest →
      DataType.text.decode found.1 = .ok description →
      Watched "AddKvpItems" .returnValueFirst last seen ∧
        added.1 = .error (.domain (.illegalArgument "key already exists?") 32773) ∧
        put = modified) ∧
    (AnsweredWith "AddKvpItems" .returnValueFirst 32773 added.2.2 →
      added.1 = .error (.methodFailed "AddKvpItems" 32773) ∧ put = added) ∧
    put.2.2.countP (Event.calls "AddKvpItems") ≤ 1 ∧
    put.2.2.countP (Event.calls "ModifyKvpItems") ≤ 1 ∧
    Event.CalledWith "AddKvpItems" (vm.CarriesPair s key value) added.2.2 ∧
    ∃ changes, modified.2.2 = added.2.2 ++ changes ∧
      Event.CalledWith "ModifyKvpItems" (vm.CarriesPair s key value) changes := by
  intro added modified put
  obtain ⟨first, hfirst, hadd⟩ : ∃ events, added.2.2 = [] ++ events ∧
      Event.OneCall "AddKvpItems" (vm.CarriesPair s key value) events :=
    (exchange_once s vm "AddKvpItems" key value "key already exists?").added (b, [])
  obtain ⟨changes, hchanges, hmodify⟩ : ∃ events, modified.2.2 = added.2.2 ++ events ∧
      Event.OneCall "ModifyKvpItems" (vm.CarriesPair s key value) events :=
    (exchange_once s vm "ModifyKvpItems" key value "key invalid?").added added.2
  rw [List.nil_append] at hfirst
  have hblamed (h : BlamesArgument added.1) : put = modified :=
    run_putPair_blamed s.journaled vm key value h
  have hunblamed (h : ¬ BlamesArgument added.1) : put = added :=
    run_putPair_unblamed s.journaled vm key value h
  have hcounts : put.2.2.countP (Event.calls "AddKvpItems") ≤ 1 ∧
      put.2.2.countP (Event.calls "ModifyKvpItems") ≤ 1 := by
    by_cases h : BlamesArgument added.1
    · rw [hblamed h, hchanges, hfirst]
      exact hadd.countP_append_le hmodify (by decide)
    · have hother : first.countP (Event.calls "ModifyKvpItems") = 0 :=
        hadd.countP_other (by decide)
      rw [hunblamed h, hfirst, hother]
      exact ⟨hadd.countP_calls_le, Nat.zero_le 1⟩
  refine ⟨?_, hblamed, fun h => ⟨hunblamed h, ?_⟩, ?_, fun hanswered => ?_, hcounts.1, hcounts.2,
    hfirst ▸ hadd.calledWith, changes, hchanges, hmodify.calledWith⟩
  · obtain ⟨houtcome, hafter⟩ := vm.parallel_putPair s.journaled_alongside
      s.journaled_invokesAlike key value (b, []) b rfl
    exact Prod.ext houtcome hafter
  · rw [hunblamed h, hfirst]
    exact hadd.not_calls (by decide)
  · intro seen last told rest last' found description hsplit hcode hfound htext
    obtain ⟨events, hevents, htold⟩ :=
      (exchange_told s vm "AddKvpItems" key value "key already exists?").added (b, [])
    rw [List.nil_append] at hevents
    obtain ⟨hwatched, herror⟩ :=
      htold.error_of_described (hevents.symm.trans hsplit) hcode hfound htext
    exact ⟨hwatched, herror, hblamed ⟨_, _, herror⟩⟩
  · have hreported := exchange_of_answers s vm "AddKvpItems" key value "key already exists?"
      (show (32773 : BitVec 32).toNat ≠ 0 by decide) (by decide)
    obtain ⟨events, hevents, hreports⟩ := hreported.added (b, [])
    rw [List.nil_append] at hevents
    have herror := hreports (hevents ▸ hanswered)
    refine ⟨herror, hunblamed ?_⟩
    rintro ⟨hint, code, hblames⟩
    cases herror.symm.trans hblames

/-- The answers of a session in which adding starts a job that blames its argument, and changing is
done at once. -/
def yieldingAnswers : List Variant :=
  blamingAnswers ++ [.text "P", .text "C", .int32 0, .null]

/-- The answers of a session in which adding returns the number of a bad argument at once. -/
def refusingAnswers : List Variant := [.text "P", .text "C", .int32 32773, .null]

/-- Adding a pair with the given answers. -/
def scriptedAdding (answers : List Variant) : Except Error Unit × (List Variant × List Event) :=
  (({} : VirtualMachine).addPair scriptedSession.journaled "k" "v").run (answers, [])

/-- Putting a pair with the given answers. -/
def scriptedPutting (answers : List Variant) : Except Error Unit × (List Variant × List Event) :=
  (({} : VirtualMachine).putPair scriptedSession.journaled "k" "v").run (answers, [])

theorem scriptedAdding_yielding :
    (scriptedAdding yieldingAnswers).2.2 = (scriptedAdding yieldingAnswers).2.2.take 15 ++
      .get ⟨1⟩ "ErrorCode" (.ok (.int32 32773, .scalarOf .string)) ::
        [.get ⟨1⟩ "ErrorDescription" (.ok (.text "bad\nkey", .scalarOf .string))] := by
  decide +kernel

theorem scriptedAdding_refusing :
    (scriptedAdding refusingAnswers).2.2 = (scriptedAdding refusingAnswers).2.2.take 11 ++
      .invoke "P" "AddKvpItems" (some ⟨0⟩) (.ok (some ⟨0⟩)) ::
        (([.get ⟨0⟩ "ReturnValue" (.ok (.int32 32773, .scalarOf .string))] ++
          [.get ⟨0⟩ "Job" (.ok (.null, .scalarOf .string))]) ++ []) := by
  decide +kernel

/-- A job that blames its argument leads to the change of the pair, the same number as a return
value does not. -/
theorem scripted_pairs_are_put :
    (scriptedPutting yieldingAnswers = (({} : VirtualMachine).modifyPair scriptedSession.journaled
        "k" "v").run (scriptedAdding yieldingAnswers).2) ∧
      (scriptedPutting refusingAnswers).1 = .error (.methodFailed "AddKvpItems" 32773) := by
  have hyielding := scriptedAdding_yielding
  have hrefusing := scriptedAdding_refusing
  unfold scriptedAdding at hyielding hrefusing
  unfold scriptedPutting scriptedAdding
  constructor
  · obtain ⟨-, -, -, hblamed, -⟩ :=
      pair_put_by_adding_or_modifying scriptedSession {} "k" "v" yieldingAnswers
    have hcode : DataType.uint32.decode (.int32 32773) = .ok 32773 := rfl
    have htext : DataType.text.decode (.text "bad\nkey") = .ok "bad\nkey" := rfl
    exact (hblamed _ _ _ _ _ _ _ hyielding hcode List.mem_cons_self htext).2.2
  · obtain ⟨-, -, -, -, hrefused, -⟩ :=
      pair_put_by_adding_or_modifying scriptedSession {} "k" "v" refusingAnswers
    obtain ⟨herror, hput⟩ := hrefused (by
      rw [hrefusing]
      exact .intro (.returnValueFirst (.direct rfl) (.direct rfl)))
    rw [hput, herror]

end VirtualMachine

end CimBroker
