/-
# CimBroker.Proofs.MachineOperations — when an operation on a machine reports success

Starting, stopping and removing a machine, and adding, changing and removing a pair for its guest,
are six times the same: something is looked up, one method is called, what it started is waited for,
and an error may be put into other words.  What such an operation reports is read off its journal
here.  Success is reported if the method was called once and returned zero, or started a job that
was seen to end with error number zero (`operation_reports`).  A job that ended with another number
is reported with that number, under whichever name the operation has for it.

The error number of a job is read in one place only, at the end of a wait.  That is why a journal in
which it is read determines how the operation ends.  Keeping a journal changes nothing about an
operation (`run_journaled`), so that all of this is said about the operation itself.

Both halves rest on `OperationTold`, which `operation_told` shows of every operation, by
`called_told` from the call and the wait.  Putting a pair is made of two operations and has a module
of its own (`CimBroker.Proofs.PairPutting`).  What the method does on the other side, and whether a
job that was seen to be final did what it was for, cannot be read off a journal.
-/
import CimBroker.Machine.Exchange
import CimBroker.Machine.Power
import CimBroker.Proofs.Calls
import CimBroker.Proofs.Waiting

namespace CimBroker

variable {σ α β : Type}

/-! ## A wait, as its journal tells it -/

namespace Service

variable (s : Service σ)

/-- A decoded property is the answer to one read. -/
theorem getAs_told (h : Handle) (name : String) (t : DataType) :
    Tells (fun outcome events => ∃ answer, events = [.get h name answer] ∧
      outcome = answer.bind fun found => t.decode found.1)
      (s.journaled.access.getAs h name t).run := by
  intro b journal
  refine ⟨_, _, _, s.run_getAs_journaled h name t b journal, _, rfl, ?_⟩
  rw [ObjectAccess.run_getAs]

/-- A job is found again under the path that it names. -/
theorem refetch_told (job : Handle) :
    Tells (fun outcome events => ∀ next, outcome = .ok next → ∃ named path,
      (DataType.optional .text).decode named.1 = .ok (some path) ∧
        events = [.get job pathProperty (.ok named), .fetch path (.ok (some next))])
      (s.journaled.refetch job).run := by
  refine Tells.bind (R := fun outcome events => ∀ path, outcome = .ok path → ∃ named,
    (DataType.optional .text).decode named.1 = .ok (some path) ∧
      events = [.get job pathProperty (.ok named)]) ?_ ?_ nofun
  · refine Tells.bind (s.getAs_told job pathProperty (.optional .text)) ?_ ?_
    · rintro path first ⟨answer, rfl, hdecode⟩
      cases answer with
      | error e => cases hdecode
      | ok named =>
        cases path with
        | none => exact Tells.throw nofun
        | some path =>
          refine Tells.pure ?_
          rintro path' ⟨⟩
          exact ⟨named, hdecode.symm, rfl⟩
    · intro e events _
      exact nofun
  · intro path first hpath
    obtain ⟨named, hdecode, rfl⟩ := hpath path rfl
    refine (s.getObject_told path).mono fun outcome rest hfound next hnext => ?_
    obtain ⟨answer, rfl, hanswer⟩ := hfound
    obtain rfl := hanswer next hnext
    exact ⟨named, path, hdecode, rfl⟩

end Service

namespace JobWaiter

/-- A number of looks at a running job, each followed by a fetch of the path that the job names. -/
inductive Polls : Handle → List Event → Handle → Prop
  | here (job : Handle) : Polls job [] job
  | again {job next last : Handle} {state : BitVec 16} {path : String}
      {look named : Variant × CimType} {rest : List Event}
      (hstate : DataType.uint16.decode look.1 = .ok state) (hrunning : state.toNat < finishedState)
      (hpath : (DataType.optional .text).decode named.1 = .ok (some path))
      (hrest : Polls next rest last) :
      Polls job (.get job "JobState" (.ok look) :: .get job pathProperty (.ok named) ::
        .fetch path (.ok (some next)) :: rest) last

theorem Polls.quiet {job last : Handle} {events : List Event} (h : Polls job events last) :
    ∀ e ∈ events, e.Quiet := by
  induction h with
  | here job => exact List.forall_mem_nil _
  | again hstate hrunning hpath _ ih =>
    simp only [List.forall_mem_cons]
    exact ⟨Event.quiet_get _ _ (by decide), Event.quiet_get _ _ (by decide), ⟨rfl, rfl⟩, ih⟩

/-- The polls of a wait are on its journal. -/
theorem polls_of_polled {s : Service σ} {n : Nat} {job last : Handle} {st st' : σ × List Event}
    (h : Polled s.journaled n job st last st') :
    ∃ events, st'.2 = st.2 ++ events ∧ Polls job events last := by
  induction h with
  | here job st => exact ⟨[], by simp, .here job⟩
  | @again n job next last st st₁ st₂ st₃ state hlook hrunning hfetch _ ih =>
    obtain ⟨rest, hrest, hpolls⟩ := ih
    obtain ⟨looked, hlooked, answer, rfl, hstate⟩ :=
      (s.getAs_told job "JobState" .uint16).events hlook
    obtain ⟨fetched, hfetched, hfound⟩ := (s.refetch_told job).events hfetch
    obtain ⟨named, path, hpath, rfl⟩ := hfound next rfl
    cases answer with
    | error e => cases hstate
    | ok look =>
      refine ⟨_, ?_, .again hstate.symm hrunning hpath hpolls⟩
      rw [hrest, hfetched, hlooked]
      simp

/-- What concluding on a final job tells: its error number means nothing; or it is zero; or it is
another, and then the description is read, and if that is a text, both are in the error. -/
inductive ConcludeTold (last : Handle) : Except Error Handle → List Event → Prop
  | unread {e : Error} {answer : Except Error (Variant × CimType)}
      (hanswer : (answer.bind fun told => DataType.uint32.decode told.1) = .error e) :
      ConcludeTold last (.error e) [.get last "ErrorCode" answer]
  | succeeded {code : BitVec 32} {told : Variant × CimType}
      (hcode : DataType.uint32.decode told.1 = .ok code) (hzero : code = 0) :
      ConcludeTold last (.ok last) [.get last "ErrorCode" (.ok told)]
  | failed {e : Error} {code : BitVec 32} {told : Variant × CimType}
      {answer : Except Error (Variant × CimType)}
      (hcode : DataType.uint32.decode told.1 = .ok code) (hne : code ≠ 0)
      (herror : ∀ found description, answer = .ok found →
        DataType.text.decode found.1 = .ok description →
        e = .job code.toNat (oneLine description)) :
      ConcludeTold last (.error e)
        [.get last "ErrorCode" (.ok told), .get last "ErrorDescription" answer]

theorem conclude_told (s : Service σ) (last : Handle) :
    Tells (ConcludeTold last) (conclude s.journaled last).run := by
  refine Tells.bind (s.getAs_told last "ErrorCode" .uint32) ?_ ?_
  · rintro code first ⟨answer, rfl, hanswer⟩
    cases answer with
    | error e => cases hanswer
    | ok told =>
      have hcode : DataType.uint32.decode told.1 = .ok code := hanswer.symm
      by_cases hzero : code.toNat = 0
      · rw [if_pos hzero]
        exact Tells.pure (.succeeded hcode (BitVec.eq_of_toNat_eq hzero))
      · rw [if_neg hzero]
        have hne : code ≠ 0 := by
          rintro rfl
          exact hzero rfl
        refine Tells.bind (s.getAs_told last "ErrorDescription" .text) ?_ ?_
        · rintro description rest ⟨answer, rfl, hanswer⟩
          refine Tells.throw (.failed hcode hne ?_)
          rintro found description' rfl hfound
          cases hanswer.trans hfound
          rfl
        · rintro e rest ⟨answer, rfl, hanswer⟩
          refine .failed hcode hne ?_
          rintro found description rfl hfound
          cases hanswer.trans hfound
  · rintro e events ⟨answer, rfl, hanswer⟩
    exact .unread hanswer.symm

/-- What a wait tells: it is cut short before the error number of a job is read; or it polls the job
until it finds it final, and concludes. -/
inductive WaitTold (job : Handle) : Except Error Handle → List Event → Prop
  | cut {e : Error} {events : List Event} (hasks : ∀ e ∈ events, e.asksCode = false) :
      WaitTold job (.error e) events
  | ended {r : Except Error Handle} {polls rest : List Event} {last : Handle} {state : BitVec 16}
      {look : Variant × CimType} (hpolls : Polls job polls last)
      (hstate : DataType.uint16.decode look.1 = .ok state) (hfinal : finishedState ≤ state.toNat)
      (hconclude : ConcludeTold last r rest) :
      WaitTold job r (polls ++ .get last "JobState" (.ok look) :: rest)

theorem wait_told (w : JobWaiter) (s : Service σ) (job : Handle) :
    Tells (WaitTold job) (w.wait s.journaled job).run := by
  intro b journal
  obtain ⟨n, last, ⟨b', journal'⟩, -, hpolled, -, hending⟩ :=
    wait_ending w s.journaled s.pace.patience 0 job (b, journal)
  obtain ⟨polls, rfl, hpolls⟩ := polls_of_polled hpolled
  -- a wait that is cut short has polled, and then at most looked or tried to fetch
  have hcut {e : Error} {after : σ} {events : List Event} (hquiet : ∀ e ∈ events, e.Quiet) :
      ∃ outcome after' events', ((.error e : Except Error Handle), after,
          journal ++ polls ++ events) = (outcome, after', journal ++ events') ∧
        WaitTold job outcome events' := by
    refine ⟨_, _, polls ++ events, by rw [List.append_assoc], .cut fun event hevent => ?_⟩
    rcases List.mem_append.mp hevent with hmem | hmem
    · exact (hpolls.quiet event hmem).asks
    · exact (hquiet event hmem).asks
  have hlookquiet : Quietly (s.journaled.access.getAs last "JobState" .uint16).run :=
    Quietly.of_parallel fun journal => (s.quiet_alongside journal).getAs last .uint16 (by decide)
  have hfetchquiet : Quietly (s.journaled.refetch last).run :=
    Quietly.of_parallel fun journal => (s.quiet_alongside journal).refetch last
  show ∃ outcome after events, (w.waitWithin s.journaled s.pace.patience 0 job).run (b, journal) =
    (outcome, after, journal ++ events) ∧ WaitTold job outcome events
  generalize (w.waitWithin s.journaled s.pace.patience 0 job).run (b, journal) = r at hending ⊢
  cases hending with
  | spent =>
    have hspent := @hcut (.unfinished (0 + n)) b' [] (List.forall_mem_nil _)
    rwa [List.append_nil] at hspent
  | @unreadable e st _ hlook =>
    obtain ⟨looked, hst, hquiet⟩ := hlookquiet.events hlook
    obtain ⟨after, journal''⟩ := st
    obtain rfl := hst
    exact hcut hquiet
  | @late state st limit _ hlook =>
    obtain ⟨looked, hst, hquiet⟩ := hlookquiet.events hlook
    obtain ⟨after, journal''⟩ := st
    obtain rfl := hst
    exact hcut hquiet
  | @lost state e st st' _ hlook _ _ hfetch =>
    obtain ⟨looked, hst, hquiet⟩ := hlookquiet.events hlook
    obtain ⟨fetched, hst', hquiet'⟩ := hfetchquiet.events hfetch
    obtain ⟨after, journal''⟩ := st'
    rw [hst, List.append_assoc] at hst'
    obtain rfl := hst'
    exact hcut fun event hevent => (List.mem_append.mp hevent).elim (hquiet event) (hquiet' event)
  | @final state st _ hlook hfinal =>
    obtain ⟨looked, hst, answer, rfl, hstate⟩ := (s.getAs_told last "JobState" .uint16).events hlook
    obtain ⟨seen, journal''⟩ := st
    obtain rfl := hst
    cases answer with
    | error e => cases hstate
    | ok look =>
      obtain ⟨outcome, after, rest, hrun, hconclude⟩ := conclude_told s last seen _
      refine ⟨outcome, after, _, ?_, .ended hpolls hstate.symm hfinal hconclude⟩
      rw [hrun]
      simp

/-- What waiting for the result of a method tells. -/
inductive ResultTold (returnValue : Nat) (job : Option Handle) :
    Except Error Unit → List Event → Prop
  | done (hzero : returnValue = 0) : ResultTold returnValue job (.ok ()) []
  | waited {h : Handle} {r : Except Error Handle} {events : List Event}
      (hstarted : returnValue = jobStarted) (hjob : job = some h) (hwait : WaitTold h r events) :
      ResultTold returnValue job (r.map fun _ => ()) events
  | refused {e : Error} : ResultTold returnValue job (.error e) []

theorem waitResult_told (w : JobWaiter) (s : Service σ) (method : String) (returnValue : Nat)
    (job : Option Handle) :
    Tells (ResultTold returnValue job) (w.waitResult s.journaled method returnValue job).run := by
  unfold waitResult
  by_cases hzero : returnValue = 0
  · rw [if_pos hzero]
    exact Tells.pure (.done hzero)
  · rw [if_neg hzero]
    by_cases hstarted : returnValue = jobStarted
    · rw [if_pos hstarted]
      cases job with
      | none => exact Tells.throw_bind .refused
      | some h =>
        show Tells _ (do let _ ← w.wait s.journaled h : Action (σ × List Event) Unit).run
        refine Tells.bind (wait_told w s h) (fun last events htold => ?_) fun e events htold => ?_
        · refine Tells.pure ?_
          rw [List.append_nil]
          exact .waited hstarted rfl htold
        · exact .waited hstarted rfl htold
    · rw [if_neg hstarted]
      exact Tells.throw .refused

end JobWaiter

/-! ## Operations on machines -/

namespace VirtualMachine

/-- The operations on a machine that call one method and wait for what it started. -/
inductive Operation where
  | start
  | stop
  /-- Removes the machine and leaves its disk. -/
  | remove
  | addPair (key value : String)
  | modifyPair (key value : String)
  | removePair (key : String)

namespace Operation

/-- Carries an operation out. -/
def run (s : Service σ) (vm : VirtualMachine) (files : Files σ) : Operation → Action σ Unit
  | start => vm.start s
  | stop => vm.stop s
  | remove => vm.remove s files none
  | addPair key value => vm.addPair s key value
  | modifyPair key value => vm.modifyPair s key value
  | removePair key => vm.removePair s key

/-- The method that an operation calls. -/
def method : Operation → String
  | start => "RequestStateChange"
  | stop => "InitiateShutdown"
  | remove => "DestroySystem"
  | addPair _ _ => "AddKvpItems"
  | modifyPair _ _ => "ModifyKvpItems"
  | removePair _ => "RemoveKvpItems"

/-- Whether an operation is about the pairs for the guest. -/
def exchanges : Operation → Bool
  | start | stop | remove => false
  | addPair _ _ | modifyPair _ _ | removePair _ => true

/-- The order in which an operation reads the outputs of its method. -/
def order (op : Operation) : JobOutputs :=
  if op.exchanges then .returnValueFirst else .jobFirst

end Operation

/-- The journal of a call that returned outputs and of a job that it started, up to the look that
found the job final at its last handle. -/
inductive Watched (method : String) (order : JobOutputs) (last : Handle) : List Event → Prop
  | intro {before answers polls : List Event} {path : String} {inputs : Option Handle}
      {outputs job : Handle} {returnValue : BitVec 32} {state : BitVec 16}
      {look : Variant × CimType} (hanswers : Answered outputs returnValue (some job) order answers)
      (hstarted : returnValue.toNat = jobStarted) (hpolls : JobWaiter.Polls job polls last)
      (hstate : DataType.uint16.decode look.1 = .ok state)
      (hfinal : finishedState ≤ state.toNat) :
      Watched method order last (before ++ .invoke path method inputs (.ok (some outputs)) ::
        (answers ++ (polls ++ [.get last "JobState" (.ok look)])))

/-- The journal of a call that returned outputs with the return value zero. -/
inductive DoneAtOnce (method : String) (order : JobOutputs) : List Event → Prop
  | intro {before answers : List Event} {path : String} {inputs job : Option Handle}
      {outputs : Handle} (hanswers : Answered outputs 0 job order answers) :
      DoneAtOnce method order (before ++ .invoke path method inputs (.ok (some outputs)) :: answers)

open JobWaiter in
/-- What an operation tells, if it calls a method and puts errors as `f` says.  It is cut short
before the error number of a job is read; or its method returned zero; or the job that its method
started was watched until it was final, and it ends as that job is concluded. -/
inductive OperationTold (method : String) (order : JobOutputs) (f : Error → Error) :
    Except Error Unit → List Event → Prop
  | cut {e : Error} {events : List Event} (hasks : ∀ e ∈ events, e.asksCode = false) :
      OperationTold method order f (.error e) events
  | done {events : List Event} (hdone : DoneAtOnce method order events)
      (hinvokes : events.countP Event.isInvoke = 1) (hasks : ∀ e ∈ events, e.asksCode = false) :
      OperationTold method order f (.ok ()) events
  | ended {seen rest : List Event} {last : Handle} {r : Except Error Handle}
      (hwatched : Watched method order last seen) (hinvokes : seen.countP Event.isInvoke = 1)
      (hasks : ∀ e ∈ seen, e.asksCode = false) (hconclude : ConcludeTold last r rest) :
      OperationTold method order f ((r.map fun _ => ()).mapError f) (seen ++ rest)

variable {method : String} {order : JobOutputs} {f : Error → Error}

/-- Quiet preparations leave what an operation tells as it is. -/
theorem OperationTold.after {first rest : List Event} {r : Except Error Unit}
    (hfirst : ∀ e ∈ first, e.Quiet) (h : OperationTold method order f r rest) :
    OperationTold method order f r (first ++ rest) := by
  have hasksFirst : ∀ e ∈ first, e.asksCode = false := fun e he => (hfirst e he).asks
  have hnoInvoke := Event.countP_isInvoke_of_quiet hfirst
  cases h with
  | cut hasks => exact .cut (List.forall_mem_append.mpr ⟨hasksFirst, hasks⟩)
  | done hdone hinvokes hasks =>
    refine .done ?_ ?_ (List.forall_mem_append.mpr ⟨hasksFirst, hasks⟩)
    · cases hdone with
      | intro hanswers =>
        rw [← List.append_assoc]
        exact .intro hanswers
    · rw [List.countP_append, hnoInvoke, hinvokes]
  | ended hwatched hinvokes hasks hconclude =>
    rw [← List.append_assoc]
    refine .ended ?_ ?_ (List.forall_mem_append.mpr ⟨hasksFirst, hasks⟩) hconclude
    · cases hwatched with
      | intro hanswers hstarted hpolls hstate hfinal =>
        rw [← List.append_assoc]
        exact .intro hanswers hstarted hpolls hstate hfinal
    · rw [List.countP_append, hnoInvoke, hinvokes]

open JobWaiter in
/-- A call and the wait for its result, put together. -/
theorem operationTold_of_result {returnValue : Nat} {job : Option Handle} {first rest : List Event}
    {r : Except Error Unit} (hcall : CallTold method order (.ok (returnValue, job)) first)
    (hresult : ResultTold returnValue job r rest) :
    OperationTold method order f (r.mapError f) (first ++ rest) := by
  cases hcall with
  | @answered before answers path inputs job outputs returnValue hbefore hanswers =>
    have hquiet := hanswers.quiet
    -- the call itself is the one event that is not quiet
    have hasks : ∀ e ∈ before ++ .invoke path method inputs (.ok (some outputs)) :: answers,
        e.asksCode = false := by
      simp only [List.forall_mem_append, List.forall_mem_cons]
      exact ⟨fun e he => (hbefore e he).asks, rfl, fun e he => (hquiet e he).asks⟩
    have hinvokes : (before ++ .invoke path method inputs (.ok (some outputs)) ::
        answers).countP Event.isInvoke = 1 := by
      rw [List.countP_append, List.countP_cons_of_pos rfl, Event.countP_isInvoke_of_quiet hbefore,
        Event.countP_isInvoke_of_quiet hquiet]
    cases hresult with
    | done hzero =>
      obtain rfl : returnValue = 0 := BitVec.eq_of_toNat_eq hzero
      rw [List.append_nil]
      exact .done (.intro hanswers) hinvokes hasks
    | refused =>
      rw [List.append_nil]
      exact .cut hasks
    | @waited h r events hstarted hjob hwait =>
      obtain rfl := hjob
      cases hwait with
      | cut hasks' => exact .cut (List.forall_mem_append.mpr ⟨hasks, hasks'⟩)
      | @ended _ polls rest last state look hpolls hstate hfinal hconclude =>
        have hlook : ∀ e ∈ polls ++ [.get last "JobState" (.ok look)], e.Quiet := by
          simp only [List.forall_mem_append, List.forall_mem_singleton]
          exact ⟨hpolls.quiet, Event.quiet_get _ _ (by decide)⟩
        have hevents : (before ++ .invoke path method inputs (.ok (some outputs)) :: answers) ++
            (polls ++ .get last "JobState" (.ok look) :: rest) =
            (before ++ .invoke path method inputs (.ok (some outputs)) ::
              (answers ++ (polls ++ [.get last "JobState" (.ok look)]))) ++ rest := by
          simp
        rw [hevents]
        refine .ended (.intro hanswers hstarted hpolls hstate hfinal) ?_ ?_ hconclude
        · rw [← List.cons_append, ← List.append_assoc, List.countP_append, hinvokes,
            Event.countP_isInvoke_of_quiet hlook]
        · rw [← List.cons_append, ← List.append_assoc, List.forall_mem_append]
          exact ⟨hasks, fun e he => (hlook e he).asks⟩

open JobWaiter in
/-- A call followed by a wait for its result, with errors put as `f` says. -/
theorem called_told (s : Service σ) (target : Handle) (method : String)
    (inputs : List (String × Argument)) (order : JobOutputs)
    (hnames : ∀ input ∈ inputs, input.1 ≠ "ErrorCode")
    {tail : Nat × Option Handle → Action (σ × List Event) Unit}
    (htail : ∀ returnValue job, Tells
      (fun outcome events => ∃ r, outcome = r.mapError f ∧ ResultTold returnValue job r events)
      (tail (returnValue, job)).run) :
    Tells (OperationTold method order f)
      (s.journaled.call target method inputs order >>= tail).run := by
  refine Tells.bind (call_told s target method inputs order hnames) ?_ ?_
  · rintro ⟨returnValue, job⟩ first hcall
    refine (htail returnValue job).mono fun outcome rest hrest => ?_
    obtain ⟨r, rfl, hresult⟩ := hrest
    exact operationTold_of_result hcall hresult
  · intro e events hcall
    cases hcall with
    | failed hasks => exact .cut hasks

/-- An operation that reports success has called its method once, and the method returned zero or
started a job that was seen to be final with the error number zero. -/
theorem OperationTold.succeeded {events : List Event}
    (h : OperationTold method order f (.ok ()) events) :
    events.countP Event.isInvoke = 1 ∧
      (DoneAtOnce method order events ∨
        ∃ seen last told, Watched method order last seen ∧
          DataType.uint32.decode told.1 = .ok 0 ∧
          events = seen ++ [.get last "ErrorCode" (.ok told)]) := by
  generalize houtcome : (.ok () : Except Error Unit) = outcome at h
  cases h with
  | cut => cases houtcome
  | done hdone hinvokes => exact ⟨hinvokes, .inl hdone⟩
  | @ended seen rest last r' hwatched hinvokes hasks hconclude =>
    cases hconclude with
    | unread => cases houtcome
    | failed => cases houtcome
    | succeeded hcode hzero =>
      subst hzero
      refine ⟨?_, .inr ⟨seen, last, _, hwatched, hcode, rfl⟩⟩
      rw [List.countP_append, hinvokes]
      rfl

/-- An operation in which the error number of a job was read as zero has succeeded. -/
theorem OperationTold.ok_of_zero {r : Except Error Unit} {events : List Event}
    (h : OperationTold method order f r events) {last : Handle} {told : Variant × CimType}
    (hread : .get last "ErrorCode" (.ok told) ∈ events)
    (hzero : DataType.uint32.decode told.1 = .ok 0) : r = .ok () := by
  cases h with
  | cut hasks => cases hasks _ hread
  | done => rfl
  | @ended seen rest last' r' hwatched hinvokes hasks hconclude =>
    -- the one place where an error number is read is the conclusion
    have hrest : .get last "ErrorCode" (.ok told) ∈ rest := by
      rcases List.mem_append.mp hread with hseen | hrest
      · cases hasks _ hseen
      · exact hrest
    cases hconclude with
    | unread hanswer =>
      cases List.mem_singleton.mp hrest
      cases hanswer.symm.trans hzero
    | succeeded => rfl
    | failed hcode hne =>
      rcases List.mem_cons.mp hrest with hevent | hevent
      · cases hevent
        exact absurd (Except.ok.inj (hcode.symm.trans hzero)) hne
      · simp at hevent

/-- An operation after quiet preparations, which may fail. -/
theorem told_of_quietly {action : Action (σ × List Event) α}
    {next : α → Action (σ × List Event) Unit}
    (h : ∀ journal, Parallel (QuietSince journal) action.run action.run)
    (hnext : ∀ x, Tells (OperationTold method order f) (next x).run) :
    Tells (OperationTold method order f) (action >>= next).run := by
  refine Tells.bind (Quietly.of_parallel h) (fun x first hquiet => ?_) fun e events hquiet => ?_
  · exact (hnext x).mono fun _ rest hrest => hrest.after hquiet
  · exact .cut fun event hevent => (hquiet event hevent).asks

/-- An operation that is refused before it reaches anyone. -/
theorem told_of_throw (e : Error) :
    Tells (OperationTold method order f) (throw e : Action (σ × List Event) Unit).run :=
  Tells.throw (.cut (List.forall_mem_nil _))

namespace Operation

/-- What an operation makes of the error of a wait. -/
def explain (vm : VirtualMachine) : Operation → Error → Error
  | start, e | stop, e => e
  | remove, e => vm.asDestroyFailure e
  | addPair _ _, e => e.explained "key already exists?"
  | modifyPair _ _, e | removePair _, e => e.explained "key invalid?"

end Operation

/-! ## Operations side by side -/

section SideBySide

variable {τ : Type} {R : σ → τ → Prop} {s : Service σ} {s' : Service τ}

/-- Writing out a pair reads nothing. -/
theorem parallel_itemText {names : String → Prop} (k : s.Alongside names R s')
    (key value : String) : Parallel R (itemText s key value).run (itemText s' key value).run := by
  refine Parallel.bind (Parallel.bind (k.getObject _) fun _ => k.spawn _) fun item => ?_
  refine Parallel.bind (k.put item "Name" _) fun _ => ?_
  refine Parallel.bind (k.put item "Data" _) fun _ => ?_
  exact Parallel.bind (k.put item "Source" _) fun _ => k.text item

/-- Waiting with the pause and the timeout of the session. -/
theorem parallel_wait (k : s.Alongside (fun _ => True) R s') (method : String) (returnValue : Nat)
    (job : Option Handle) :
    Parallel R ((JobWaiter.ofService s).waitResult s method returnValue job).run
      ((JobWaiter.ofService s').waitResult s' method returnValue job).run := by
  have hwaiter : JobWaiter.ofService s' = JobWaiter.ofService s := by
    unfold JobWaiter.ofService
    rw [k.config]
  rw [hwaiter]
  exact k.waitResult _ trivial trivial trivial method returnValue job

theorem parallel_perform (k : s.Alongside (fun _ => True) R s') (hinvoke : s.InvokesAlike R s')
    (target : Handle) (method : String) (inputs : List (String × Argument)) :
    Parallel R (perform s target method inputs).run (perform s' target method inputs).run := by
  refine Parallel.bind (k.call hinvoke target method inputs .jobFirst (fun _ _ => trivial) trivial
    trivial) fun r => ?_
  exact parallel_wait k method r.1 r.2

theorem parallel_exchange (k : s.Alongside (fun _ => True) R s') (hinvoke : s.InvokesAlike R s')
    (vm : VirtualMachine) (method key value hint : String) :
    Parallel R (exchange s vm method key value hint).run
      (exchange s' vm method key value hint).run := by
  refine Parallel.bind (k.getSingleton managementServiceClass) fun target => ?_
  refine Parallel.bind (parallel_itemText k key value) fun item => ?_
  refine Parallel.bind (k.call hinvoke target method _ .returnValueFirst (fun _ _ => trivial)
    trivial trivial) fun r => ?_
  exact Parallel.mapError _ (parallel_wait k method r.1 r.2)

/-- **An operation goes side by side with itself** (`Parallel`) over two connections that answer
alike (`InvokesAlike`). -/
theorem parallel_run (k : s.Alongside (fun _ => True) R s') (hinvoke : s.InvokesAlike R s')
    (vm : VirtualMachine) (op : Operation) (files : Files σ) (files' : Files τ) :
    Parallel R (op.run s vm files).run (op.run s' vm files').run := by
  cases op with
  | start =>
    show Parallel R (vm.start s).run (vm.start s').run
    unfold start
    split
    · exact Parallel.throw _
    · exact Parallel.bind (k.getObject _) fun target => parallel_perform k hinvoke target _ _
  | stop =>
    show Parallel R (vm.stop s).run (vm.stop s').run
    unfold stop
    split
    · exact Parallel.throw _
    · exact Parallel.bind (k.findRelated _ _) fun target => parallel_perform k hinvoke target _ _
  | remove =>
    show Parallel R (vm.remove s files none).run (vm.remove s' files' none).run
    unfold remove
    split
    · exact Parallel.throw _
    · refine Parallel.bind (k.getSingleton managementServiceClass) fun target => ?_
      refine Parallel.bind (k.call hinvoke target "DestroySystem" _ .jobFirst (fun _ _ => trivial)
        trivial trivial) fun r => ?_
      exact Parallel.bind (Parallel.mapError _ (parallel_wait k _ r.1 r.2))
        fun _ => Parallel.pure ()
  | addPair key value => exact parallel_exchange k hinvoke vm "AddKvpItems" key value _
  | modifyPair key value => exact parallel_exchange k hinvoke vm "ModifyKvpItems" key value _
  | removePair key => exact parallel_exchange k hinvoke vm "RemoveKvpItems" key "" _

end SideBySide

/-! ## What operations tell -/

open JobWaiter

variable (s : Service σ) (vm : VirtualMachine)

/-- A call on an object that is waited for, with no error put differently. -/
theorem perform_told (target : Handle) (method : String) (inputs : List (String × Argument))
    (hnames : ∀ input ∈ inputs, input.1 ≠ "ErrorCode") :
    Tells (OperationTold method .jobFirst id) (perform s.journaled target method inputs).run := by
  refine called_told s target method inputs .jobFirst hnames fun returnValue job => ?_
  refine (waitResult_told (.ofService s) s method returnValue job).mono fun r events hresult => ?_
  refine ⟨r, ?_, hresult⟩
  cases r <;> rfl

/-- A method that is called on the item of a pair. -/
theorem exchange_told (method key value hint : String) :
    Tells (OperationTold method .returnValueFirst (Error.explained hint))
      (exchange s.journaled vm method key value hint).run := by
  refine told_of_quietly (fun journal => (s.quiet_alongside journal).getSingleton _)
    fun target => ?_
  refine told_of_quietly (fun journal => parallel_itemText (s.quiet_alongside journal) key value)
    fun item => ?_
  refine called_told s target method _ .returnValueFirst (by simp) fun returnValue job => ?_
  refine Tells.mapError ?_
  refine (waitResult_told (.ofService s) s method returnValue job).mono fun r events hresult => ?_
  exact ⟨r, rfl, hresult⟩

theorem remove_told (files : Files (σ × List Event)) :
    Tells (OperationTold "DestroySystem" .jobFirst vm.asDestroyFailure)
      (vm.remove s.journaled files none).run := by
  unfold remove
  split
  · exact told_of_throw _
  · refine told_of_quietly (fun journal => (s.quiet_alongside journal).getSingleton _)
      fun target => ?_
    refine called_told s target "DestroySystem" _ .jobFirst (by simp) fun returnValue job => ?_
    refine Tells.bind (Tells.mapError (R := fun outcome events =>
      ∃ r, outcome = r.mapError vm.asDestroyFailure ∧ ResultTold returnValue job r events) ?_) ?_ ?_
    · refine (waitResult_told (.ofService s) s _ returnValue job).mono fun r events hresult => ?_
      exact ⟨r, rfl, hresult⟩
    · rintro x first htold
      refine Tells.pure ?_
      rw [List.append_nil]
      exact htold
    · exact fun _ _ htold => htold

/-- **What an operation tells** (`OperationTold`), whichever it is. -/
theorem operation_told (op : Operation) (files : Files (σ × List Event)) :
    Tells (OperationTold op.method op.order (op.explain vm)) (op.run s.journaled vm files).run := by
  cases op with
  | start =>
    show Tells (OperationTold "RequestStateChange" .jobFirst id) (vm.start s.journaled).run
    unfold start
    split
    · exact told_of_throw _
    · exact told_of_quietly (fun journal => (s.quiet_alongside journal).getObject _) fun target =>
        perform_told s target _ _ (by simp)
  | stop =>
    show Tells (OperationTold "InitiateShutdown" .jobFirst id) (vm.stop s.journaled).run
    unfold stop
    split
    · exact told_of_throw _
    · exact told_of_quietly (fun journal => (s.quiet_alongside journal).findRelated _ _)
        fun target => perform_told s target _ _ (by simp)
  | remove => exact remove_told s vm files
  | addPair key value => exact exchange_told s vm "AddKvpItems" key value _
  | modifyPair key value => exact exchange_told s vm "ModifyKvpItems" key value _
  | removePair key => exact exchange_told s vm "RemoveKvpItems" key "" _

/-- Keeping a journal of an operation changes nothing about it. -/
theorem run_journaled (op : Operation) (files : Files (σ × List Event)) (files' : Files σ) (b : σ)
    (journal : List Event) :
    let r := (op.run s.journaled vm files).run (b, journal)
    (r.1, r.2.1) = (op.run s vm files').run b := by
  obtain ⟨houtcome, hafter⟩ := parallel_run s.journaled_alongside s.journaled_invokesAlike vm op
    files files' (b, journal) b rfl
  exact Prod.ext houtcome hafter

/-! ## What is reported -/

/-- The numbers from 32768 to 32779 have a meaning of their own, and no other. -/
theorem ofCode?_eq_none {code : Nat} {hint : String} :
    DomainFault.ofCode? code hint = none ↔ ¬ (32768 ≤ code ∧ code ≤ 32779) := by
  unfold DomainFault.ofCode?
  split
  all_goals simp
  -- none of the twelve numbers
  intro hlow
  simp only [imp_false] at *
  omega

/-- What is made of the number of a failed job: its meaning, if the operation is about pairs and the
number has one, and otherwise the number with the description. -/
def JobReport (op : Operation) (code : Nat) (description : String) (e : Error) : Prop :=
  if op.exchanges ∧ 32768 ≤ code ∧ code ≤ 32779 then ∃ fault, e = .domain fault code
  else e = .job code description

theorem jobReport_explained {op : Operation} (h : op.exchanges = true) (hint : String) (code : Nat)
    (description : String) :
    JobReport op code description ((Error.job code description).explained hint) := by
  unfold JobReport Error.explained
  simp only [h, true_and]
  cases hfault : DomainFault.ofCode? code hint with
  | none => rw [if_neg (ofCode?_eq_none.mp hfault)]
  | some fault =>
    have hrange : 32768 ≤ code ∧ code ≤ 32779 := by
      refine Decidable.byContradiction fun hout => ?_
      rw [ofCode?_eq_none.mpr hout] at hfault
      cases hfault
    rw [if_pos hrange]
    exact ⟨fault, rfl⟩

/-- Every operation reports the number of a failed job. -/
theorem jobReport_explain (op : Operation) (code : Nat) (description : String) :
    JobReport op code description (op.explain vm (.job code description)) := by
  cases op with
  | addPair key value => exact jobReport_explained rfl _ code description
  | modifyPair key value => exact jobReport_explained rfl _ code description
  | removePair key => exact jobReport_explained rfl _ code description
  | _ => simp [JobReport, Operation.exchanges, Operation.explain, asDestroyFailure]

theorem JobReport.jobCode {op : Operation} {code : Nat} {description : String} {e : Error}
    (h : JobReport op code description e) : e.jobCode? = some code := by
  unfold JobReport at h
  split at h
  · obtain ⟨fault, rfl⟩ := h
    rfl
  · rw [h]
    rfl

/-- **What an operation reports.** However the other side behaves: an operation (`Operation.run`)
that reports success has called its method once, and the method either returned zero (`DoneAtOnce`)
or started a job that was seen to be final (`Watched`) with the error number zero.  And where the
journal shows that an error number other than zero was read, it is that of the job that the method
started, found final; its description was read next and last; and if that is a text, the operation
reports the number (`JobReport`). -/
theorem operation_reports (op : Operation) (files : Files (σ × List Event)) (b : σ) :
    let r := (op.run s.journaled vm files).run (b, [])
    let journal := r.2.2
    (r.1 = .ok () → journal.countP Event.isInvoke = 1 ∧
      (DoneAtOnce op.method op.order journal ∨
        ∃ seen last told, Watched op.method op.order last seen ∧
          DataType.uint32.decode told.1 = .ok 0 ∧
          journal = seen ++ [.get last "ErrorCode" (.ok told)])) ∧
    (∀ seen last told code rest, journal = seen ++ .get last "ErrorCode" (.ok told) :: rest →
      DataType.uint32.decode told.1 = .ok code → code ≠ 0 →
      Watched op.method op.order last seen ∧
        ∃ answer, rest = [.get last "ErrorDescription" answer] ∧
          ∀ found description, answer = .ok found →
            DataType.text.decode found.1 = .ok description →
            ∃ e, r.1 = .error e ∧ e.jobCode? = some code.toNat ∧
              JobReport op code.toNat (oneLine description) e) := by
  intro r journal
  obtain ⟨outcome, after, events, hrun, htold⟩ := operation_told s vm op files b []
  have hr : r = (outcome, after, events) := hrun
  have houtcome : r.1 = outcome := by rw [hr]
  have hjournal : journal = events := congrArg (fun r => r.2.2) hr
  rw [houtcome, hjournal]
  constructor
  · intro hok
    subst hok
    exact htold.succeeded
  · intro seen last told code rest hsplit hcode hne
    have hread : (Event.get last "ErrorCode" (.ok told)) ∈ events := by rw [hsplit]; simp
    cases htold with
    | cut hasks => cases (hasks _ hread).symm.trans rfl
    | done _ _ hasks => cases hasks _ hread
    | @ended seen' rest' last' r' hwatched hinvokes hasks hconclude =>
      cases hconclude with
      | @unread e answer hanswer =>
        -- the error number that was read means something
        obtain ⟨-, hevent, -⟩ :=
          Event.split_unique Event.asksCode hsplit.symm rfl hasks (List.forall_mem_nil _)
        cases hevent
        cases hanswer.symm.trans hcode
      | succeeded hcode' hzero =>
        obtain ⟨-, hevent, -⟩ :=
          Event.split_unique Event.asksCode hsplit.symm rfl hasks (List.forall_mem_nil _)
        cases hevent
        cases hcode'.symm.trans hcode
        exact absurd hzero hne
      | @failed e code' told' answer hcode' _ herror =>
        obtain ⟨rfl, hevent, rfl⟩ :=
          Event.split_unique Event.asksCode hsplit.symm rfl hasks (by simp [Event.asksCode])
        cases hevent
        cases hcode'.symm.trans hcode
        refine ⟨hwatched, answer, rfl, fun found description hanswer htext => ?_⟩
        have hreport := jobReport_explain vm op code.toNat (oneLine description)
        rw [herror found description hanswer htext]
        exact ⟨_, rfl, hreport.jobCode, hreport⟩

/-! ### A pair whose job blames its key -/

/-- A connection that answers each read with the next of the values that it is given, and everything
else with one and the same object. -/
def scriptedConnection : Connection (List Variant) where
  get _ _ := Action.ofRun fun
    | [] => (.error .file, [])
    | v :: rest => (.ok (v, .scalarOf .string), rest)
  put _ _ _ := pure ()
  properties _ := pure .empty
  spawn h := pure h
  clone h := pure h
  signature h _ := pure (some h, some h)
  text _ := pure ""
  next _ := pure (some ⟨0⟩)
  depth _ := 0
  remaining _ _ := 0
  query _ := pure ⟨0⟩
  enumerate _ := pure ⟨0⟩
  fetch _ := pure (some ⟨0⟩)
  invoke _ _ _ := pure (some ⟨0⟩)

/-- A session that looks at a job once. -/
def scriptedSession : Service (List Variant) := ⟨scriptedConnection, .standard, ⟨1, fun _ _ => ⟨0⟩⟩⟩

/-- The path and the class of the management service, a started job, and that job, which has failed
over an argument. -/
def blamingAnswers : List Variant :=
  [.text "P", .text "C", .int32 4096, .object ⟨1⟩, .int32 7, .int32 32773, .text "bad\nkey"]

/-- Adding a pair in that session. -/
def blamedRun : Except Error Unit × (List Variant × List Event) :=
  ((Operation.addPair "k" "v").run scriptedSession.journaled {}
    ⟨fun _ => throw .file, fun _ => throw .file⟩).run (blamingAnswers, [])

theorem blamedRun_journal :
    blamedRun.2.2 = blamedRun.2.2.take 15 ++
      .get ⟨1⟩ "ErrorCode" (.ok (.int32 32773, .scalarOf .string)) ::
        [.get ⟨1⟩ "ErrorDescription" (.ok (.text "bad\nkey", .scalarOf .string))] := by
  decide +kernel

/-- Adding a pair reports the number and the meaning of the failed job. -/
theorem blamed_pair_is_reported :
    ∃ e, blamedRun.1 = .error e ∧ e.jobCode? = some 32773 ∧
      JobReport (.addPair "k" "v") 32773 "bad key" e := by
  obtain ⟨-, answer, hrest, hreport⟩ :=
    (operation_reports scriptedSession {} (.addPair "k" "v")
      ⟨fun _ => throw .file, fun _ => throw .file⟩ blamingAnswers).2
      _ _ _ 32773 _ blamedRun_journal rfl (by decide)
  obtain ⟨e, he, hcode, htold⟩ := hreport (.text "bad\nkey", .scalarOf .string) "bad\nkey"
    (by cases hrest; rfl) rfl
  exact ⟨e, he, hcode, htold⟩

end VirtualMachine

end CimBroker
