/-
# CimBroker.Proofs.DiskRemoval — a disk is deleted after its machine, and only then

Removing a machine may delete the file of its disk, which cannot be taken back.  Here the files are
watched: every deletion is noted before anyone hears of it, with the journal as it stands at that
moment.  So what a removal has deleted, and what it knew when it did, can be read off the end of a
run, whichever way the run went (`disk_deleted_after_destruction`).

No round trip of a session touches the notes (`watched_alongside`), so that all that is left is the
one place where a removal deletes something.  A return value is read in one place too, in the call
of the method, and the wait that follows reads none (`valueReads_alongside`).

What counts as knowing that a machine is gone is `Destroyed`: its removing method returned zero, or
started a job that was seen to be final without an error.  Whether the other side speaks the truth,
and whether the file system does what it says, is beyond this.
-/
import CimBroker.Proofs.MachineOperations

namespace CimBroker

variable {σ α : Type}

open CimBroker.Action

/-! ## Watched files -/

/-- An attempt to delete a file, with the journal up to it. -/
structure Deletion where
  path : String
  journal : List Event

/-- The files of a journaled session, with a note of every attempt to delete one, successful or
not. -/
def Files.watched (files : Files σ) : Files ((σ × List Deletion) × List Event) where
  read path := (files.read path).onFirst.onFirst
  delete path := ofRun fun st =>
    let (outcome, after) := (files.delete path).run st.1.1
    (outcome, (after, st.1.2 ++ [⟨path, st.2⟩]), st.2)

/-- Deletes the file of a disk, if there is a disk. -/
def Files.deleteDisk (files : Files σ) : Option String → Action σ Unit
  | some path => files.delete path
  | none => pure ()

/-- Deleting a watched disk is deleting it, with a note of it. -/
theorem Files.run_deleteDisk_watched (files : Files σ) (disk : Option String) (world : σ)
    (deletions : List Deletion) (journal : List Event) :
    (files.watched.deleteDisk disk).run ((world, deletions), journal) =
      (((files.deleteDisk disk).run world).1,
        (((files.deleteDisk disk).run world).2, deletions ++ disk.toList.map (⟨·, journal⟩)),
        journal) := by
  cases disk with
  | none =>
    show _ = (_, (_, deletions ++ []), journal)
    rw [List.append_nil]
    rfl
  | some path => rfl

/-- The session beside a state that it does not touch. -/
def Service.beside (τ : Type) (s : Service σ) : Service (σ × τ) :=
  ⟨s.connection.onFirst τ, s.config, s.pace⟩

/-- A watched session that has deleted nothing, in a state of the session that is watched. -/
def Untouched (st : (σ × List Deletion) × List Event) (world : σ) : Prop := st.1 = (world, [])

/-- Watching changes nothing, and no round trip of a session deletes a file. -/
theorem Service.watched_alongside (s : Service σ) :
    (s.beside (List Deletion)).journaled.Alongside (fun _ => True) Untouched s where
  get _ _ _ := by rintro ⟨_, journal⟩ world rfl; exact ⟨rfl, rfl⟩
  put _ _ _ := by rintro ⟨_, journal⟩ world rfl; exact ⟨rfl, rfl⟩
  spawn _ := by rintro ⟨_, journal⟩ world rfl; exact ⟨rfl, rfl⟩
  text _ := by rintro ⟨_, journal⟩ world rfl; exact ⟨rfl, rfl⟩
  signature _ _ := by rintro ⟨_, journal⟩ world rfl; exact ⟨rfl, rfl⟩
  next _ := by rintro ⟨_, journal⟩ world rfl; exact ⟨rfl, rfl⟩
  query _ := by rintro ⟨_, journal⟩ world rfl; exact ⟨rfl, rfl⟩
  enumerate _ := by rintro ⟨_, journal⟩ world rfl; exact ⟨rfl, rfl⟩
  fetch _ := by rintro ⟨_, journal⟩ world rfl; exact ⟨rfl, rfl⟩
  config := rfl
  pace := rfl
  path := trivial
  className := trivial

theorem Service.watched_invokesAlike (s : Service σ) :
    (s.beside (List Deletion)).journaled.InvokesAlike Untouched s := by
  rintro path method inputs ⟨_, journal⟩ world rfl
  exact ⟨rfl, rfl⟩

/-! ## Return values -/

/-- Whether the event is a read of a return value. -/
def Event.readsValue : Event → Bool
  | .get _ name _ => name == "ReturnValue"
  | _ => false

/-- The reads of return values on a journal. -/
def valueReads (st : σ × List Event) : List Event := st.2.filter Event.readsValue

/-- A return value was read, and it is the given number. -/
def ReturnValueRead (journal : List Event) (code : BitVec 32) : Prop :=
  ∃ h told, .get h "ReturnValue" (.ok told) ∈ journal ∧ DataType.uint32.decode told.1 = .ok code

theorem returnValueRead_iff (st : σ × List Event) (code : BitVec 32) :
    ReturnValueRead st.2 code ↔ ReturnValueRead (valueReads st) code := by
  simp [ReturnValueRead, valueReads, List.mem_filter, Event.readsValue]

/-- The return values that were read are a matter of the reads of return values. -/
theorem ReturnValueRead.congr {st st' : σ × List Event} (h : valueReads st' = valueReads st)
    {code : BitVec 32} (hread : ReturnValueRead st'.2 code) : ReturnValueRead st.2 code := by
  rw [returnValueRead_iff] at hread ⊢
  rwa [← h]

theorem not_returnValueRead {st : σ × List Event} (h : valueReads st = []) (code : BitVec 32) :
    ¬ ReturnValueRead st.2 code := by
  rw [returnValueRead_iff, h]
  rintro ⟨_, _, hmem, -⟩
  cases hmem

theorem ReturnValueRead.of_append {journal events : List Event} {code : BitVec 32}
    (h : ReturnValueRead (journal ++ events) code) (hnot : ¬ ReturnValueRead journal code) :
    ReturnValueRead events code := by
  obtain ⟨handle, told, hmem, hdecode⟩ := h
  rcases List.mem_append.mp hmem with hmem | hmem
  · exact absurd ⟨handle, told, hmem, hdecode⟩ hnot
  · exact ⟨handle, told, hmem, hdecode⟩

theorem keeps_valueReads {event : Except Error α → Event}
    (h : ∀ answer, (event answer).readsValue = false) (action : Action σ α) :
    (action.witnessed event).Keeps valueReads := by
  intro st
  show (st.2 ++ [event _]).filter _ = st.2.filter _
  simp [List.filter_append, h]

/-- No round trip reads a return value but the read of a property of that name. -/
theorem Service.valueReads_alongside (s : Service σ) (reads : List Event) :
    s.journaled.Alongside (· ≠ "ReturnValue") (ReadsAs valueReads reads) s.journaled where
  get _ _ hname :=
    (keeps_valueReads (fun _ => by simpa [Event.readsValue] using hname) _).parallel reads
  put _ _ _ := (keeps_valueReads (fun _ => rfl) _).parallel reads
  spawn _ := (Keeps.onFirst (List.filter Event.readsValue) _).parallel reads
  text _ := (Keeps.onFirst (List.filter Event.readsValue) _).parallel reads
  signature _ _ := (Keeps.onFirst (List.filter Event.readsValue) _).parallel reads
  next _ := (keeps_valueReads (fun _ => rfl) _).parallel reads
  query _ := (keeps_valueReads (fun _ => rfl) _).parallel reads
  enumerate _ := (keeps_valueReads (fun _ => rfl) _).parallel reads
  fetch _ := (keeps_valueReads (fun _ => rfl) _).parallel reads
  config := rfl
  pace := rfl
  path := by decide
  className := by decide

namespace Invocation

variable (s : Service σ)

/-- An output that is no object is read as it stands. -/
theorem read_eq_getAs (i : Invocation) (name : String) {t : DataType}
    (ht : t.isObjectHandle = false) :
    i.read s name t = (do
      let outputs ← Action.ofExcept (i.readable name)
      s.access.getAs outputs name t) := by
  unfold read ObjectAccess.getAs ObjectAccess.value
  refine bind_congr fun outputs => ?_
  rw [bind_assoc]
  refine bind_congr fun found => ?_
  rw [pure_bind]
  rcases found with ⟨v, declared⟩
  dsimp only
  split
  · simp [ht]
  · rfl

/-- Reading the return value of a call: a number that is read arrives. -/
theorem returnValue_told (i : Invocation) :
    Tells (fun r events => ∀ code, ReturnValueRead events code →
      r.1.failure = none ∧ r.2 = code) (i.get s.journaled "ReturnValue" .uint32 0).run := by
  intro b journal
  -- where nothing is read there is nothing to show
  have hnone {r : Invocation × BitVec 32} (code : BitVec 32) (h : ReturnValueRead [] code) :
      r.1.failure = none ∧ r.2 = code := by
    obtain ⟨_, _, hmem, -⟩ := h
    cases hmem
  cases hf : i.failure with
  | some e =>
    refine ⟨(i, 0), b, [], ?_, hnone⟩
    rw [get_failed s.journaled (b, journal) "ReturnValue" .uint32 0 (by rw [hf]; rfl),
      List.append_nil]
  | none =>
    rw [get_open s.journaled (b, journal) "ReturnValue" .uint32 0 hf,
      read_eq_getAs s.journaled i "ReturnValue" (t := .uint32) rfl]
    cases i.readable "ReturnValue" with
    | error e =>
      rw [run_bind_of_error (run_ofExcept (.error e) _)]
      refine ⟨_, b, [], by rw [List.append_nil], hnone⟩
    | ok outputs =>
      rw [run_bind_of_ok (run_ofExcept (.ok outputs) _)]
      obtain ⟨outcome, after, events, hrun, answer, rfl, houtcome⟩ :=
        s.getAs_told outputs "ReturnValue" .uint32 b journal
      rw [hrun]
      refine ⟨_, after, _, rfl, ?_⟩
      rintro code ⟨h, told, hmem, hdecode⟩
      cases List.mem_singleton.mp hmem
      obtain rfl : outcome = .ok code := houtcome.trans hdecode
      exact ⟨hf, rfl⟩

end Invocation

/-- A call that is written down as a step that cannot fail, with its result among its values. -/
theorem Action.run_lift_ofExcept {step : StateM σ (Except Error Unit × α)} (st : σ) :
    (do
      let (result, x) ← ExceptT.lift step
      Action.ofExcept result
      return x : Action σ α).run st =
      ((step.run st).1.1.map fun _ => (step.run st).1.2, (step.run st).2) := by
  show Action.run (do Action.ofExcept (step.run st).1.1; return (step.run st).1.2)
    (step.run st).2 = _
  cases (step.run st).1.1 with
  | error e => rfl
  | ok _ => rfl

open Invocation in
/-- A call whose return value is read, after its job, yields it. -/
theorem Service.call_value (s : Service σ) (target : Handle) (method : String)
    (inputs : List (String × Argument)) (hnames : ∀ input ∈ inputs, input.1 ≠ "ReturnValue")
    {st : σ × List Event} (hst : valueReads st = []) (code : BitVec 32)
    (hread :
      ReturnValueRead ((s.journaled.call target method inputs .jobFirst).run st).2.2 code) :
    ∃ job,
      ((s.journaled.call target method inputs .jobFirst).run st).1 = .ok (code.toNat, job) := by
  have k := s.valueReads_alongside
  have hinvoke (reads : List Event) :
      s.journaled.InvokesAlike (ReadsAs valueReads reads) s.journaled :=
    fun _ _ _ => (keeps_valueReads (fun _ => rfl) _).parallel reads
  let P (r : Except Error Unit × Nat × Option Handle) (st : σ × List Event) : Prop :=
    ∀ code, ReturnValueRead st.2 code → r.1 = .ok () ∧ r.2.1 = code.toNat
  unfold Service.call at hread ⊢
  rw [run_lift_ofExcept] at hread ⊢
  suffices h : P _ _ by
    obtain ⟨hok, hvalue⟩ := h code hread
    rw [hok]
    exact ⟨_, congrArg Except.ok (Prod.ext hvalue rfl)⟩
  refine Parallel.andThen (P := P) (fun c => (k c).begin target method) (fun i st hst => ?_) hst
  refine Parallel.andThen (P := P) (fun c => (k c).setAll i inputs hnames) (fun i st hst => ?_) hst
  refine Parallel.andThen (P := P) (fun c => Alongside.execute (hinvoke c) i)
    (fun i st hst => ?_) hst
  refine Parallel.andThen (P := P) (fun c => (k c).output i (.optional .handle) none (by decide))
    (fun r st hst => ?_) hst
  -- what is left is the reading of the return value and the end
  obtain ⟨i', job⟩ := r
  obtain ⟨b, journal⟩ := st
  obtain ⟨⟨i'', value⟩, after, events, hrun, htold⟩ := returnValue_told s i' b journal
  have hend : StateT.run (do
      let read ← i'.get s.journaled "ReturnValue" .uint32 0
      return (read.1.finish.1, read.2.toNat, job)) (b, journal) =
      ((i''.finish.1, value.toNat, job), after, journal ++ events) := by
    rw [StateT.run_bind, hrun]
    rfl
  refine (congrArg (fun r => P r.1 r.2) hend).mpr ?_
  rintro code hread
  obtain ⟨hf, rfl⟩ := htold code (hread.of_append (not_returnValueRead hst code))
  exact ⟨by rw [finish, hf], rfl⟩

namespace VirtualMachine

variable (s : Service σ) (vm : VirtualMachine)

/-! ## What a removal does before it deletes -/

/-- A removal with a disk is the removal without it, and after that the deletion. -/
theorem remove_disk (files : Files σ) (disk : Option String) :
    vm.remove s files disk = (do vm.remove s files none; files.deleteDisk disk) := by
  unfold remove
  split
  · rfl
  · simp only [bind_assoc, pure_bind]
    cases disk with
    | none => rfl
    | some path => rfl

/-- What is refused is refused before anyone is asked. -/
theorem run_remove_refused (files : Files σ) (disk : Option String) (h : vm.state ≠ .disabled)
    (b : σ) : (vm.remove s files disk).run b =
      (.error (.machineState "machine in invalid state for action"), b) := by
  unfold remove
  rw [if_pos h]
  rfl

/-- A return value of zero was reported as success, and one that neither is zero nor starts a job
as a failure to destroy the machine, for that reason. -/
def ReportsValue (outcome : Except Error Unit) (st : σ × List Event) : Prop :=
  ∀ code, ReturnValueRead st.2 code →
    (code = 0 → outcome = .ok ()) ∧
    (code.toNat ≠ 0 → code.toNat ≠ jobStarted →
      outcome = .error (.destroyFailed vm.elementName (destroyFailure code.toNat)))

/-- Where no return value was read there is none to report. -/
theorem reportsValue_of_unread {st : σ × List Event} (h : valueReads st = [])
    (outcome : Except Error Unit) : vm.ReportsValue outcome st :=
  fun code hread => absurd hread (not_returnValueRead h code)

/-- The end of a removal, from the outcome of the call on, reports the return value of the call. -/
theorem reportsValue_waited {returnValue : Nat} {job : Option Handle} {st : σ × List Event}
    (hvalue : ∀ code, ReturnValueRead st.2 code → returnValue = code.toNat) :
    let wait : Action (σ × List Event) Unit := do
      mapError vm.asDestroyFailure ((JobWaiter.ofService s.journaled).waitResult s.journaled
        "DestroySystem" returnValue job)
      return ()
    vm.ReportsValue (wait.run st).1 (wait.run st).2 := by
  intro wait code hread
  -- the wait reads no return value, so the one that was read is that of the call
  have hkept : valueReads (wait.run st).2 = valueReads st := by
    refine Parallel.leaves (fun reads => ?_) st
    refine Parallel.bind (Parallel.mapError _ ?_) fun _ => Parallel.pure ()
    exact (s.valueReads_alongside reads).waitResult _ (by decide) (by decide) (by decide) _ _ _
  obtain rfl := hvalue code (hread.congr hkept)
  constructor
  · rintro rfl
    rfl
  · intro hzero hstarted
    have hwait : (mapError vm.asDestroyFailure ((JobWaiter.ofService s.journaled).waitResult
        s.journaled "DestroySystem" code.toNat job)).run st =
        (.error (.destroyFailed vm.elementName (destroyFailure code.toNat)), st) := by
      rw [run_mapError, JobWaiter.waitResult, if_neg hzero, if_neg hstarted]
      rfl
    exact congrArg Prod.fst (run_bind_of_error hwait)

/-- **A removal reports its return value**, unless that is zero or starts a job: `ReportsValue` of
its answer and its journal. -/
theorem remove_reportsValue (files : Files (σ × List Event)) (st : σ × List Event)
    (hst : valueReads st = []) :
    vm.ReportsValue ((vm.remove s.journaled files none).run st).1
      ((vm.remove s.journaled files none).run st).2 := by
  unfold remove
  split
  · exact vm.reportsValue_of_unread hst _
  · have hsingleton := Parallel.keeps fun reads =>
      (s.valueReads_alongside reads).getSingleton managementServiceClass
    refine hsingleton.andThen (P := vm.ReportsValue)
      (fun e st hst => vm.reportsValue_of_unread hst _) (fun target st hst => ?_) hst
    have hvalue := s.call_value target "DestroySystem" [("AffectedSystem", .of .text vm.path)]
      (by simp) hst
    rcases hcalled : (s.journaled.call target "DestroySystem"
      [("AffectedSystem", .of .text vm.path)] .jobFirst).run st with ⟨called, st'⟩
    rw [hcalled] at hvalue
    cases called with
    | error e =>
      rw [run_bind_of_error hcalled]
      intro code hread
      obtain ⟨job, hjob⟩ := hvalue code hread
      cases hjob
    | ok r =>
      rw [run_bind_of_ok hcalled]
      refine reportsValue_waited s vm fun code hread => ?_
      obtain ⟨job, hjob⟩ := hvalue code hread
      exact congrArg Prod.fst (Except.ok.inj hjob)

/-! ## What a removal deletes -/

/-- A journal at whose end a machine has been destroyed: its removing method was called once, no
other method was, and it returned zero or started a job that was seen to be final with the error
number zero. -/
structure Destroyed (journal : List Event) : Prop where
  once : journal.countP Event.isInvoke = 1
  reported : DoneAtOnce "DestroySystem" .jobFirst journal ∨
    ∃ seen last told, Watched "DestroySystem" .jobFirst last seen ∧
      DataType.uint32.decode told.1 = .ok 0 ∧ journal = seen ++ [.get last "ErrorCode" (.ok told)]

/-- A method that returned zero had its return value read. -/
theorem returnValueRead_of_doneAtOnce {method : String} {journal : List Event}
    (h : DoneAtOnce method .jobFirst journal) : ReturnValueRead journal 0 := by
  cases h with
  | @intro before answers path inputs job outputs hanswers =>
    cases hanswers with
    | jobFirst hjob hvalue =>
      cases hvalue with
      | @direct v declared hdecode => exact ⟨outputs, (v, declared), by simp, hdecode⟩
      | resolved hpath href hdecode => cases hdecode

/-- A removal that reports as it should has succeeded where the machine has been destroyed. -/
theorem Destroyed.ok {journal : List Event} (h : Destroyed journal) {outcome : Except Error Unit}
    {b : σ} (hvalue : vm.ReportsValue outcome (b, journal))
    (htold : OperationTold "DestroySystem" .jobFirst vm.asDestroyFailure outcome journal) :
    outcome = .ok () := by
  rcases h.reported with hdone | ⟨seen, last, told, -, hzero, rfl⟩
  · exact (hvalue 0 (returnValueRead_of_doneAtOnce hdone)).1 rfl
  · have hread : .get last "ErrorCode" (.ok told) ∈ seen ++ [.get last "ErrorCode" (.ok told)] := by
      simp
    exact htold.ok_of_zero hread hzero

/-- A watched removal before it comes to its disk: it goes as it goes unwatched, nothing has been
deleted, and it has not failed exactly if its machine has been destroyed. -/
theorem remove_watched (files : Files σ) (world : σ) :
    ∃ outcome after journal,
      (vm.remove s files none).run world = (outcome, after) ∧
      (vm.remove (s.beside (List Deletion)).journaled files.watched none).run ((world, []), []) =
        (outcome, (after, []), journal) ∧
      (outcome = .ok () ↔ Destroyed journal) ∧ vm.ReportsValue outcome (after, journal) := by
  have hparallel : Parallel Untouched
      (vm.remove (s.beside (List Deletion)).journaled files.watched none).run
      (vm.remove s files none).run :=
    parallel_run s.watched_alongside s.watched_invokesAlike vm .remove files.watched files
  obtain ⟨houtcome, hafter⟩ := hparallel ((world, []), []) world rfl
  obtain ⟨outcome, after, journal, hrun, htold⟩ :=
    remove_told (s.beside (List Deletion)) vm files.watched (world, []) []
  have hvalue := remove_reportsValue (s.beside (List Deletion)) vm files.watched
    ((world, []), []) rfl
  rw [hrun, List.nil_append] at houtcome hafter hvalue
  rw [hrun, List.nil_append]
  refine ⟨outcome, _, journal, Prod.ext houtcome.symm rfl, ?_, ⟨?_, ?_⟩, hvalue⟩
  · rw [show after = _ from hafter]
  · rintro rfl
    exact ⟨htold.succeeded.1, htold.succeeded.2⟩
  · exact fun h => h.ok vm hvalue htold

/-- **A disk is deleted after its machine, and only then.** However the other side and the files
behave, and whether or not there is a disk: watching a removal (`Files.watched`) changes nothing
about it.  The removal of a machine that is not off is refused, and nobody has been asked anything.
A removal either fails before its machine has been destroyed (`Destroyed`), with no file deleted; or
the machine has been destroyed, and, knowing that, the removal has tried to delete its disk, once,
and nothing else, and ends as `Files.deleteDisk` does.  And where a return value was read
(`ReturnValueRead`) that neither is zero nor starts a job, the removal fails with its meaning
(`destroyFailure`) under the name of the machine, and no file is deleted. -/
theorem disk_deleted_after_destruction (files : Files σ) (disk : Option String) (world : σ) :
    let r := (vm.remove (s.beside (List Deletion)).journaled files.watched disk).run
      ((world, []), [])
    (r.1, r.2.1.1) = (vm.remove s files disk).run world ∧
    (vm.state ≠ .disabled → r =
      (.error (.machineState "machine in invalid state for action"), (world, []), [])) ∧
    ((¬ Destroyed r.2.2 ∧ (∃ e, r.1 = .error e) ∧ r.2.1.2 = []) ∨
      (Destroyed r.2.2 ∧ r.2.1.2 = disk.toList.map (⟨·, r.2.2⟩) ∧
        ∃ before, (r.1, r.2.1.1) = (files.deleteDisk disk).run before)) ∧
    ∀ code, ReturnValueRead r.2.2 code → code.toNat ≠ 0 → code.toNat ≠ jobStarted →
      r.1 = .error (.destroyFailed vm.elementName (destroyFailure code.toNat)) ∧
        r.2.1.2 = [] := by
  intro r
  obtain ⟨outcome, after, journal, hplain, hwatched, hdestroyed, hvalue⟩ :=
    remove_watched s vm files world
  have hrefused : vm.state ≠ .disabled → r =
      (.error (.machineState "machine in invalid state for action"), (world, []), []) :=
    fun hstate => run_remove_refused _ vm files.watched disk hstate _
  have hr : r = _ := congrArg (Action.run · ((world, []), [])) (vm.remove_disk _ files.watched disk)
  have hs := congrArg (Action.run · world) (vm.remove_disk s files disk)
  clear_value r
  cases outcome with
  | error e =>
    obtain rfl : r = (.error e, (after, []), journal) := hr.trans (run_bind_of_error hwatched)
    replace hs := hs.trans (run_bind_of_error hplain)
    refine ⟨hs.symm, hrefused, .inl ⟨fun h => ?_, ⟨e, rfl⟩, rfl⟩,
      fun code hread hzero hstarted => ⟨(hvalue code hread).2 hzero hstarted, rfl⟩⟩
    cases hdestroyed.mpr h
  | ok _ =>
    -- what is left is the deletion, if there is a disk
    replace hr :=
      (hr.trans (run_bind_of_ok hwatched)).trans (files.run_deleteDisk_watched disk _ _ _)
    replace hs := hs.trans (run_bind_of_ok hplain)
    subst hr
    refine ⟨hs.symm, hrefused, .inr ⟨hdestroyed.mp rfl, rfl, after, rfl⟩,
      fun code hread hzero hstarted => ?_⟩
    cases (hvalue code hread).2 hzero hstarted

/-- A removal in a session that answers with the given values, from the return value on, and what
it has deleted. -/
def scriptedRemoval (answers : List Variant) : Except Error Unit × List String :=
  let r := (remove (scriptedSession.beside (List Deletion)).journaled
    { elementName := "web", enabledState := 3 }
    (Files.watched ⟨fun _ => throw .file, fun _ => pure ()⟩) (some "web.vhdx")).run
      ((.text "P" :: .text "C" :: .object ⟨1⟩ :: answers, []), [])
  (r.1, r.2.1.2.map Deletion.path)

/-! A job that is final without an error, one that has failed, and a refusal. -/

example : scriptedRemoval [.int32 4096, .int32 7, .int32 0] = (.ok (), ["web.vhdx"]) := by
  decide +kernel

example : scriptedRemoval [.int32 4096, .int32 7, .int32 1, .text "in use"] =
    (.error (.job 1 "in use"), []) := by
  decide +kernel

example : scriptedRemoval [.int32 4] =
    (.error (.destroyFailed "web" "invalid parameter"), []) := by
  decide +kernel

end VirtualMachine

end CimBroker
