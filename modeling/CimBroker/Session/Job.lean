/-
# CimBroker.Session.Job — waiting for jobs

A method that cannot finish at once starts a job and returns a reference to it.  A job is done when
its `JobState` is 7 or more; until then the waiter pauses and fetches it again.  A finished job with
an `ErrorCode` other than zero has failed, and its description goes into the error with every line
end turned into a space.

The waiter looks before it checks the time, so a job that is done when it is looked at is never
reported as timed out.

`JobWaiter.waitWithin` is the loop, bounded by the number of looks that the caller has patience for,
and `JobWaiter.conclude` makes the outcome of a final job.  Jobs are not cancelled, and their
progress is not looked at.
-/
import CimBroker.Session.Service

namespace CimBroker

/-- The least job state that is final. -/
def finishedState : Nat := 7

/-- What a method returns when it has started a job. -/
def jobStarted : Nat := 4096

/-- A job description on one line. -/
def oneLine (description : String) : String :=
  let flat := description.toList.map fun c => if c = '\x0d' ∨ c = '\n' then ' ' else c
  String.ofList (Text.trim flat)

/-- How a job is waited for. -/
structure JobWaiter where
  pause : Time.Duration
  timeout : Option Time.Duration

namespace JobWaiter

variable {σ : Type}

/-- The waiter of a service, with the pause and timeout of its configuration. -/
def ofService (s : Service σ) : JobWaiter := ⟨s.config.pollInterval, s.config.timeout⟩

/-- The result of a finished job: the job itself, or its error. -/
def conclude (s : Service σ) (job : Handle) : Action σ Handle := do
  let code ← s.access.getAs job "ErrorCode" .uint32
  if code.toNat = 0 then return job
  else
    let description ← s.access.getAs job "ErrorDescription" .text
    throw (.job code.toNat (oneLine description))

/-- Whether the time after a number of pauses has reached the limit. -/
def expired? (w : JobWaiter) (pace : Pace) (pauses : Nat) : Option Time.Duration :=
  match w.timeout with
  | some limit => if limit.nanos ≤ (pace.elapsed w.pause pauses).nanos then some limit else none
  | none => none

/-- Looks at a job until it is finished, at most `patience` times more. -/
def waitWithin (w : JobWaiter) (s : Service σ) : (patience pauses : Nat) → Handle → Action σ Handle
  | 0, pauses, _ => throw (.unfinished pauses)
  | patience + 1, pauses, job => do
    let state ← s.access.getAs job "JobState" .uint16
    if finishedState ≤ state.toNat then conclude s job
    else
      match w.expired? s.pace pauses with
      | some limit => throw (.timeout limit)
      | none => do
        let job ← s.refetch job
        w.waitWithin s patience (pauses + 1) job

/-- Waits for a job and returns it in its final state. -/
def wait (w : JobWaiter) (s : Service σ) (job : Handle) : Action σ Handle :=
  w.waitWithin s s.pace.patience 0 job

/-- What a method's return value means: success, a job to wait for, or a failure. -/
def waitResult (w : JobWaiter) (s : Service σ) (method : String) (returnValue : Nat)
    (job : Option Handle) : Action σ Unit := do
  if returnValue = 0 then return ()
  else if returnValue = jobStarted then
    let job ← Action.require
      (.notFound (method ++ " started a job but returned no job reference")) job
    let _ ← w.wait s job
    return ()
  else throw (.methodFailed method returnValue)

end JobWaiter

end CimBroker
