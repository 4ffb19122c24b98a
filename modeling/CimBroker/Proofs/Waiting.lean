/-
# CimBroker.Proofs.Waiting — how a wait for a job goes

A wait is a row of looks at a running job, each followed by a fetch, and one of five endings: the
patience is spent, the state cannot be read, the job is final, the time is up, or the job is not
found again (`wait_ending`).  That is all a wait can do, whatever the connection behaves like.

Against a job whose history is given, the states that it and the objects fetched after it show, the
same inversion says exactly how long the wait takes, which handles it reads and what it yields.

`wait_goes_as_job_does` is that statement, with `JobHistory` for the history and `verdict` for what
is made of a final job.  `wait_tells_failure` is a wait for a job that fails.  Nothing is said of
how long a round trip takes: the clock is `Pace`, and it may say what it likes.
-/
import CimBroker.Broker.Connection
import CimBroker.Proofs.Journal
import CimBroker.Session.Job

namespace CimBroker.JobWaiter

variable {σ : Type}

/-! ## What a wait can do -/

/-- A number of looks at a running job, each followed by a fetch of the job's path. -/
inductive Polled (s : Service σ) : Nat → Handle → σ → Handle → σ → Prop
  | here (job : Handle) (b : σ) : Polled s 0 job b job b
  | again {n : Nat} {job next last : Handle} {b b₁ b₂ b₃ : σ} {state : BitVec 16}
      (hlook : (s.access.getAs job "JobState" .uint16).run b = (.ok state, b₁))
      (hrunning : state.toNat < finishedState)
      (hfetch : (s.refetch job).run b₁ = (.ok next, b₂))
      (hrest : Polled s n next b₂ last b₃) : Polled s (n + 1) job b last b₃

/-- How a wait ends at its last handle, with some patience left after a number of pauses. -/
inductive Ending (w : JobWaiter) (s : Service σ) (patience pauses : Nat) (last : Handle) (b : σ) :
    Except Error Handle × σ → Prop
  | spent (h : patience = 0) : Ending w s patience pauses last b (.error (.unfinished pauses), b)
  | unreadable {e : Error} {b₁ : σ} (h : patience ≠ 0)
      (hlook : (s.access.getAs last "JobState" .uint16).run b = (.error e, b₁)) :
      Ending w s patience pauses last b (.error e, b₁)
  | final {state : BitVec 16} {b₁ : σ} (h : patience ≠ 0)
      (hlook : (s.access.getAs last "JobState" .uint16).run b = (.ok state, b₁))
      (hfinal : finishedState ≤ state.toNat) :
      Ending w s patience pauses last b ((conclude s last).run b₁)
  | late {state : BitVec 16} {b₁ : σ} {limit : Time.Duration} (h : patience ≠ 0)
      (hlook : (s.access.getAs last "JobState" .uint16).run b = (.ok state, b₁))
      (hrunning : state.toNat < finishedState)
      (hexpired : w.expired? s.pace pauses = some limit) :
      Ending w s patience pauses last b (.error (.timeout limit), b₁)
  | lost {state : BitVec 16} {e : Error} {b₁ b₂ : σ} (h : patience ≠ 0)
      (hlook : (s.access.getAs last "JobState" .uint16).run b = (.ok state, b₁))
      (hrunning : state.toNat < finishedState)
      (htime : w.expired? s.pace pauses = none)
      (hfetch : (s.refetch last).run b₁ = (.error e, b₂)) :
      Ending w s patience pauses last b (.error e, b₂)

/-- **What a wait can do.**  It polls the job a number of times, at none of which the time is up,
and ends. -/
theorem wait_ending (w : JobWaiter) (s : Service σ) (patience pauses : Nat) (job : Handle) (b : σ) :
    ∃ n last b', n ≤ patience ∧ Polled s n job b last b' ∧
      (∀ i < n, w.expired? s.pace (pauses + i) = none) ∧
      Ending w s (patience - n) (pauses + n) last b'
        ((w.waitWithin s patience pauses job).run b) := by
  induction patience generalizing pauses job b with
  | zero => exact ⟨0, job, b, Nat.le_refl 0, .here job b, nofun, .spent rfl⟩
  | succ patience ih =>
    -- the wait ends at once, or goes on from the next handle as the induction says
    have atOnce {r : Except Error Handle × σ} (h : Ending w s (patience + 1) pauses job b r) :
        ∃ n last b', n ≤ patience + 1 ∧ Polled s n job b last b' ∧
          (∀ i < n, w.expired? s.pace (pauses + i) = none) ∧
          Ending w s (patience + 1 - n) (pauses + n) last b' r :=
      ⟨0, job, b, Nat.zero_le _, .here job b, nofun, h⟩
    have hne : patience + 1 ≠ 0 := Nat.succ_ne_zero patience
    rw [waitWithin]
    rcases hlook : (s.access.getAs job "JobState" .uint16).run b with ⟨outcome, b₁⟩
    cases outcome with
    | error e =>
      rw [Action.run_bind_of_error hlook]
      exact atOnce (.unreadable hne hlook)
    | ok state =>
      rw [Action.run_bind_of_ok hlook]
      by_cases hfinal : finishedState ≤ state.toNat
      · rw [if_pos hfinal]
        exact atOnce (.final hne hlook hfinal)
      · rw [if_neg hfinal]
        rw [Nat.not_le] at hfinal
        cases htime : w.expired? s.pace pauses with
        | some limit => exact atOnce (.late hne hlook hfinal htime)
        | none =>
          rcases hfetch : (s.refetch job).run b₁ with ⟨outcome, b₂⟩
          cases outcome with
          | error e =>
            rw [Action.run_bind_of_error hfetch]
            exact atOnce (.lost hne hlook hfinal htime hfetch)
          | ok next =>
            rw [Action.run_bind_of_ok hfetch]
            obtain ⟨n, last, b', hn, hpolled, htimes, hending⟩ := ih (pauses + 1) next b₂
            refine ⟨n + 1, last, b', Nat.succ_le_succ hn, .again hlook hfinal hfetch hpolled,
              ?_, ?_⟩
            · intro i hi
              cases i with
              | zero => exact htime
              | succ i =>
                have h := htimes i (Nat.lt_of_succ_lt_succ hi)
                rwa [Nat.add_right_comm] at h
            · rw [Nat.add_sub_add_right, Nat.add_comm n 1, ← Nat.add_assoc]
              exact hending

/-! ## Jobs with a history -/

/-- The states before the given one are those of a running job. -/
def RunningBefore (state : Nat → BitVec 16) (n : Nat) : Prop :=
  ∀ i < n, (state i).toNat < finishedState

theorem RunningBefore.succ {state : Nat → BitVec 16} {n : Nat} (h : RunningBefore state n)
    (hn : (state n).toNat < finishedState) : RunningBefore state (n + 1) := by
  intro i hi
  rcases Nat.lt_succ_iff_lt_or_eq.mp hi with hlt | rfl
  · exact h i hlt
  · exact hn

/-- What a job shows while it is watched: the `i`-th handle, its state and its path, as long as the
states before are those of a running job, with the states that the other side goes through. -/
structure JobHistory (s : Service σ) where
  handle : Nat → Handle
  state : Nat → BitVec 16
  path : Nat → String
  /-- The other side before the `i`-th handle is looked at. -/
  before : Nat → σ
  /-- The other side after the `i`-th state was read. -/
  seen : Nat → σ
  /-- The other side after the `i`-th path was read. -/
  named : Nat → σ
  look : ∀ i, RunningBefore state i →
    (s.access.getAs (handle i) "JobState" .uint16).run (before i) = (.ok (state i), seen i)
  name : ∀ i, RunningBefore state (i + 1) →
    (s.access.requirePath (handle i)).run (seen i) = (.ok (path i), named i)
  fetch : ∀ i, RunningBefore state (i + 1) →
    (s.getObject (path i)).run (named i) = (.ok (handle (i + 1)), before (i + 1))

namespace JobHistory

variable {s : Service σ} (history : JobHistory s)

/-- The job is final at the given handle and not before, and its error number and description can
be read there, one after the other. -/
structure Ends (k : Nat) (code : BitVec 32) (description : String) : Prop where
  running : RunningBefore history.state k
  final : finishedState ≤ (history.state k).toNat
  told : ∃ coded described,
    (s.access.getAs (history.handle k) "ErrorCode" .uint32).run (history.seen k) =
      (.ok code, coded) ∧
    (s.access.getAs (history.handle k) "ErrorDescription" .text).run coded =
      (.ok description, described)

/-- The round trips of one look that finds the job running. -/
def lookTrips (i : Nat) : List RoundTrip :=
  [.get (history.handle i) "JobState", .get (history.handle i) pathProperty,
    .fetch (history.path i)]

/-- The round trips up to and including the look at the `k`-th state. -/
def tripsTo (k : Nat) : List RoundTrip :=
  (List.range k).flatMap history.lookTrips ++ [.get (history.handle k) "JobState"]

/-- Looking at a job is one round trip. -/
theorem run_look (i : Nat) (h : RunningBefore history.state i) (journal : List Event) :
    ∃ answer, (s.journaled.access.getAs (history.handle i) "JobState" .uint16).run
        (history.before i, journal) =
      (.ok (history.state i), history.seen i,
        journal ++ [.get (history.handle i) "JobState" answer]) := by
  rw [Service.run_getAs_journaled, history.look i h]
  exact ⟨_, rfl⟩

/-- Fetching a job again is two round trips. -/
theorem run_refetch (i : Nat) (h : RunningBefore history.state (i + 1)) (journal : List Event) :
    ∃ answer found, (s.journaled.refetch (history.handle i)).run (history.seen i, journal) =
      (.ok (history.handle (i + 1)), history.before (i + 1),
        journal ++
          [.get (history.handle i) pathProperty answer, .fetch (history.path i) found]) := by
  have hname := s.run_requirePath_journaled (history.handle i) (history.seen i) journal
  rw [history.name i h] at hname
  have hfetch := s.run_getObject_journaled (history.path i) (history.named i)
    (journal ++ [.get (history.handle i) pathProperty
      ((s.access.get (history.handle i) pathProperty).run (history.seen i)).1])
  rw [history.fetch i h, List.append_assoc] at hfetch
  unfold Service.refetch
  rw [Action.run_bind_of_ok hname]
  exact ⟨_, _, hfetch⟩

/-- **Polling a job follows its history**: each poll is one look and one fetch, in order. -/
theorem polled {n i : Nat} {job last : Handle} {st st' : σ × List Event} {journal : List Event}
    (h : Polled s.journaled n job st last st') (hjob : job = history.handle i)
    (hst : st = (history.before i, journal)) (hi : RunningBefore history.state i) :
    last = history.handle (i + n) ∧ RunningBefore history.state (i + n) ∧
      ∃ events, st' = (history.before (i + n), journal ++ events) ∧
        events.map Event.trip = (List.range' i n).flatMap history.lookTrips := by
  induction h generalizing i journal with
  | here job st =>
    subst hjob hst
    exact ⟨rfl, hi, [], by rw [List.append_nil]; rfl, rfl⟩
  | again hlook hrunning hfetch _ ih =>
    subst hjob hst
    obtain ⟨answer, hlook'⟩ := history.run_look i hi journal
    obtain ⟨hstate, rfl⟩ := Prod.mk.inj (hlook.symm.trans hlook')
    cases hstate
    have hi' := hi.succ hrunning
    obtain ⟨named, found, hfetch'⟩ := history.run_refetch i hi'
      (journal ++ [.get (history.handle i) "JobState" answer])
    obtain ⟨hnext, rfl⟩ := Prod.mk.inj (hfetch.symm.trans hfetch')
    cases hnext
    obtain ⟨hlast, hrunning', events, hst', htrips⟩ := ih rfl rfl hi'
    rw [Nat.add_right_comm i 1] at hlast hrunning' hst'
    refine ⟨hlast, hrunning', [.get (history.handle i) "JobState" answer,
      .get (history.handle i) pathProperty named, .fetch (history.path i) found] ++ events, ?_, ?_⟩
    · rw [hst']
      simp only [List.append_assoc, List.cons_append, List.nil_append]
      rfl
    · rw [List.range'_succ, List.flatMap_cons, ← htrips]
      rfl

/-- A wait follows the history of its job until it ends. -/
theorem wait_along (w : JobWaiter) :
    ∃ n events, n ≤ s.pace.patience ∧ RunningBefore history.state n ∧
      (∀ i < n, w.expired? s.pace i = none) ∧
      events.map Event.trip = (List.range n).flatMap history.lookTrips ∧
      Ending w s.journaled (s.pace.patience - n) n (history.handle n) (history.before n, events)
        ((w.wait s.journaled (history.handle 0)).run (history.before 0, [])) := by
  obtain ⟨n, last, st, hn, hpolled, htime, hending⟩ :=
    wait_ending w s.journaled s.pace.patience 0 (history.handle 0) (history.before 0, [])
  obtain ⟨rfl, hrunning, events, rfl, htrips⟩ := history.polled hpolled rfl rfl nofun
  rw [Nat.zero_add] at hrunning hending
  simp only [Nat.zero_add] at htime
  rw [← List.range_eq_range'] at htrips
  exact ⟨n, events, hn, hrunning, htime, htrips, hending⟩

/-- A wait that follows a history ends as its patience is spent, at a final look, or late at a look
that found the job running: the history leaves no look and no fetch to fail. -/
theorem ending_cases {w : JobWaiter} {n patience : Nat} {events : List Event}
    {r : Except Error Handle × (σ × List Event)} (hn : RunningBefore history.state n)
    (h : Ending w s.journaled patience n (history.handle n) (history.before n, events) r) :
    (patience = 0 ∧ r = (.error (.unfinished n), history.before n, events)) ∨
    ∃ answer,
      (finishedState ≤ (history.state n).toNat ∧
        r = (conclude s.journaled (history.handle n)).run
          (history.seen n, events ++ [.get (history.handle n) "JobState" answer])) ∨
      (history.state n).toNat < finishedState ∧ ∃ limit, w.expired? s.pace n = some limit ∧
        r = (.error (.timeout limit), history.seen n,
          events ++ [.get (history.handle n) "JobState" answer]) := by
  obtain ⟨answer, hlook⟩ := history.run_look n hn events
  cases h with
  | spent h => exact .inl ⟨h, rfl⟩
  | unreadable _ hlook' => cases hlook'.symm.trans hlook
  | final _ hlook' hfinal =>
    cases hlook'.symm.trans hlook
    exact .inr ⟨answer, .inl ⟨hfinal, rfl⟩⟩
  | late _ hlook' hrunning hexpired =>
    cases hlook'.symm.trans hlook
    exact .inr ⟨answer, .inr ⟨hrunning, _, hexpired, rfl⟩⟩
  | lost _ hlook' hrunning _ hfetch' =>
    cases hlook'.symm.trans hlook
    obtain ⟨named, found, hfetch⟩ := history.run_refetch n (hn.succ hrunning) (events ++ _)
    cases hfetch'.symm.trans hfetch

end JobHistory

/-- What is made of a final job with the given error number and description. -/
def verdict (job : Handle) (code : BitVec 32) (description : String) : Except Error Handle :=
  if code.toNat = 0 then .ok job
  else
    .error (.job code.toNat (String.ofList (Text.trim
      (description.toList.map fun c => if c = '\x0d' ∨ c = '\n' then ' ' else c))))

/-- The round trips that concluding takes. -/
def verdictTrips (job : Handle) (code : BitVec 32) : List RoundTrip :=
  .get job "ErrorCode" :: if code.toNat = 0 then [] else [.get job "ErrorDescription"]

/-- A final job is concluded from its error number, and from its description if that is not
zero. -/
theorem run_conclude (s : Service σ) {job : Handle} {b coded described : σ} {code : BitVec 32}
    {description : String}
    (hcode : (s.access.getAs job "ErrorCode" .uint32).run b = (.ok code, coded))
    (htext : (s.access.getAs job "ErrorDescription" .text).run coded =
      (.ok description, described)) (journal : List Event) :
    ∃ after events, (conclude s.journaled job).run (b, journal) =
        (verdict job code description, after, journal ++ events) ∧
      events.map Event.trip = verdictTrips job code := by
  have hcode' := s.run_getAs_journaled job "ErrorCode" .uint32 b journal
  rw [hcode] at hcode'
  unfold conclude verdict verdictTrips
  rw [Action.run_bind_of_ok hcode']
  by_cases hzero : code.toNat = 0
  · rw [if_pos hzero, if_pos hzero, if_pos hzero]
    exact ⟨_, [_], rfl, rfl⟩
  · have htext' := s.run_getAs_journaled job "ErrorDescription" .text coded
      (journal ++ [.get job "ErrorCode" ((s.access.get job "ErrorCode").run b).1])
    rw [htext, List.append_assoc] at htext'
    rw [if_neg hzero, if_neg hzero, if_neg hzero, Action.run_bind_of_ok htext']
    exact ⟨_, _, rfl, rfl⟩

/-! ## The reads and fetches of a journal -/

/-- The handle whose job state a round trip reads. -/
def stateRead? : RoundTrip → Option Handle
  | .get h name => if name = "JobState" then some h else none
  | _ => none

/-- The path that a round trip fetches. -/
def pathFetched? : RoundTrip → Option String
  | .fetch path => some path
  | _ => none

/-- The handles whose job state was read, in order. -/
def statesRead (journal : List Event) : List Handle :=
  (journal.map Event.trip).filterMap stateRead?

/-- The paths that were fetched, in order. -/
def pathsFetched (journal : List Event) : List String :=
  (journal.map Event.trip).filterMap pathFetched?

variable {s : Service σ} (history : JobHistory s)

/-- What is picked from the trips of a history, where each look yields one item. -/
theorem filterMap_tripsTo {α : Type} (read? : RoundTrip → Option α) (item : Nat → α)
    (hlook : ∀ i, (history.lookTrips i).filterMap read? = [item i]) (k : Nat) :
    (history.tripsTo k).filterMap read? =
      (List.range k).map item ++ [.get (history.handle k) "JobState"].filterMap read? := by
  rw [JobHistory.tripsTo, List.filterMap_append, List.filterMap_flatMap, List.map_eq_flatMap]
  simp only [hlook]

theorem statesRead_tripsTo (k : Nat) :
    (history.tripsTo k).filterMap stateRead? = (List.range (k + 1)).map history.handle := by
  rw [filterMap_tripsTo history stateRead? history.handle (fun _ => rfl), List.range_succ,
    List.map_append]
  rfl

theorem pathsFetched_tripsTo (k : Nat) :
    (history.tripsTo k).filterMap pathFetched? = (List.range k).map history.path := by
  rw [filterMap_tripsTo history pathFetched? history.path (fun _ => rfl)]
  exact List.append_nil _

/-- Concluding reads no job state and fetches nothing. -/
theorem filterMap_verdictTrips (job : Handle) (code : BitVec 32) :
    (verdictTrips job code).filterMap stateRead? = [] ∧
      (verdictTrips job code).filterMap pathFetched? = [] := by
  unfold verdictTrips
  split
  · exact ⟨rfl, rfl⟩
  · exact ⟨rfl, rfl⟩

/-- The time is up when a timeout is set and has gone by. -/
theorem expired?_eq_some {w : JobWaiter} {pace : Pace} {pauses : Nat} {limit : Time.Duration} :
    w.expired? pace pauses = some limit ↔
      w.timeout = some limit ∧ limit.nanos ≤ (pace.elapsed w.pause pauses).nanos := by
  unfold expired?
  cases w.timeout with
  | none => simp
  | some limit' =>
    by_cases h : limit'.nanos ≤ (pace.elapsed w.pause pauses).nanos
    · simp only [if_pos h, Option.some.injEq]
      constructor
      · rintro rfl
        exact ⟨rfl, h⟩
      · exact And.left
    · simp only [if_neg h, Option.some.injEq]
      constructor
      · intro hnone
        cases hnone
      · rintro ⟨rfl, hle⟩
        exact absurd hle h

/-- No verdict on a job is that the time is up. -/
theorem verdict_ne_timeout (job : Handle) (code : BitVec 32) (description : String)
    (limit : Time.Duration) : verdict job code description ≠ .error (.timeout limit) := by
  unfold verdict
  split
  · exact nofun
  · exact nofun

/-- **A wait goes as its job does.** Let a job show a history (`JobHistory`).  If it is final at the
`k`-th handle and not before (`JobHistory.Ends`), and the time is not up at any of the looks before
that (`JobWaiter.expired?`), as it never is without a timeout, then a wait with patience for `k + 1`
looks reads the job state of each of the first `k + 1` handles once, fetches the job's path `k`
times, and yields the `verdict`: the `k`-th handle where its error number is zero, and otherwise the
error with that number and the description on one line, without the blanks around it.  And whatever
the clock does, a wait that ends as timed out has just read the state of a running job, and the time
was up. -/
theorem wait_goes_as_job_does (w : JobWaiter) (s : Service σ) (history : JobHistory s) :
    let r := (w.wait s.journaled (history.handle 0)).run (history.before 0, [])
    (∀ k code description, history.Ends k code description →
      (∀ i < k, w.expired? s.pace i = none) → k < s.pace.patience →
        r.1 = verdict (history.handle k) code description ∧
        statesRead r.2.2 = (List.range (k + 1)).map history.handle ∧
        pathsFetched r.2.2 = (List.range k).map history.path) ∧
    ((∀ k, RunningBefore history.state k → finishedState ≤ (history.state k).toNat →
        ∃ code description, history.Ends k code description) →
      ∀ limit, r.1 = .error (.timeout limit) →
        ∃ k answer earlier, RunningBefore history.state (k + 1) ∧
          w.timeout = some limit ∧ limit.nanos ≤ (s.pace.elapsed w.pause k).nanos ∧
          r.2.2 = earlier ++ [.get (history.handle k) "JobState" answer]) := by
  intro r
  obtain ⟨n, events, hn, hrunning, htime, htrips, hending⟩ := history.wait_along w
  have hcases := history.ending_cases hrunning hending
  constructor
  · intro k code description hends hintime hpatience
    -- the wait cannot end before the job does, nor later
    have hkn : ¬ k < n := fun h => Nat.not_lt.mpr hends.final (hrunning k h)
    rcases hcases with ⟨hspent, -⟩ | ⟨answer, ⟨hfinal, hr⟩ | ⟨hlate, limit, hexpired, -⟩⟩
    · omega
    · have hnk : ¬ n < k := fun h => Nat.not_lt.mpr hfinal (hends.running n h)
      obtain rfl : n = k := by omega
      obtain ⟨coded, described, hcode, htext⟩ := hends.told
      obtain ⟨after, told, hconclude, htold⟩ := run_conclude s hcode htext
        (events ++ [.get (history.handle n) "JobState" answer])
      have hr' : r = _ := hr.trans hconclude
      have hall : r.2.2.map Event.trip = history.tripsTo n ++ told.map Event.trip := by
        rw [hr', List.map_append, List.map_append, htrips]
        rfl
      obtain ⟨hreads, hfetches⟩ := filterMap_verdictTrips (history.handle n) code
      refine ⟨congrArg Prod.fst hr', ?_, ?_⟩
      · rw [statesRead, hall, List.filterMap_append, statesRead_tripsTo, htold, hreads,
          List.append_nil]
      · rw [pathsFetched, hall, List.filterMap_append, pathsFetched_tripsTo, htold, hfetches,
          List.append_nil]
    · rcases Nat.lt_or_eq_of_le (Nat.not_lt.mp hkn) with hlt | rfl
      · rw [hintime n hlt] at hexpired
        cases hexpired
      · exact absurd hends.final (Nat.not_le.mpr hlate)
  · intro hreadable limit htimeout
    rcases hcases with ⟨-, hr⟩ | ⟨answer, ⟨hfinal, hr⟩ | ⟨hlate, limit', hexpired, hr⟩⟩
    · have hunfinished : r.1 = .error (.unfinished n) := congrArg Prod.fst hr
      cases htimeout.symm.trans hunfinished
    · -- a final job has a verdict, which is never a timeout
      obtain ⟨code, description, hends⟩ := hreadable n hrunning hfinal
      obtain ⟨coded, described, hcode, htext⟩ := hends.told
      obtain ⟨after, told, hconclude, -⟩ := run_conclude s hcode htext
        (events ++ [.get (history.handle n) "JobState" answer])
      have hverdict : r.1 = verdict _ code description := congrArg Prod.fst (hr.trans hconclude)
      exact absurd (hverdict.symm.trans htimeout) (verdict_ne_timeout _ _ _ _)
    · have hlimit : r.1 = .error (.timeout limit') := congrArg Prod.fst hr
      cases htimeout.symm.trans hlimit
      obtain ⟨hset, hup⟩ := expired?_eq_some.mp hexpired
      exact ⟨n, answer, events, hrunning.succ hlate, hset, hup, congrArg (fun r => r.2.2) hr⟩

/-! ### A job that fails while it is watched -/

/-- A session with a broker in memory, with patience for ten looks. -/
def watchingSession : Service (Broker × Unit) :=
  ⟨Broker.connection fun _ _ => pure [], .standard, ⟨10, fun _ _ => ⟨0⟩⟩⟩

/-- The broker that stores one job, which runs when it is first looked at and has failed when it is
looked at again. -/
def watchedBroker : Broker :=
  ((Broker.insertJob [2, 7] 32773 "bad\x0d\nkey\n").run .empty).2

/-- The broker before each look at its job. -/
def watchedBefore : Nat → Broker × Unit
  | 0 => ((watchingSession.getObject (Broker.instancePath jobClass 1)).run (watchedBroker, ())).2
  | n + 1 =>
    ((watchingSession.refetch ⟨n⟩).run
      ((watchingSession.access.getAs ⟨n⟩ "JobState" .uint16).run (watchedBefore n)).2).2

/-- What the job shows. -/
def watchedHistory : JobHistory watchingSession where
  handle i := ⟨i⟩
  state i := if i = 0 then 2 else 7
  path _ := Broker.instancePath jobClass 1
  before := watchedBefore
  seen i := ((watchingSession.access.getAs ⟨i⟩ "JobState" .uint16).run (watchedBefore i)).2
  named i :=
    ((watchingSession.access.requirePath ⟨i⟩).run
      ((watchingSession.access.getAs ⟨i⟩ "JobState" .uint16).run (watchedBefore i)).2).2
  look
    | 0, _ => rfl
    | 1, _ => rfl
    | _ + 2, h => absurd (h 1 (by omega)) (by decide)
  name
    | 0, _ => rfl
    | _ + 1, h => absurd (h 1 (by omega)) (by decide)
  fetch
    | 0, _ => rfl
    | _ + 1, h => absurd (h 1 (by omega)) (by decide)

set_option maxRecDepth 1000 in
/-- The job is looked at twice and fetched once in between, and its failure is told on one line. -/
theorem wait_tells_failure :
    let r := ((ofService watchingSession).wait watchingSession.journaled ⟨0⟩).run
      (watchedBefore 0, [])
    watchedHistory.Ends 1 32773 "bad\x0d\nkey\n" ∧
      r.1 = .error (.job 32773 "bad  key") ∧ statesRead r.2.2 = [⟨0⟩, ⟨1⟩] ∧
      pathsFetched r.2.2 = [Broker.instancePath jobClass 1] := by
  have hends : watchedHistory.Ends 1 32773 "bad\x0d\nkey\n" := by
    refine ⟨?_, by decide, _, _, rfl, rfl⟩
    intro i hi
    obtain rfl : i = 0 := by omega
    decide
  obtain ⟨hverdict, hreads, hfetches⟩ :=
    (wait_goes_as_job_does (ofService watchingSession) watchingSession watchedHistory).1 1 32773
      "bad\x0d\nkey\n" hends (fun _ _ => rfl) (by decide)
  exact ⟨hends, hverdict.trans rfl, hreads, hfetches⟩

end CimBroker.JobWaiter
