/-
# CimBroker.Proofs.FailedRequests — what fails or finds nothing changes nothing

Fetching is destructive: it takes a change out of the queue of what it finds.  A request that fails
does so before it fetches anything, and once it fetches it cannot fail any more, as no stored object
lacks its class (`Rooted`).  So a round trip that fails or finds nothing leaves what is stored,
queued, associated and required as it was and is written down once, in every state that a run of a
broker leads to (`failed_requests_only_called`).

`failed_requests_only_called` has the five kinds, each with the entry that it leaves on the trail
(`OnlyCalled`).  That a fetch cannot fail after it has begun to change things needs
`Rooted` of `CimBroker.Proofs.StoreChanges`.  A call whose routine has started is left out, since
the routine may have done anything by the time it fails.
-/
import CimBroker.Proofs.Inputs
import CimBroker.Proofs.StoreChanges

namespace CimBroker.Broker

open CimBroker.Action

/-- All that has happened to the broker is one round trip that was written down; cursors may have
been opened. -/
structure OnlyCalled (call : Call) (b b' : Broker) : Prop where
  classes : b'.classes = b.classes
  objects : b'.objects = b.objects
  associations : b'.associations = b.associations
  credentials : b'.credentials = b.credentials
  lastId : b'.lastId = b.lastId
  live : b'.live = b.live
  calls : b'.calls = b.calls ++ [call]

theorem onlyCalled_note (call : Call) (b : Broker) : OnlyCalled call b ((note call).run b).2 := by
  refine ⟨rfl, rfl, rfl, rfl, rfl, rfl, ?_⟩
  show (call :: b.trail).reverse = _
  rw [List.reverse_cons]
  rfl

/-- A query failed, or its cursor is at the end. -/
def FoundNothing : Except Error Cursor × Broker → Prop
  | (.ok cursor, b') => b'.cursorRest cursor = []
  | (.error _, _) => True

section Requests

variable {b b' : Broker} {paths : List String}

/-! ## Fetching -/

/-- No stored object lacks its class, so that a fetch cannot fail. -/
theorem Rooted.snapshot_succeeds (h : b.Rooted) {path : String}
    {outcome : Except Error (Option Handle)} (hs : Snapshot path b outcome b') :
    ∃ found, outcome = .ok found := by
  cases hs with
  | definition => exact ⟨_, rfl⟩
  | nothing => exact ⟨_, rfl⟩
  | found => exact ⟨_, rfl⟩
  | orphan hpath ho hc =>
    obtain ⟨c, hc'⟩ := h.classed _ _ ho
    cases hc.symm.trans hc'

theorem Rooted.fetch_succeeds (h : b.Rooted) {outcome : Except Error (List Handle)}
    (hs : Snapshots paths b outcome b') : ∃ results, outcome = .ok results := by
  induction hs with
  | done => exact ⟨[], rfl⟩
  | @found _ _ _ _ _ handle _ hfound _ ih =>
    obtain ⟨results, rfl⟩ := ih (h.stores hfound.stores)
    exact ⟨handle :: results, rfl⟩
  | nothing hnothing _ ih => exact ih (h.stores hnothing.stores)
  | failed paths hfailed =>
    obtain ⟨found, hok⟩ := h.snapshot_succeeds hfailed
    cases hok

/-- A path that leads nowhere is left alone. -/
theorem Snapshot.unchanged {path : String} (h : Snapshot path b (.ok none) b') : b' = b := by
  cases h
  rfl

theorem Snapshots.unchanged {outcome : Except Error (List Handle)}
    (h : Snapshots paths b outcome b') (hnone : outcome = .ok []) : b' = b := by
  induction h with
  | done => rfl
  | @found _ _ _ _ _ _ outcome _ _ _ =>
    cases outcome with
    | ok results => simp [Except.map] at hnone
    | error e => simp [Except.map] at hnone
  | nothing hnothing _ ih => exact (ih hnone).trans hnothing.unchanged
  | failed => cases hnone

/-- Where fetching in turn finds nothing, only a cursor is opened. -/
theorem Rooted.open_nothing (h : b.Rooted) (paths : List String)
    (hnothing : FoundNothing ((fetchAll paths >>= openCursor).run b)) :
    ((fetchAll paths >>= openCursor).run b).2 = { b with cursors := b.cursors.push [] } := by
  have hs := run_fetchAll paths b
  obtain ⟨results, hok⟩ := h.fetch_succeeds hs
  have hrun : (fetchAll paths).run b = (.ok results, ((fetchAll paths).run b).2) :=
    Prod.ext hok rfl
  rw [run_bind_of_ok hrun] at hnothing ⊢
  have hempty : results = [] := by
    simpa [FoundNothing, openCursor, cursorRest] using hnothing
  subst hempty
  rw [hs.unchanged hok]
  rfl

/-! ## Round trips -/

/-- A request that fetched in turn after it was written down, and found nothing. -/
theorem Rooted.onlyCalled_open (h : b.Rooted) {call : Call} (paths : List String)
    (hnothing : FoundNothing ((fetchAll paths >>= openCursor).run ((note call).run b).2)) :
    OnlyCalled call b ((fetchAll paths >>= openCursor).run ((note call).run b).2).2 := by
  have hnoted : Rooted ((note call).run b).2 := h.congr rfl
  rw [hnoted.open_nothing paths hnothing]
  obtain ⟨hclasses, hobjects, hassociations, hcredentials, hlastId, hlive, hcalls⟩ :=
    onlyCalled_note call b
  exact ⟨hclasses, hobjects, hassociations, hcredentials, hlastId, hlive, hcalls⟩

theorem onlyCalled_logIn (namespaceName : String) (credentials : Option Credentials) (b : Broker) :
    OnlyCalled (.connect namespaceName) b ((logIn namespaceName credentials).run b).2 := by
  let noted : Broker := ((note (.connect namespaceName)).run b).2
  have hafter : ((logIn namespaceName credentials).run b).2 = noted := by
    unfold logIn
    rw [run_bind_of_ok (show (note (.connect namespaceName)).run b = (.ok (), noted) from rfl)]
    -- checking the credentials changes nothing at all
    refine Keeps.bind (f := fun b : Broker => b) Keeps.state (fun now => ?_) noted
    split
    · split
      · exact Keeps.pure _
      · exact Keeps.throw _
    · exact Keeps.pure _
  rw [hafter]
  exact onlyCalled_note _ b

theorem Rooted.onlyCalled_runQuery (h : b.Rooted) (wql : String)
    (hnothing : FoundNothing ((runQuery wql).run b)) :
    OnlyCalled (.query wql) b ((runQuery wql).run b).2 := by
  let noted : Broker := ((note (.query wql)).run b).2
  have hquery : (runQuery wql).run b = (Action.ofExcept (Wql.Query.parse wql) >>= fun q =>
    answer q >>= fun paths => fetchAll paths >>= openCursor).run noted := rfl
  rw [hquery] at hnothing ⊢
  cases hparse : Wql.Query.parse wql with
  | error e => exact onlyCalled_note _ b
  | ok q =>
    rw [hparse] at hnothing
    change FoundNothing ((answer q >>= fun paths => fetchAll paths >>= openCursor).run noted)
      at hnothing
    show OnlyCalled (.query wql) b
      ((answer q >>= fun paths => fetchAll paths >>= openCursor).run noted).2
    -- looking for the paths changes nothing, whether it fails or not
    have hanswer : (answer q).run noted = (((answer q).run b).1, noted) := run_answer q b _
    cases houtcome : ((answer q).run b).1 with
    | error e =>
      rw [houtcome] at hanswer
      rw [run_bind_of_error hanswer]
      exact onlyCalled_note _ b
    | ok paths =>
      rw [houtcome] at hanswer
      rw [run_bind_of_ok hanswer] at hnothing ⊢
      exact h.onlyCalled_open paths hnothing

theorem Rooted.onlyCalled_runEnumeration (h : b.Rooted) (className : String)
    (hnothing : FoundNothing ((runEnumeration className).run b)) :
    OnlyCalled (.enumerate className) b ((runEnumeration className).run b).2 := by
  let noted : Broker := ((note (.enumerate className)).run b).2
  have hlisting : (runEnumeration className).run b = (classNamed className >>= fun _ =>
    Action.state >>= fun now =>
      fetchAll ((now.instancesOf className).map Prod.fst) >>= openCursor).run noted := rfl
  rw [hlisting] at hnothing ⊢
  have hnamed : (classNamed className).run noted =
      ((Action.require (.notFound ("class " ++ className)) (b.classes.get? className)).run noted) :=
    rfl
  cases hc : b.classes.get? className with
  | none =>
    rw [hc] at hnamed
    rw [run_bind_of_error hnamed]
    exact onlyCalled_note _ b
  | some c =>
    rw [hc] at hnamed
    rw [run_bind_of_ok hnamed] at hnothing ⊢
    exact h.onlyCalled_open _ hnothing

theorem Rooted.onlyCalled_fetch (h : b.Rooted) (path : String)
    (hnothing : ∀ handle, ((fetch path).run b).1 ≠ .ok (some handle)) :
    OnlyCalled (.fetch path) b ((fetch path).run b).2 := by
  let noted : Broker := ((note (.fetch path)).run b).2
  have hnoted : noted.Rooted := h.congr rfl
  have hfetch : (fetch path).run b = (snapshot path).run noted := rfl
  rw [hfetch] at hnothing ⊢
  have hsnapshot := run_snapshot path noted
  obtain ⟨found, hok⟩ := hnoted.snapshot_succeeds hsnapshot
  cases found with
  | some handle => exact absurd hok (hnothing handle)
  | none =>
    rw [hok] at hsnapshot
    rw [hsnapshot.unchanged]
    exact onlyCalled_note _ b

end Requests

/-! ## Connections and method calls -/

variable {ω : Type} (routines : Routines ω)

/-- Connecting does nothing but log in. -/
theorem connector_after (server : Option String) (namespaceName : String)
    (credentials : Option Credentials) (b : Broker) (own : ω) :
    ((connector routines server namespaceName credentials).run (b, own)).2 =
      (((logIn namespaceName credentials).run b).2, own) := by
  show ((onFirst (logIn namespaceName credentials) >>= fun _ =>
    pure (connection routines)).run (b, own)).2 = _
  rw [run_bind, run_onFirst]
  rcases (logIn namespaceName credentials).run b with ⟨outcome, b'⟩
  cases outcome with
  | ok _ => rfl
  | error e => rfl

/-- A call whose routine did not run has failed, and nothing else has happened. -/
theorem onlyCalled_invoke (path method : String) (inputs : Option Handle) (b : Broker) (own : ω)
    (log : List (Routine × MethodCall))
    (hran : ((invoke (logged routines) path method inputs).run (b, own, log)).2.2.2 = log) :
    let ran := (invoke (logged routines) path method inputs).run (b, own, log)
    (∃ e, ran.1 = .error e) ∧ OnlyCalled (.invoke path method) b ran.2.1 ∧ ran.2.2.1 = own := by
  have hafter := opening_after path method inputs b
  cases hopening : ((opening path method inputs).run b).1 with
  | error e =>
    have hopened : (onFirst (opening path method inputs)).run (b, own, log) =
        (.error e, begun path method b, own, log) :=
      run_onFirst_of (Prod.ext hopening hafter)
    rw [invoke_eq, run_bind_of_error hopened]
    exact ⟨⟨e, rfl⟩, onlyCalled_note _ b, rfl⟩
  | ok found =>
    obtain ⟨m, routine, call⟩ := found
    -- the routine ran, so it stands at the end of the list
    have hlogged : ((invoke (logged routines) path method inputs).run (b, own, log)).2.2.2 =
        log ++ [(routine, call)] := invoke_logged routines (Prod.ext hopening hafter)
    rw [hran] at hlogged
    simp at hlogged

/-- **What fails or finds nothing changes nothing.** In every state that a run leads to (`course`),
a connection that is refused, a query or listing that fails or finds nothing (`FoundNothing`), a
fetch that does, and a call that fails before its routine starts are written down, and that is all
that happens (`OnlyCalled`). -/
theorem failed_requests_only_called (deeds : List Deed) (own : ω)
    (log : List (Routine × MethodCall)) :
    let b := course .empty deeds
    (∀ server namespaceName credentials e st',
      (connector routines server namespaceName credentials).run (b, own) = (.error e, st') →
        OnlyCalled (.connect namespaceName) b st'.1 ∧ st'.2 = own) ∧
    (∀ wql outcome st', ((connection routines).query wql).run (b, own) = (outcome, st') →
        FoundNothing (outcome, st'.1) → OnlyCalled (.query wql) b st'.1 ∧ st'.2 = own) ∧
    (∀ className outcome st',
      ((connection routines).enumerate className).run (b, own) = (outcome, st') →
        FoundNothing (outcome, st'.1) → OnlyCalled (.enumerate className) b st'.1 ∧ st'.2 = own) ∧
    (∀ path outcome st', ((connection routines).fetch path).run (b, own) = (outcome, st') →
        (∀ handle, outcome ≠ .ok (some handle)) →
          OnlyCalled (.fetch path) b st'.1 ∧ st'.2 = own) ∧
    (∀ path method inputs outcome st',
      ((connection (logged routines)).invoke path method inputs).run (b, own, log) =
        (outcome, st') → st'.2.2 = log →
          (∃ e, outcome = .error e) ∧ OnlyCalled (.invoke path method) b st'.1 ∧
            st'.2.1 = own) := by
  intro b
  have hrooted : b.Rooted := rooted_course deeds
  refine ⟨?_, ?_, ?_, ?_, ?_⟩
  · intro server namespaceName credentials e st' hrun
    have hstate := connector_after routines server namespaceName credentials b own
    rw [hrun] at hstate
    obtain rfl : st' = _ := hstate
    exact ⟨onlyCalled_logIn namespaceName credentials b, rfl⟩
  · rintro wql outcome st' ⟨⟩ hnothing
    exact ⟨hrooted.onlyCalled_runQuery wql hnothing, rfl⟩
  · rintro className outcome st' ⟨⟩ hnothing
    exact ⟨hrooted.onlyCalled_runEnumeration className hnothing, rfl⟩
  · rintro path outcome st' ⟨⟩ hnothing
    exact ⟨hrooted.onlyCalled_fetch path hnothing, rfl⟩
  · intro path method inputs outcome st' hrun hsame
    have hinvoke := onlyCalled_invoke routines path method inputs b own log
    change (invoke (logged routines) path method inputs).run (b, own, log) = _ at hrun
    rw [hrun] at hinvoke
    exact hinvoke hsame

end CimBroker.Broker
