/-
# CimBroker.Proofs.StoreDeeds — the deeds that change the store

Defining, storing, queueing, setting, removing and fetching change what is stored, and none of them
changes what is live: fetching hands out new objects and nothing else does.  There is one equation
for each of them.  Storing a job is a row of other deeds, and a fetch of whatever kind is a row of
single ones (`Snapshots`) at paths that are known beforehand (`Request.hits`).

In short, nothing but a write changes an object behind a handle, and no deed makes values up
(`Grows.deed`).

What is written on the trail, and which cursors are open, is left out where it does not matter
(`Alike`).  Writes are not among these deeds: they are in `CimBroker.Proofs.Courses`.
-/
import CimBroker.Proofs.Courses

namespace CimBroker.Broker

open CimBroker.Action

/-! ## Single deeds -/

theorem insert_cases (className : String) (values : List (String × Variant)) (b : Broker) :
    (∃ e, (insert className values).run b = (.error e, b)) ∨
      ∃ c stored, b.classes.get? className = some c ∧ c.assign .empty values = .ok stored ∧
        (insert className values).run b = (.ok (instancePath c.name (b.lastId + 1)),
          { b with
            lastId := b.lastId + 1
            objects :=
              b.objects.set (instancePath c.name (b.lastId + 1)) ⟨c.name, stored, []⟩ }) := by
  unfold insert classNamed
  cases hc : b.classes.get? className with
  | none =>
    exact .inl ⟨.notFound ("class " ++ className), by simp [run_bind, state, require, hc]⟩
  | some c =>
    cases hassign : c.assign .empty values with
    | error e => exact .inl ⟨e, by simp [run_bind, state, require, hc, hassign]⟩
    | ok stored =>
      exact .inr ⟨c, stored, rfl, hassign, by simp [run_bind, state, require, hc, hassign]⟩

theorem schedule_cases (path name : String) (v : Variant) (b : Broker) :
    (∃ e, (schedule path name v).run b = (.error e, b) ∧ b.objects.get? path = none) ∨
      ∃ o, b.objects.get? path = some o ∧ (schedule path name v).run b = (.ok (),
        { b with
          objects := b.objects.set path { o with pending := o.pending ++ [(name, v)] } }) := by
  unfold schedule storedAt
  cases ho : b.objects.get? path with
  | none => exact .inl ⟨.notFound path, by simp [run_bind, state, require, ho], rfl⟩
  | some o => exact .inr ⟨o, rfl, by simp [run_bind, state, require, change, ho]⟩

theorem setProperty_cases (path name : String) (v : Variant) (b : Broker) :
    (∃ e, (setProperty path name v).run b = (.error e, b)) ∨
      ∃ o, b.objects.get? path = some o ∧ (setProperty path name v).run b = (.ok (),
        { b with objects := b.objects.set path { o with values := o.values.set name v } }) := by
  unfold setProperty storedAt classNamed
  cases ho : b.objects.get? path with
  | none => exact .inl ⟨.notFound path, by simp [run_bind, state, require, ho]⟩
  | some o =>
    cases hc : b.classes.get? o.className with
    | none =>
      exact .inl ⟨.notFound ("class " ++ o.className),
        by simp [run_bind, state, require, ho, hc]⟩
    | some c =>
      cases hcheck : c.checkAssignable name v with
      | error e => exact .inl ⟨e, by simp [run_bind, state, require, ho, hc, hcheck]⟩
      | ok _ => exact .inr ⟨o, rfl, by simp [run_bind, state, require, change, ho, hc, hcheck]⟩

/-! ## Jobs -/

/-- What storing a job consists of: the class of jobs is defined if there is none, an instance of it
is stored, and changes are queued on that instance. -/
inductive JobDeed (b : Broker) : Deed → Prop
  | define : JobDeed b (.request (.defineClass (.job jobClass)))
  | insert {values : List (String × Variant)}
      (hvalues : ∀ name v, (name, v) ∈ values → (∃ n, v = .int32 n) ∨ ∃ s, v = .text s) :
      JobDeed b (.request (.insert jobClass values))
  | queue (className : String) (n : Nat) :
      JobDeed b
        (.request (.schedule (instancePath className (b.lastId + 1)) "JobState" (.int32 n)))

/-- Changes that are queued in a row are deeds in a row. -/
theorem schedules_course (path : String) (states : List (BitVec 16)) (b : Broker) :
    ∃ deeds, ((states.forM fun state => schedule path "JobState" (.int32 state.toNat)).run b).2 =
        course b deeds ∧
      ∀ d ∈ deeds, ∃ n, d = .request (.schedule path "JobState" (.int32 n)) := by
  induction states generalizing b with
  | nil => exact ⟨[], rfl, nofun⟩
  | cons state states ih =>
    let first : Deed := .request (.schedule path "JobState" (.int32 state.toNat))
    show ∃ deeds, ((schedule path "JobState" (.int32 state.toNat) >>= fun _ =>
      states.forM fun state => schedule path "JobState" (.int32 state.toNat)).run b).2 = _ ∧ _
    rw [run_bind]
    have hfirst : ((schedule path "JobState" (.int32 state.toNat)).run b).2 = first.after b := rfl
    revert hfirst
    rcases (schedule path "JobState" (.int32 state.toNat)).run b with ⟨outcome, b'⟩
    intro hfirst
    cases outcome with
    | error e => exact ⟨[first], hfirst, List.forall_mem_singleton.mpr ⟨_, rfl⟩⟩
    | ok _ =>
      obtain ⟨deeds, hdeeds, hall⟩ := ih b'
      refine ⟨first :: deeds, ?_, List.forall_mem_cons.mpr ⟨⟨_, rfl⟩, hall⟩⟩
      rw [course_cons, ← hfirst]
      exact hdeeds

/-- The part of storing a job that comes once its class is there. -/
def insertJobInstance (states : List (BitVec 16)) (code : BitVec 16) (description : String) :
    Action Broker String := do
  let path ← insert jobClass
    [("JobState", .int32 ((states.head?.map BitVec.toNat).getD 7)),
      ("ErrorCode", .int32 code.toNat), ("ErrorDescription", .text description)]
  (states.drop 1).forM fun state => schedule path "JobState" (.int32 state.toNat)
  return path

theorem insertJobInstance_course (states : List (BitVec 16)) (code : BitVec 16)
    (description : String) {b b₁ : Broker} (hlastId : b₁.lastId = b.lastId) :
    ∃ deeds, ((insertJobInstance states code description).run b₁).2 = course b₁ deeds ∧
      ∀ d ∈ deeds, JobDeed b d := by
  let values : List (String × Variant) :=
    [("JobState", .int32 ((states.head?.map BitVec.toNat).getD 7)),
      ("ErrorCode", .int32 code.toNat), ("ErrorDescription", .text description)]
  have hvalues : ∀ name v, (name, v) ∈ values → (∃ n, v = .int32 n) ∨ ∃ s, v = .text s := by
    intro name v hmem
    simp only [values, List.mem_cons, Prod.mk.injEq, List.not_mem_nil, or_false] at hmem
    rcases hmem with ⟨-, rfl⟩ | ⟨-, rfl⟩ | ⟨-, rfl⟩
    · exact .inl ⟨_, rfl⟩
    · exact .inl ⟨_, rfl⟩
    · exact .inr ⟨_, rfl⟩
  let stored : Deed := .request (.insert jobClass values)
  have hstored : JobDeed b stored := .insert hvalues
  have hafter : stored.after b₁ = ((insert jobClass values).run b₁).2 := rfl
  unfold insertJobInstance
  rcases insert_cases jobClass values b₁ with ⟨e, hrun⟩ | ⟨c, _, -, -, hrun⟩
  · rw [run_bind_of_error hrun]
    refine ⟨[stored], ?_, List.forall_mem_singleton.mpr hstored⟩
    rw [course_cons, hafter, hrun]
    rfl
  · rw [run_bind_of_ok hrun]
    rw [hrun] at hafter
    obtain ⟨deeds, hdeeds, hall⟩ := schedules_course (instancePath c.name (b₁.lastId + 1))
      (states.drop 1) (stored.after b₁)
    refine ⟨stored :: deeds, ?_, List.forall_mem_cons.mpr ⟨hstored, fun d hd => ?_⟩⟩
    · rw [course_cons, ← hdeeds, hafter, run_bind]
      rcases (List.forM (states.drop 1) fun state =>
        schedule (instancePath c.name (b₁.lastId + 1)) "JobState" (.int32 state.toNat)).run _ with
        ⟨outcome, b'⟩
      cases outcome <;> rfl
    · obtain ⟨n, rfl⟩ := hall d hd
      rw [hlastId]
      exact .queue c.name n

/-- **Storing a job is a row of deeds.** -/
theorem insertJob_course (states : List (BitVec 16)) (code : BitVec 16) (description : String)
    (b : Broker) : ∃ deeds, Request.after b (.insertJob states code description) =
        course b deeds ∧ ∀ d ∈ deeds, JobDeed b d := by
  have hjob : insertJob states code description = Action.state >>= fun b =>
      if !b.hasClass jobClass then
        defineClass (.job jobClass) >>= fun _ => insertJobInstance states code description
      else insertJobInstance states code description := rfl
  show ∃ deeds, ((insertJob states code description).run b).2 = _ ∧ _
  rw [hjob, run_bind_of_ok (show Action.state.run b = (.ok b, b) from rfl)]
  cases b.hasClass jobClass with
  | true => exact insertJobInstance_course states code description rfl
  | false =>
    let defined : Deed := .request (.defineClass (.job jobClass))
    obtain ⟨deeds, hdeeds, hall⟩ := insertJobInstance_course states code description
      (show (defined.after b).lastId = b.lastId from rfl)
    exact ⟨defined :: deeds, hdeeds, List.forall_mem_cons.mpr ⟨.define, hall⟩⟩

/-! ## Fetching -/

/-- What fetching a path does: the definition of a class is handed out, or an instance as it is, and
then the instance undergoes its oldest change.  The change is applied also if the class of the
instance is missing, which fails the fetch. -/
inductive Snapshot (path : String) (b : Broker) : Except Error (Option Handle) → Broker → Prop
  | definition {c : ClassDef} (hc : b.classes.get? path = some c) :
      Snapshot path b (.ok (some ⟨b.live.size⟩))
        { b with live := b.live.push ⟨c, some c.name, true, .empty⟩ }
  | nothing (hpath : b.classes.get? path = none) (ho : b.objects.get? path = none) :
      Snapshot path b (.ok none) b
  | found {o : StoredObject} {c : ClassDef} (hpath : b.classes.get? path = none)
      (ho : b.objects.get? path = some o) (hc : b.classes.get? o.className = some c) :
      Snapshot path b (.ok (some ⟨b.live.size⟩))
        { b with
          objects := b.objects.set path (StoredObject.advance o)
          live := b.live.push ⟨c, some path, false, o.values⟩ }
  | orphan {o : StoredObject} (hpath : b.classes.get? path = none)
      (ho : b.objects.get? path = some o) (hc : b.classes.get? o.className = none) :
      Snapshot path b (.error (.notFound ("class " ++ o.className)))
        { b with objects := b.objects.set path (StoredObject.advance o) }

theorem run_snapshot (path : String) (b : Broker) :
    Snapshot path b ((snapshot path).run b).1 ((snapshot path).run b).2 := by
  unfold snapshot bringClass bringInstance bring classNamed
  cases hpath : b.classes.get? path with
  | some c =>
    have h := Snapshot.definition hpath
    simpa [run_bind, state, hpath, Except.map] using h
  | none =>
    cases ho : b.objects.get? path with
    | none =>
      have h := Snapshot.nothing hpath ho
      simpa [run_bind, state, hpath, ho] using h
    | some o =>
      cases hc : b.classes.get? o.className with
      | none =>
        have h := Snapshot.orphan hpath ho hc
        simpa [run_bind, state, change, require, hpath, ho, hc] using h
      | some c =>
        have h := Snapshot.found hpath ho hc
        simpa [run_bind, state, change, require, hpath, ho, hc, Except.map] using h

/-- What fetching paths in turn does, and the handles to what was found. -/
inductive Snapshots : List String → Broker → Except Error (List Handle) → Broker → Prop
  | done (b : Broker) : Snapshots [] b (.ok []) b
  | found {path : String} {paths : List String} {b b' b'' : Broker} {h : Handle}
      {outcome : Except Error (List Handle)} (hfound : Snapshot path b (.ok (some h)) b')
      (hrest : Snapshots paths b' outcome b'') :
      Snapshots (path :: paths) b (outcome.map (h :: ·)) b''
  | nothing {path : String} {paths : List String} {b b' b'' : Broker}
      {outcome : Except Error (List Handle)} (hnothing : Snapshot path b (.ok none) b')
      (hrest : Snapshots paths b' outcome b'') : Snapshots (path :: paths) b outcome b''
  | failed {path : String} (paths : List String) {b b' : Broker} {e : Error}
      (hfailed : Snapshot path b (.error e) b') : Snapshots (path :: paths) b (.error e) b'

theorem run_fetchAll (paths : List String) (b : Broker) :
    Snapshots paths b ((fetchAll paths).run b).1 ((fetchAll paths).run b).2 := by
  induction paths generalizing b with
  | nil => exact .done b
  | cons path paths ih =>
    have hfirst := run_snapshot path b
    rw [fetchAll, run_bind]
    revert hfirst
    rcases (snapshot path).run b with ⟨outcome, b'⟩
    intro hfirst
    cases outcome with
    | error e => exact .failed paths hfirst
    | ok found =>
      cases found with
      | none => exact .nothing hfirst (ih b')
      | some h =>
        have hrest := Snapshots.found hfirst (ih b')
        show Snapshots _ b ((fetchAll paths >>= fun hs => pure (h :: hs)).run b').1
          ((fetchAll paths >>= fun hs => pure (h :: hs)).run b').2
        rw [run_bind]
        rcases hrun : (fetchAll paths).run b' with ⟨outcome, b''⟩
        rw [hrun] at hrest
        cases outcome <;> exact hrest

/-- What each fetch keeps is kept by fetching in turn. -/
theorem Snapshots.keeps {I : Broker → Prop}
    (hstep : ∀ path b outcome b', Snapshot path b outcome b' → I b → I b') {paths : List String}
    {b b' : Broker} {outcome : Except Error (List Handle)} (h : Snapshots paths b outcome b')
    (hb : I b) : I b' := by
  induction h with
  | done => exact hb
  | found hfound _ ih => exact ih (hstep _ _ _ _ hfound hb)
  | nothing hnothing _ ih => exact ih (hstep _ _ _ _ hnothing hb)
  | failed _ hfailed => exact hstep _ _ _ _ hfailed hb

/-- What is stored and what is live is the same. -/
structure Alike (b b' : Broker) : Prop where
  classes : b'.classes = b.classes
  objects : b'.objects = b.objects
  lastId : b'.lastId = b.lastId
  live : b'.live = b.live

theorem Alike.refl (b : Broker) : Alike b b := ⟨rfl, rfl, rfl, rfl⟩

/-- The paths that a request fetches, in turn. -/
def Request.hits (b : Broker) : Request → List String
  | object path => [path]
  | fetch path => [path]
  | query wql => (((Action.ofExcept (Wql.Query.parse wql) >>= answer).run b).1.toOption).getD []
  | enumerate className =>
    if (b.classes.get? className).isSome then (b.instancesOf className).map Prod.fst else []
  | _ => []

def Request.IsFetch : Request → Prop
  | object _ | fetch _ | query _ | enumerate _ => True
  | _ => False

/-- Fetching one path is fetching a row of one. -/
theorem Snapshot.single {path : String} {b b' : Broker} {outcome : Except Error (Option Handle)}
    (h : Snapshot path b outcome b') : ∃ outcome', Snapshots [path] b outcome' b' := by
  cases outcome with
  | error e => exact ⟨_, .failed [] h⟩
  | ok found =>
    cases found with
    | none => exact ⟨_, .nothing h (.done b')⟩
    | some h' => exact ⟨_, .found h (.done b')⟩

/-- Finding an answer changes nothing, and does not look at the trail. -/
theorem run_answer (q : Wql.Query) (b : Broker) (trail : List Call) :
    (answer q).run { b with trail := trail } =
      (((answer q).run b).1, { b with trail := trail }) := by
  cases q with
  | select className filters => simp [answer, run_bind, state, instancesOf]
  | associators path resultClass => rfl
  | references path resultClass =>
    cases hc : b.classes.get? resultClass with
    | none => simp [answer, classNamed, run_bind, state, require, hc]
    | some c => simp [answer, classNamed, run_bind, state, require, hc]

/-- Opening a cursor touches nothing else. -/
theorem alike_openCursor (results : List Handle) (b : Broker) :
    Alike b ((openCursor results).run b).2 := ⟨rfl, rfl, rfl, rfl⟩

/-- Fetching in turn, and opening a cursor over what was found. -/
theorem fetchAll_openCursor (paths : List String) (b : Broker) :
    ∃ outcome b', Snapshots paths b outcome b' ∧
      Alike b' ((fetchAll paths >>= openCursor).run b).2 := by
  refine ⟨_, _, run_fetchAll paths b, ?_⟩
  rw [run_bind]
  rcases (fetchAll paths).run b with ⟨outcome, b'⟩
  cases outcome with
  | error e => exact .refl b'
  | ok results => exact alike_openCursor results b'

/-- **What fetching requests do** to what is stored and what is live. -/
theorem Request.IsFetch.snapshots {r : Request} (hr : r.IsFetch) (b : Broker) :
    ∃ b₁ outcome b₂, Alike b b₁ ∧ Snapshots (r.hits b) b₁ outcome b₂ ∧ Alike b₂ (r.after b) := by
  cases r with
  | object path =>
    obtain ⟨outcome, hsingle⟩ := (run_snapshot path b).single
    refine ⟨b, outcome, _, .refl b, hsingle, ?_⟩
    show Alike _ ((snapshot path >>= fun found => Action.require (.notFound path) found).run b).2
    rw [run_bind]
    rcases (snapshot path).run b with ⟨outcome, b'⟩
    cases outcome with
    | error e => exact .refl b'
    | ok found => cases found <;> exact .refl b'
  | fetch path =>
    let noted : Broker := { b with trail := .fetch path :: b.trail }
    obtain ⟨outcome, hsingle⟩ := (run_snapshot path noted).single
    exact ⟨noted, outcome, _, ⟨rfl, rfl, rfl, rfl⟩, hsingle, .refl _⟩
  | query wql =>
    let noted : Broker := { b with trail := .query wql :: b.trail }
    have hnoted : Alike b noted := ⟨rfl, rfl, rfl, rfl⟩
    show ∃ b₁ outcome b₂, Alike b b₁ ∧
      Snapshots (((Action.ofExcept (Wql.Query.parse wql) >>= answer).run b).1.toOption.getD []) b₁
        outcome b₂ ∧
      Alike b₂ ((Action.ofExcept (Wql.Query.parse wql) >>= fun q => answer q >>= fun paths =>
        fetchAll paths >>= openCursor).run noted).2
    rw [run_bind, run_bind, run_ofExcept, run_ofExcept]
    cases hparse : Wql.Query.parse wql with
    | error e => exact ⟨noted, _, noted, hnoted, .done noted, .refl noted⟩
    | ok q =>
      show ∃ b₁ outcome b₂, Alike b b₁ ∧
        Snapshots (((answer q).run b).1.toOption.getD []) b₁ outcome b₂ ∧
        Alike b₂ ((answer q >>= fun paths => fetchAll paths >>= openCursor).run noted).2
      have hanswer : (answer q).run noted = (((answer q).run b).1, noted) := run_answer q b _
      cases houtcome : ((answer q).run b).1 with
      | error e =>
        rw [run_bind_of_error (hanswer.trans (by rw [houtcome]))]
        exact ⟨noted, _, noted, hnoted, .done noted, .refl noted⟩
      | ok paths =>
        rw [run_bind_of_ok (hanswer.trans (by rw [houtcome]))]
        obtain ⟨outcome, b', hsnapshots, hopen⟩ := fetchAll_openCursor paths noted
        exact ⟨noted, outcome, b', hnoted, hsnapshots, hopen⟩
  | enumerate className =>
    let noted : Broker := { b with trail := .enumerate className :: b.trail }
    have hnoted : Alike b noted := ⟨rfl, rfl, rfl, rfl⟩
    show ∃ b₁ outcome b₂, Alike b b₁ ∧
      Snapshots (if (b.classes.get? className).isSome then _ else _) b₁ outcome b₂ ∧
      Alike b₂ ((classNamed className >>= fun _ => Action.state >>= fun now =>
        fetchAll ((now.instancesOf className).map Prod.fst) >>= openCursor).run noted).2
    cases hc : b.classes.get? className with
    | none =>
      have hmissing : (classNamed className).run noted =
          (.error (.notFound ("class " ++ className)), noted) := by
        simp [classNamed, run_bind, state, require, noted, hc]
      rw [run_bind_of_error hmissing]
      exact ⟨noted, _, noted, hnoted, .done noted, .refl noted⟩
    | some c =>
      have hthere : (classNamed className).run noted = (.ok c, noted) := by
        simp [classNamed, run_bind, state, require, noted, hc]
      rw [run_bind_of_ok hthere]
      obtain ⟨outcome, b', hsnapshots, hopen⟩ :=
        fetchAll_openCursor ((b.instancesOf className).map Prod.fst) noted
      exact ⟨noted, outcome, b', hnoted, hsnapshots, hopen⟩
  | _ => exact hr.elim

/-! ## Growth -/

/-- Everything that was live still is, and every value that is new in the broker, or stands at a new
place, was known. -/
structure Grows (known : Variant → Prop) (b b' : Broker) : Prop where
  live : ∀ (i : Nat) (o : LiveObject), b.live[i]? = some o → b'.live[i]? = some o
  new : ∀ (i : Nat) (o : LiveObject), b'.live[i]? = some o →
    b.live[i]? = some o ∨ ∀ name v, o.values.get? name = some v → known v
  stored : ∀ path o, b'.objects.get? path = some o →
    (∀ name v, o.values.get? name = some v → known v) ∧ ∀ name v, (name, v) ∈ o.pending → known v

section Growing

variable {known : Variant → Prop} {b₀ b : Broker}

theorem Grows.refl (hknown : ∀ v, b₀.Occurs v → known v) : Grows known b₀ b₀ :=
  ⟨fun _ _ ho => ho, fun _ _ ho => .inl ho, fun _ _ ho =>
    ⟨fun _ v hv => hknown v (.stored ho hv), fun _ v hv => hknown v (.queued ho hv)⟩⟩

/-- Only what is stored and what is live matters. -/
theorem Grows.congr {b' : Broker} (h : Grows known b₀ b) (hobjects : b'.objects = b.objects)
    (hlive : b'.live = b.live) : Grows known b₀ b' :=
  ⟨hlive ▸ h.live, hlive ▸ h.new, hobjects ▸ h.stored⟩

/-- An object with known values and known changes may be put in its place. -/
theorem Grows.store (h : Grows known b₀ b) {path : String} {o : StoredObject}
    (hvalues : ∀ name v, o.values.get? name = some v → known v)
    (hpending : ∀ name v, (name, v) ∈ o.pending → known v) :
    Grows known b₀ { b with objects := b.objects.set path o } := by
  refine ⟨h.live, h.new, fun other o' ho' => ?_⟩
  rw [show ({ b with objects := b.objects.set path o } : Broker).objects = b.objects.set path o from
    rfl, Table.get?_set] at ho'
  split at ho'
  · cases ho'
    exact ⟨hvalues, hpending⟩
  · exact h.stored other o' ho'

theorem Grows.erase (h : Grows known b₀ b) (path : String) :
    Grows known b₀ { b with objects := b.objects.erase path } := by
  refine ⟨h.live, h.new, fun other o ho => ?_⟩
  rw [show ({ b with objects := b.objects.erase path } : Broker).objects = b.objects.erase path from
    rfl, Table.get?_erase] at ho
  split at ho
  · cases ho
  · exact h.stored other o ho

theorem Grows.adds {b' : Broker} (h : Grows known b₀ b) (hadds : Adds known b b') :
    Grows known b₀ b' := by
  refine ⟨fun i o ho => hadds.live i o (h.live i o ho), fun i o ho => ?_, hadds.objects ▸ h.stored⟩
  rcases hadds.new i o ho with hbefore | hvalues
  · exact h.new i o hbefore
  · exact .inr hvalues

/-- What occurs later was known. -/
theorem Grows.known_of_occurs (h : Grows known b₀ b) (hknown : ∀ v, b₀.Occurs v → known v)
    {v : Variant} (hv : b.Occurs v) : known v := by
  cases hv with
  | @live i o name _ ho hv =>
    rcases h.new i o ho with hbefore | hvalues
    · exact hknown v (.live hbefore hv)
    · exact hvalues name v hv
  | stored ho hv => exact (h.stored _ _ ho).1 _ v hv
  | queued ho hv => exact (h.stored _ _ ho).2 _ v hv

theorem Grows.insert (h : Grows known b₀ b) {className : String}
    {values : List (String × Variant)} (hvalues : ∀ name v, (name, v) ∈ values → known v) :
    Grows known b₀ (Request.after b (.insert className values)) := by
  show Grows known b₀ ((Broker.insert className values).run b).2
  rcases insert_cases className values b with ⟨e, hrun⟩ | ⟨c, stored, -, hassign, hrun⟩
  · rw [hrun]
    exact h
  · rw [hrun]
    have hstored : Grows known b₀ { b with
        objects := b.objects.set (instancePath c.name (b.lastId + 1)) ⟨c.name, stored, []⟩ } := by
      refine h.store (fun name v hv => ?_) nofun
      exact hvalues name v ((mem_of_assign hassign hv).resolve_left nofun)
    exact hstored.congr rfl rfl

theorem Grows.schedule (h : Grows known b₀ b) (path name : String) {v : Variant} (hv : known v) :
    Grows known b₀ (Request.after b (.schedule path name v)) := by
  show Grows known b₀ ((Broker.schedule path name v).run b).2
  rcases schedule_cases path name v b with ⟨e, hrun, -⟩ | ⟨o, ho, hrun⟩
  · rw [hrun]
    exact h
  · rw [hrun]
    obtain ⟨hvalues, hpending⟩ := h.stored path o ho
    refine h.store hvalues fun name' v' hmem => ?_
    rcases List.mem_append.mp hmem with hold | hnew
    · exact hpending name' v' hold
    · cases List.mem_singleton.mp hnew
      exact hv

theorem Grows.setProperty (h : Grows known b₀ b) (path name : String) {v : Variant}
    (hv : known v) : Grows known b₀ (Request.after b (.setProperty path name v)) := by
  show Grows known b₀ ((Broker.setProperty path name v).run b).2
  rcases setProperty_cases path name v b with ⟨e, hrun⟩ | ⟨o, ho, hrun⟩
  · rw [hrun]
    exact h
  · rw [hrun]
    obtain ⟨hvalues, hpending⟩ := h.stored path o ho
    refine h.store (fun name' v' hget => ?_) hpending
    rw [Table.get?_set] at hget
    split at hget
    · cases hget
      exact hv
    · exact hvalues name' v' hget

/-- The values of a job are numbers and a text. -/
theorem Grows.insertJob (h : Grows known b₀ b)
    (hplain : ∀ v, (∃ n, v = .int32 n) ∨ (∃ s, v = .text s) → known v) (states : List (BitVec 16))
    (code : BitVec 16) (description : String) :
    Grows known b₀ (Request.after b (.insertJob states code description)) := by
  obtain ⟨deeds, hdeeds, hall⟩ := insertJob_course states code description b
  rw [hdeeds]
  refine course_keeps (I := Grows known b₀) (fun d hd now hnow => ?_) h
  cases hall d hd with
  | define => exact hnow.congr rfl rfl
  | insert hvalues => exact hnow.insert fun name v hmem => hplain v (hvalues name v hmem)
  | queue className n => exact hnow.schedule _ _ (hplain _ (.inl ⟨n, rfl⟩))

theorem Grows.push (h : Grows known b₀ b) {o : LiveObject}
    (ho : ∀ name v, o.values.get? name = some v → known v) :
    Grows known b₀ { b with live := b.live.push o } :=
  h.adds ((Adds.refl b).push ho)

/-- An object after its oldest change has the values that it had and those that waited. -/
theorem Grows.advance (h : Grows known b₀ b) {path : String} {o : StoredObject}
    (ho : b.objects.get? path = some o) :
    Grows known b₀ { b with objects := b.objects.set path (StoredObject.advance o) } := by
  obtain ⟨hvalues, hpending⟩ := h.stored path o ho
  unfold StoredObject.advance
  split
  · exact h.store hvalues hpending
  · rename_i name v rest hqueue
    rw [hqueue] at hpending
    refine h.store (fun name' v' hget => ?_) fun name' v' hmem =>
      hpending name' v' (List.mem_cons_of_mem _ hmem)
    rw [Table.get?_set] at hget
    split at hget
    · cases hget
      exact hpending name v List.mem_cons_self
    · exact hvalues name' v' hget

theorem Grows.snapshot {b' : Broker} (h : Grows known b₀ b) {path : String}
    {outcome : Except Error (Option Handle)} (hsnapshot : Snapshot path b outcome b') :
    Grows known b₀ b' := by
  cases hsnapshot with
  | definition hc => exact h.push nofun
  | nothing => exact h
  | found hpath ho hc => exact (h.advance ho).push (h.stored _ _ ho).1
  | orphan hpath ho hc => exact h.advance ho

/-- **Deeds make nothing up.**  After any deed but a write that succeeds, what was live is as it
was, and every value was there before or was passed with the deed. -/
theorem Grows.deed (h : Grows known b₀ b) (hknown : ∀ v, b₀.Occurs v → known v) {d : Deed}
    (hgives : ∀ v, d.Gives v → known v)
    (hwrite : ∀ h name v, d = .request (.put h name v) → ((put h name v).run b).1 ≠ .ok ()) :
    Grows known b₀ (d.after b) := by
  have hquiet (hd : d.IsQuiet) : Grows known b₀ (d.after b) := by
    have hadds := hd.adds b
    refine h.adds ⟨hadds.toExtends, hadds.lastId, fun i o ho => (hadds.new i o ho).imp_right ?_⟩
    exact fun hvalues name v hv => (hvalues name v hv).elim (h.known_of_occurs hknown) (hgives v)
  have hfetch {r : Request} (hr : r.IsFetch) : Grows known b₀ (r.after b) := by
    obtain ⟨b₁, outcome, b₂, hbefore, hsnapshots, hafter⟩ := hr.snapshots b
    have hb₂ : Grows known b₀ b₂ := hsnapshots.keeps (fun _ _ _ _ hstep h => h.snapshot hstep)
      (h.congr hbefore.objects hbefore.live)
    exact hb₂.congr hafter.objects hafter.live
  cases d with
  | call path method => exact hquiet trivial
  | outputs m results => exact hquiet trivial
  | request r =>
    cases r with
    | defineClass c => exact h.congr rfl rfl
    | insert className values => exact h.insert fun name v hmem => hgives v ⟨name, hmem⟩
    | insertJob states code description => exact h.insertJob hgives states code description
    | schedule path name v => exact h.schedule path name (hgives v rfl)
    | setProperty path name v => exact h.setProperty path name (hgives v rfl)
    | remove path => exact h.erase path
    | object path => exact hfetch (r := .object path) trivial
    | fetch path => exact hfetch (r := .fetch path) trivial
    | query wql => exact hfetch (r := .query wql) trivial
    | enumerate className => exact hfetch (r := .enumerate className) trivial
    | put h' name v =>
      have hafter : (Deed.request (.put h' name v)).after b = _ := put_failed (hwrite h' name v rfl)
      rw [hafter]
      exact h.congr rfl rfl
    | _ => exact hquiet trivial

end Growing

end CimBroker.Broker
