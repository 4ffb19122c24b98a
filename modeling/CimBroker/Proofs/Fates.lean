/-
# CimBroker.Proofs.Fates — what happens to an object while it is stored

An object in the store is fetched, changes of it are queued, and changes are made at once.  The
first part says what becomes of one object to which a row of such things happens (`Fate`): changes
come out of its queue in the order in which they were queued, and everything is written in the order
in which it happened (`writes`).

The rest shows that deeds let nothing else happen to an object, as long as it is not removed
(`Tidy.passes_course`).  This rests on two facts about the store (`Tidy`).  A path leads to the
object that is stored there: it has an equals sign, and the names of classes, which are identifiers,
have none.  And the path of a new object was never in use, as objects are numbered.

`undergone_values` and `released_append_pending` are the two laws of the first part.  What a fetch
shows to its caller is left to `CimBroker.Proofs.QueuedChanges`; an object that is removed is lost
with its queue, and is not followed any further.
-/
import CimBroker.Proofs.Inputs
import CimBroker.Proofs.StoreChanges

namespace CimBroker.Broker

open CimBroker.Action

/-! ## One object -/

/-- A value and the property that it is for. -/
abbrev Change := String × Variant

/-- What can happen to an object while it is stored. -/
inductive Fate where
  | fetched
  | queued (change : Change)
  /-- The change was made at once. -/
  | set (change : Change)
  deriving DecidableEq

namespace Fate

def queued? : Fate → Option Change
  | queued change => some change
  | _ => none

def set? : Fate → Option Change
  | set change => some change
  | _ => none

/-- The object after it has happened. -/
def on (o : StoredObject) : Fate → StoredObject
  | fetched => StoredObject.advance o
  | queued change => { o with pending := o.pending ++ [change] }
  | set change => { o with values := o.values.set change.1 change.2 }

theorem on_className (o : StoredObject) (fate : Fate) : (fate.on o).className = o.className := by
  cases fate with
  | fetched => exact className_advance o
  | queued change => rfl
  | set change => rfl

end Fate

/-- The object after a row of things has happened to it. -/
def undergone (o : StoredObject) (fates : List Fate) : StoredObject := fates.foldl Fate.on o

theorem undergone_append (o : StoredObject) (fates more : List Fate) :
    undergone o (fates ++ more) = undergone (undergone o fates) more := List.foldl_append

/-- Fetching a number of times applies as many changes. -/
theorem undergone_fetched (o : StoredObject) (n : Nat) :
    undergone o (List.replicate n .fetched) = advanced o n := by
  induction n generalizing o with
  | zero => rfl
  | succ n ih => exact ih (StoredObject.advance o)

theorem advanced_add (o : StoredObject) (m n : Nat) :
    advanced (advanced o m) n = advanced o (m + n) := by
  rw [← undergone_fetched, ← undergone_fetched, ← undergone_fetched, List.replicate_add,
    undergone_append]

/-- A write to the values of an object: a change that comes out of the queue, or one made at
once. -/
inductive Write where
  | released (change : Change)
  | direct (change : Change)
  deriving DecidableEq

namespace Write

def change : Write → Change
  | released change => change
  | direct change => change

def released? : Write → Option Change
  | released change => some change
  | direct _ => none

def direct? : Write → Option Change
  | released _ => none
  | direct change => some change

end Write

/-- The writes that a row of things leads to, in order, if the given changes wait at the start. -/
def writes : List Change → List Fate → List Write
  | _, [] => []
  | [], .fetched :: fates => writes [] fates
  | change :: queue, .fetched :: fates => .released change :: writes queue fates
  | queue, .queued change :: fates => writes (queue ++ [change]) fates
  | queue, .set change :: fates => .direct change :: writes queue fates

/-- Values after a row of writes. -/
def overwritten (values : Table Variant) (ws : List Write) : Table Variant :=
  ws.foldl (fun values w => values.set w.change.1 w.change.2) values

/-- The values are those that were written. -/
theorem undergone_values (o : StoredObject) (fates : List Fate) :
    (undergone o fates).values = overwritten o.values (writes o.pending fates) := by
  induction fates generalizing o with
  | nil => rfl
  | cons fate fates ih =>
    obtain ⟨className, values, pending⟩ := o
    refine (ih _).trans ?_
    cases fate with
    | fetched => cases pending <;> rfl
    | queued change => rfl
    | set change => rfl

/-- **No change is lost, made up or applied twice**: those that came out (`released?`) and those
that wait are, in order, those that waited at the start and those that were queued since
(`queued?`). -/
theorem released_append_pending (o : StoredObject) (fates : List Fate) :
    (writes o.pending fates).filterMap Write.released? ++ (undergone o fates).pending =
      o.pending ++ fates.filterMap Fate.queued? := by
  induction fates generalizing o with
  | nil => exact (List.append_nil _).symm
  | cons fate fates ih =>
    obtain ⟨className, values, pending⟩ := o
    have hrest := ih (fate.on ⟨className, values, pending⟩)
    cases fate with
    | fetched =>
      cases pending with
      | nil => exact hrest
      | cons change queue => exact congrArg (change :: ·) hrest
    | queued change => exact hrest.trans (List.append_assoc _ _ _)
    | set change => exact hrest

/-- What was set at once was written at once. -/
theorem direct_writes (queue : List Change) (fates : List Fate) :
    (writes queue fates).filterMap Write.direct? = fates.filterMap Fate.set? := by
  induction fates generalizing queue with
  | nil => rfl
  | cons fate fates ih =>
    cases fate with
    | fetched =>
      cases queue with
      | nil => exact ih []
      | cons change queue => exact ih queue
    | queued change => exact ih (queue ++ [change])
    | set change => exact congrArg (change :: ·) (ih queue)

/-- Where nothing is fetched the queue only grows. -/
theorem pending_of_unfetched {fates : List Fate} (hfates : Fate.fetched ∉ fates)
    (o : StoredObject) :
    (undergone o fates).pending = o.pending ++ fates.filterMap Fate.queued? := by
  induction fates generalizing o with
  | nil => exact (List.append_nil _).symm
  | cons fate fates ih =>
    obtain ⟨hfate, hrest⟩ := not_or.mp (mt List.mem_cons.mpr hfates)
    refine (ih hrest (fate.on o)).trans ?_
    cases fate with
    | fetched => exact absurd rfl hfate
    | queued change => exact List.append_assoc _ _ _
    | set change => rfl

/-- Where nothing is queued each fetch takes the oldest change. -/
theorem pending_of_unqueued {fates : List Fate} (hfates : fates.filterMap Fate.queued? = [])
    (o : StoredObject) :
    (undergone o fates).pending = o.pending.drop (fates.count .fetched) := by
  induction fates generalizing o with
  | nil => rfl
  | cons fate fates ih =>
    obtain ⟨className, values, pending⟩ := o
    cases fate with
    | fetched =>
      refine (ih hfates _).trans ?_
      rw [List.count_cons_self]
      cases pending with
      | nil => simp [Fate.on, StoredObject.advance]
      | cons change queue => rfl
    | queued change => cases hfates
    | set change =>
      have hother : Fate.set change ≠ .fetched := by
        intro heq
        cases heq
      refine (ih hfates _).trans ?_
      rw [List.count_cons_of_ne hother]
      rfl

/-- **Fetches after queueing.**  If nothing is fetched at first and nothing is queued later, each
fetch has applied one change, in order, as long as there were any. -/
theorem released_by_fetches {first second : List Fate} (hfirst : Fate.fetched ∉ first)
    (hsecond : second.filterMap Fate.queued? = []) (o : StoredObject) :
    let changes := o.pending ++ first.filterMap Fate.queued?
    let n := second.count .fetched
    (writes o.pending (first ++ second)).filterMap Write.released? = changes.take n ∧
      (undergone o (first ++ second)).pending = changes.drop n := by
  intro changes n
  have hpending : (undergone o (first ++ second)).pending = changes.drop n := by
    rw [undergone_append, pending_of_unqueued hsecond, pending_of_unfetched hfirst]
  refine ⟨?_, hpending⟩
  have hall := released_append_pending o (first ++ second)
  rw [hpending, List.filterMap_append, hsecond, List.append_nil] at hall
  exact List.append_cancel_right (hall.trans (List.take_append_drop n changes).symm)

/-! ## A tidy store -/

/-- Classes are known by their names, which are identifiers.  What is stored belongs to a class that
is there, under a path with a number that was given out. -/
structure Tidy (b : Broker) : Prop where
  named : ∀ name c, b.classes.get? name = some c → c.name = name
  identifiers : ∀ name c, b.classes.get? name = some c →
    ∃ identifier : Wql.Identifier, identifier.text = name
  classed : ∀ path o, b.objects.get? path = some o → ∃ c, b.classes.get? o.className = some c
  numbered : ∀ path o, b.objects.get? path = some o →
    ∃ n, path = instancePath o.className n ∧ n ≤ b.lastId

theorem tidy_empty : Tidy .empty :=
  ⟨nofun, nofun, nofun, nofun⟩

namespace Tidy

variable {b : Broker}

/-- What is stored can be called, and no class is named like it. -/
theorem hosts (h : b.Tidy) {path : String} {o : StoredObject}
    (ho : b.objects.get? path = some o) : ∃ c, Hosts path c b := by
  obtain ⟨c, hc⟩ := h.classed path o ho
  obtain ⟨n, hpath, -⟩ := h.numbered path o ho
  have hname := h.named o.className c hc
  rw [← hname] at hc hpath
  exact ⟨c, ⟨o, ho, hname.symm⟩, hc, ⟨n, hpath⟩, h.identifiers⟩

theorem unnamed (h : b.Tidy) {path : String} {o : StoredObject}
    (ho : b.objects.get? path = some o) : b.classes.get? path = none := by
  obtain ⟨c, hhosts⟩ := h.hosts ho
  exact hhosts.unnamed

theorem rooted (h : b.Tidy) : b.Rooted := ⟨h.named, h.classed, h.numbered⟩

/-- Stored things may change in any way, as long as no class is defined. -/
theorem stores (h : b.Tidy) {paths : List String} {b' : Broker} (hstores : Stores paths b b')
    (hclasses : b'.classes = b.classes) : b'.Tidy := by
  obtain ⟨hnamed, hclassed, hnumbered⟩ := h.rooted.stores hstores
  refine ⟨hnamed, ?_, hclassed, hnumbered⟩
  rw [hclasses]
  exact h.identifiers

theorem congr (h : b.Tidy) {b' : Broker} (hsame : holdings b' = holdings b) : b'.Tidy :=
  h.stores (.same hsame) (classes_of_holdings hsame)

theorem define (h : b.Tidy) {c : ClassDef}
    (hc : ∃ identifier : Wql.Identifier, identifier.text = c.name) :
    Tidy { b with classes := b.classes.set c.name c } := by
  obtain ⟨hnamed, hclassed, hnumbered⟩ := h.rooted.define c
  refine ⟨hnamed, fun name c' hc' => ?_, hclassed, hnumbered⟩
  rw [Table.get?_set] at hc'
  split at hc'
  · rename_i hname
    exact hname ▸ hc
  · exact h.identifiers name c' hc'

/-- The path of the next object is not in use, whatever its class. -/
theorem fresh (h : b.Tidy) {path : String} {o : StoredObject}
    (ho : b.objects.get? path = some o) (className : String) :
    instancePath className (b.lastId + 1) ≠ path := by
  rintro rfl
  cases ho.symm.trans (h.rooted.fresh className)

end Tidy

/-! ## What deeds let happen to an object -/

/-- A class that is defined has an identifier for a name. -/
def Deed.NamesClass : Deed → Prop
  | request (.defineClass c) => ∃ identifier : Wql.Identifier, identifier.text = c.name
  | _ => True

/-- What a request lets happen to the object at a path: it is fetched as often as its path is
hit. -/
def Request.fates (b : Broker) (path : String) : Request → List Fate
  | schedule other name v => if other = path then [.queued (name, v)] else []
  | setProperty other name v =>
    if other = path ∧ ((Broker.setProperty other name v).run b).1.isOk = true then [.set (name, v)]
    else []
  | r => List.replicate ((r.hits b).count path) .fetched

def Deed.fates (b : Broker) (path : String) : Deed → List Fate
  | request r => r.fates b path
  | _ => []

/-- What a row of deeds lets happen to the object at a path. -/
def fates (path : String) : Broker → List Deed → List Fate
  | _, [] => []
  | b, d :: deeds => d.fates b path ++ fates path (d.after b) deeds

/-- The store is tidy, and what was stored at the path still is, after what has happened to it. -/
structure Passes (path : String) (fates : List Fate) (b b' : Broker) : Prop where
  tidy : b'.Tidy
  stored : ∀ o, b.objects.get? path = some o → b'.objects.get? path = some (undergone o fates)

section Passing

variable {path : String} {fates : List Fate} {b b' b'' : Broker}

theorem Tidy.passes_refl (h : b.Tidy) (path : String) : Passes path [] b b := ⟨h, fun _ ho => ho⟩

theorem Passes.trans (h : Passes path fates b b') {more : List Fate}
    (h' : Passes path more b' b'') : Passes path (fates ++ more) b b'' := by
  refine ⟨h'.tidy, fun o ho => ?_⟩
  rw [undergone_append]
  exact h'.stored _ (h.stored o ho)

theorem Passes.congr (h : Passes path fates b b') (hsame : holdings b'' = holdings b') :
    Passes path fates b b'' := by
  refine ⟨h.tidy.congr hsame, fun o ho => ?_⟩
  rw [objects_of_holdings hsame]
  exact h.stored o ho

/-- Something happens to the object at one path, and to no other. -/
theorem Tidy.passes_fate (h : b.Tidy) {other : String} {o : StoredObject}
    (ho : b.objects.get? other = some o) (fate : Fate) (path : String) :
    Passes path (if other = path then [fate] else []) b
      { b with objects := b.objects.set other (fate.on o) } := by
  refine ⟨h.stores (.replace ho (fate.on_className o)) rfl, fun o' ho' => ?_⟩
  show (b.objects.set other (fate.on o)).get? path = _
  rw [Table.get?_set]
  split
  · rename_i hpath
    subst hpath
    obtain rfl := Option.some.inj (ho.symm.trans ho')
    rfl
  · exact ho'

/-- A stored object is found, and it is an instance of a class that is there. -/
theorem Snapshot.of_stored {other : String} {outcome : Except Error (Option Handle)}
    (hs : Snapshot other b outcome b') (h : b.Tidy) {o : StoredObject}
    (ho : b.objects.get? other = some o) :
    ∃ c, b.classes.get? o.className = some c ∧ outcome = .ok (some ⟨b.live.size⟩) ∧
      b' = { b with
        objects := b.objects.set other (StoredObject.advance o)
        live := b.live.push ⟨c, some other, false, o.values⟩ } := by
  cases hs with
  | definition hc => cases (h.unnamed ho).symm.trans hc
  | nothing hpath hnone => cases ho.symm.trans hnone
  | found hpath ho' hc =>
    obtain rfl := Option.some.inj (ho.symm.trans ho')
    exact ⟨_, hc, rfl, rfl⟩
  | orphan hpath ho' hc =>
    obtain ⟨c, hc'⟩ := h.classed _ _ ho'
    cases hc.symm.trans hc'

theorem Snapshot.passes {other : String} {outcome : Except Error (Option Handle)}
    (hs : Snapshot other b outcome b') (h : b.Tidy) (path : String) :
    Passes path (List.replicate ([other].count path) .fetched) b b' := by
  have hfates : List.replicate ([other].count path) Fate.fetched =
      if other = path then [.fetched] else [] := by
    by_cases hother : other = path <;> simp [hother]
  rw [hfates]
  cases ho : b.objects.get? other with
  | some o =>
    obtain ⟨c, -, -, rfl⟩ := hs.of_stored h ho
    exact (h.passes_fate ho .fetched path).congr rfl
  | none =>
    -- what is not stored is not touched
    have hsame : holdings b' = holdings b := by
      cases hs with
      | definition hc => rfl
      | nothing hpath hnone => rfl
      | found hpath ho' hc => cases ho.symm.trans ho'
      | orphan hpath ho' hc => cases ho.symm.trans ho'
    refine ⟨h.congr hsame, fun o ho' => ?_⟩
    have hne : other ≠ path := by
      rintro rfl
      cases ho.symm.trans ho'
    rw [if_neg hne]
    exact ((h.passes_refl path).congr hsame).stored o ho'

/-- Fetching in turn lets an object be fetched as often as its path comes. -/
theorem Snapshots.passes {paths : List String} {outcome : Except Error (List Handle)}
    (hs : Snapshots paths b outcome b') (h : b.Tidy) (path : String) :
    Passes path (List.replicate (paths.count path) .fetched) b b' := by
  have hcount (other : String) (rest : List String) :
      List.replicate ((other :: rest).count path) Fate.fetched =
        List.replicate ([other].count path) .fetched ++
          List.replicate (rest.count path) .fetched := by
    rw [← List.replicate_add, ← List.count_append]
    rfl
  induction hs with
  | done b => exact h.passes_refl path
  | found hfound _ ih =>
    have hfirst := hfound.passes h path
    rw [hcount]
    exact hfirst.trans (ih hfirst.tidy)
  | nothing hnothing _ ih =>
    have hfirst := hnothing.passes h path
    rw [hcount]
    exact hfirst.trans (ih hfirst.tidy)
  | failed paths hfailed =>
    cases hfailed with
    | orphan hpath ho hc =>
      obtain ⟨c, hc'⟩ := h.classed _ _ ho
      cases hc.symm.trans hc'

theorem Tidy.passes_insert (h : b.Tidy) (className : String) (values : List (String × Variant))
    (path : String) : Passes path [] b (Request.after b (.insert className values)) := by
  show Passes path [] b ((Broker.insert className values).run b).2
  rcases insert_cases className values b with ⟨e, hrun⟩ | ⟨c, stored, hc, -, hrun⟩
  · rw [hrun]
    exact h.passes_refl path
  · rw [hrun]
    refine ⟨h.stores (.insert hc stored) rfl, fun o ho => ?_⟩
    show (b.objects.set _ _).get? path = _
    rw [Table.get?_set, if_neg (h.fresh ho c.name)]
    exact ho

theorem Tidy.passes_schedule (h : b.Tidy) (other name : String) (v : Variant) (path : String) :
    Passes path (if other = path then [.queued (name, v)] else []) b
      (Request.after b (.schedule other name v)) := by
  show Passes path _ b ((schedule other name v).run b).2
  rcases schedule_cases other name v b with ⟨e, hrun, hnone⟩ | ⟨o, ho, hrun⟩
  · rw [hrun]
    refine ⟨h, fun o ho => ?_⟩
    have hne : other ≠ path := by
      rintro rfl
      cases ho.symm.trans hnone
    rw [if_neg hne]
    exact ho
  · rw [hrun]
    exact h.passes_fate ho (.queued (name, v)) path

theorem Tidy.passes_setProperty (h : b.Tidy) (other name : String) (v : Variant) (path : String) :
    Passes path (Request.fates b path (.setProperty other name v)) b
      (Request.after b (.setProperty other name v)) := by
  show Passes path (if other = path ∧ ((setProperty other name v).run b).1.isOk = true then
    [.set (name, v)] else []) b ((setProperty other name v).run b).2
  rcases setProperty_cases other name v b with ⟨e, hrun⟩ | ⟨o, ho, hrun⟩
  · rw [hrun, if_neg fun hok => Bool.noConfusion hok.2]
    exact h.passes_refl path
  · have hset : Passes path (if other = path then [.set (name, v)] else []) b
        { b with objects := b.objects.set other { o with values := o.values.set name v } } :=
      h.passes_fate ho (.set (name, v)) path
    rw [hrun]
    simpa [Except.isOk, Except.toBool] using hset

/-- What storing a job consists of lets nothing happen to what was stored before. -/
theorem Passes.job (h : Passes path [] b b') (hb : b.Tidy) {d : Deed} (hd : JobDeed b d) :
    Passes path [] b (d.after b') := by
  cases hd with
  | define =>
    have hname : ∃ identifier : Wql.Identifier, identifier.text = (ClassDef.job jobClass).name :=
      ⟨⟨jobClass, by decide, by decide⟩, rfl⟩
    exact ⟨h.tidy.define hname, h.stored⟩
  | insert => exact h.trans (h.tidy.passes_insert jobClass _ path)
  | queue className n =>
    have hqueue := h.tidy.passes_schedule (instancePath className (b.lastId + 1)) "JobState"
      (.int32 n) path
    refine ⟨hqueue.tidy, fun o ho => ?_⟩
    rw [if_neg (hb.fresh ho className)] at hqueue
    exact hqueue.stored o (h.stored o ho)

theorem Tidy.passes_insertJob (h : b.Tidy) (states : List (BitVec 16)) (code : BitVec 16)
    (description path : String) :
    Passes path [] b (Request.after b (.insertJob states code description)) := by
  obtain ⟨deeds, hdeeds, hall⟩ := insertJob_course states code description b
  rw [hdeeds]
  exact course_keeps (I := Passes path [] b) (fun d hd now hnow => hnow.job h (hall d hd))
    (h.passes_refl path)

theorem Tidy.passes_fetch (h : b.Tidy) {r : Request} (hr : r.IsFetch) (path : String) :
    Passes path (List.replicate ((r.hits b).count path) .fetched) b (r.after b) := by
  obtain ⟨b₁, outcome, b₂, hbefore, hsnapshots, hafter⟩ := hr.snapshots b
  have hfirst := (h.passes_refl path).congr hbefore.holdings
  exact (hfirst.trans (hsnapshots.passes hfirst.tidy path)).congr hafter.holdings

/-- **One deed** lets happen to an object what it is said to (`Deed.fates`), and nothing else,
unless it removes the object. -/
theorem Tidy.passes (h : b.Tidy) {d : Deed} (hname : d.NamesClass) {path : String}
    (hstays : d ≠ .request (.remove path)) : Passes path (d.fates b path) b (d.after b) := by
  have hquiet (hd : d.IsQuiet) : Passes path [] b (d.after b) :=
    (h.passes_refl path).congr (hd.adds b).holdings
  cases d with
  | call other method => exact hquiet trivial
  | outputs m results => exact hquiet trivial
  | request r =>
    cases r with
    | defineClass c => exact ⟨h.define hname, fun _ ho => ho⟩
    | insert className values => exact h.passes_insert className values path
    | insertJob states code description => exact h.passes_insertJob states code description path
    | schedule other name v => exact h.passes_schedule other name v path
    | setProperty other name v => exact h.passes_setProperty other name v path
    | remove other =>
      have hne : other ≠ path := by
        rintro rfl
        exact hstays rfl
      refine ⟨h.stores (.erase b other) rfl, fun o ho => ?_⟩
      show (b.objects.erase other).get? path = _
      rw [Table.get?_erase, if_neg hne]
      exact ho
    | object other => exact h.passes_fetch (r := .object other) trivial path
    | fetch other => exact h.passes_fetch (r := .fetch other) trivial path
    | query wql => exact h.passes_fetch (r := .query wql) trivial path
    | enumerate className => exact h.passes_fetch (r := .enumerate className) trivial path
    | put handle name v =>
      exact (h.passes_refl path).congr (congrArg Prod.fst (keeping_ledger.put handle name v b))
    | _ => exact hquiet trivial

/-- Every deed leaves the store tidy. -/
theorem Tidy.after (h : b.Tidy) {d : Deed} (hname : d.NamesClass) : (d.after b).Tidy := by
  by_cases hremoves : ∃ path, d = .request (.remove path)
  · obtain ⟨path, rfl⟩ := hremoves
    exact h.stores (.erase b path) rfl
  · exact (h.passes hname fun heq => hremoves ⟨"", heq⟩).tidy

theorem tidy_course (h : b.Tidy) {deeds : List Deed} (hnames : ∀ d ∈ deeds, d.NamesClass) :
    (course b deeds).Tidy :=
  course_keeps (fun d hd _ hb => hb.after (hnames d hd)) h

/-- **A run** (`course`) lets happen to an object what its deeds let happen to it (`fates`), in
their order, as long as none of them removes the object. -/
theorem Tidy.passes_course (h : b.Tidy) {path : String} {deeds : List Deed}
    (hnames : ∀ d ∈ deeds, d.NamesClass) (hstays : ∀ d ∈ deeds, d ≠ .request (.remove path)) :
    Passes path (Broker.fates path b deeds) b (course b deeds) := by
  induction deeds generalizing b with
  | nil => exact h.passes_refl path
  | cons d deeds ih =>
    obtain ⟨hname, hnamesRest⟩ := List.forall_mem_cons.mp hnames
    obtain ⟨hstay, hstaysRest⟩ := List.forall_mem_cons.mp hstays
    have hfirst := h.passes hname hstay
    exact hfirst.trans (ih hfirst.tidy hnamesRest hstaysRest)

theorem fates_append (path : String) (b : Broker) (deeds more : List Deed) :
    Broker.fates path b (deeds ++ more) =
      Broker.fates path b deeds ++ Broker.fates path (course b deeds) more := by
  induction deeds generalizing b with
  | nil => rfl
  | cons d deeds ih =>
    show d.fates b path ++ Broker.fates path (d.after b) (deeds ++ more) = _
    rw [ih, ← List.append_assoc]
    rfl

end Passing

end CimBroker.Broker
