/-
# CimBroker.Proofs.UnsetValues — values that are nothing and values that were never set

A property without a value shows as nothing, and so does one that was set to nothing.  Two brokers
are compared here that differ in this only: what one of them stores as nothing, the other may not
store at all (`Broker.UpToNulls`).  Every handle shows the same in both.

Whatever is looked up, both go on to show the same once the same paths are found, and they are alike
again afterwards (`Broker.Lookup.agrees`), so this also holds for lookups in a row.  Class
enumerations, fetches and queries for related objects find the same paths.  A selection need not: a
value that is nothing has the empty text, and a missing value has no text at all.  So an object can
be told apart by a filter that wants the empty text (`StoredObject.TellsApart`), and
`Broker.null_is_unset_iff` says that this is the only way.

`nameless_widgets_look_alike` and `filter_tells_null_from_unset` show the two sides.  Writing is
left out: the brokers compared are looked at, and what is stored or set later is the same for both.
-/
import CimBroker.Proofs.SelectedObjects
import CimBroker.Proofs.SideBySide

namespace CimBroker

/-! ## Values -/

/-- Under every name the tables show the same: what is stored as nothing in one of them may be
missing in the other. -/
def Table.UpToNulls (t t' : Table Variant) : Prop :=
  ∀ name, (t.get? name).getD .null = (t'.get? name).getD .null

namespace Table.UpToNulls

variable {t t' : Table Variant}

theorem refl (t : Table Variant) : t.UpToNulls t := fun _ => rfl

/-- Under a name, the tables store the same or only one of them stores something, and that is
nothing. -/
theorem stored (h : t.UpToNulls t') (name : String) :
    t.get? name = t'.get? name ∨ t.get? name = some .null ∧ t'.get? name = none ∨
      t.get? name = none ∧ t'.get? name = some .null := by
  have hname := h name
  cases hv : t.get? name with
  | none =>
    cases hv' : t'.get? name with
    | none => exact .inl rfl
    | some v' =>
      rw [hv, hv'] at hname
      simp at hname
      exact .inr (.inr ⟨rfl, by rw [hname]⟩)
  | some v =>
    cases hv' : t'.get? name with
    | none =>
      rw [hv, hv'] at hname
      simp at hname
      exact .inr (.inl ⟨by rw [hname], rfl⟩)
    | some v' =>
      rw [hv, hv'] at hname
      simp at hname
      exact .inl (by rw [hname])

theorem set (h : t.UpToNulls t') (name : String) (v : Variant) :
    (t.set name v).UpToNulls (t'.set name v) := by
  intro other
  rw [Table.get?_set, Table.get?_set]
  by_cases heq : name = other
  · simp [heq]
  · simp [heq, h other]

end Table.UpToNulls

/-- The objects are of one class, have the same changes to come, and show the same. -/
structure StoredObject.UpToNulls (o o' : StoredObject) : Prop where
  className : o'.className = o.className
  values : o.values.UpToNulls o'.values
  pending : o'.pending = o.pending

/-- The handles stand for the same, and show the same. -/
structure LiveObject.UpToNulls (o o' : LiveObject) : Prop where
  definition : o'.definition = o.definition
  path : o'.path = o.path
  isClass : o'.isClass = o.isClass
  values : o.values.UpToNulls o'.values

/-- Every property shows the same. -/
theorem LiveObject.UpToNulls.bag {o o' : LiveObject} (h : o.UpToNulls o') : o'.bag = o.bag := by
  have hvalue : o'.value = o.value := funext fun name => (h.values name).symm
  unfold LiveObject.bag
  rw [h.definition, h.path, hvalue]

namespace StoredObject

variable {o o' : StoredObject}

theorem UpToNulls.advance (h : o.UpToNulls o') :
    (Broker.StoredObject.advance o).UpToNulls (Broker.StoredObject.advance o') := by
  unfold Broker.StoredObject.advance
  rw [h.pending]
  cases o.pending with
  | nil => exact h
  | cons change rest => exact ⟨h.className, h.values.set _ _, rfl⟩

theorem UpToNulls.isOf (h : o.UpToNulls o') (className : String) :
    o'.isOf className = o.isOf className := by
  unfold StoredObject.isOf
  rw [h.className]

/-- A reference that is nothing refers to as little as one that is missing. -/
theorem UpToNulls.refersTo (h : o.UpToNulls o') (c : ClassDef) (path : String) :
    Broker.refersTo c path o' = Broker.refersTo c path o := by
  have hholds (name : String) :
      (o'.values.get? name).bind Variant.text? = (o.values.get? name).bind Variant.text? := by
    rcases h.values.stored name with hsame | ⟨hnull, hunset⟩ | ⟨hunset, hnull⟩
    · rw [hsame]
    · rw [hnull, hunset]
      rfl
    · rw [hnull, hunset]
      rfl
  unfold Broker.refersTo
  simp only [hholds]

/-! ## Filters -/

/-- Filters tell two objects apart: after filters that both show, there is one for the empty text
where one object stores nothing and the other does not store anything, and what is left of the
filters does not speak against the first. -/
inductive TellsApart (o o' : StoredObject) : List (String × String) → Prop
  | later {filter : String × String} {filters : List (String × String)} (h : o.Shows filter)
      (h' : o'.Shows filter) (hrest : TellsApart o o' filters) :
      TellsApart o o' (filter :: filters)
  | first {name : String} {filters : List (String × String)}
      (hnull : o.values.get? name = some .null) (hunset : o'.values.get? name = none)
      (hopen : o.meets filters ≠ .ok false) : TellsApart o o' ((name, "") :: filters)
  | second {name : String} {filters : List (String × String)}
      (hunset : o.values.get? name = none) (hnull : o'.values.get? name = some .null)
      (hopen : o'.meets filters ≠ .ok false) : TellsApart o o' ((name, "") :: filters)

/-- A filter under whose name there is nothing is decided by the empty text. -/
theorem meets_cons_of_null {name wanted : String} {filters : List (String × String)}
    (hnull : o.values.get? name = some .null) :
    o.meets ((name, wanted) :: filters) = if "" = wanted then o.meets filters else .ok false := by
  rw [meets, hnull]
  rfl

theorem meets_cons_of_unset {name wanted : String} {filters : List (String × String)}
    (hunset : o.values.get? name = none) : o.meets ((name, wanted) :: filters) = .ok false := by
  rw [meets, hunset]

theorem not_shows_of_unset {name wanted : String} (hunset : o.values.get? name = none) :
    ¬ o.Shows (name, wanted) := by
  rintro ⟨v, hv, -⟩
  rw [hunset] at hv
  cases hv

/-- Only a filter for the empty text can tell objects apart. -/
theorem TellsApart.wants_empty {filters : List (String × String)}
    (h : TellsApart o o' filters) : ∃ name, (name, "") ∈ filters := by
  induction h with
  | later _ _ _ ih =>
    obtain ⟨name, hname⟩ := ih
    exact ⟨name, List.mem_cons_of_mem _ hname⟩
  | first => exact ⟨_, List.mem_cons_self⟩
  | second => exact ⟨_, List.mem_cons_self⟩

theorem TellsApart.symm {filters : List (String × String)} (h : TellsApart o o' filters) :
    TellsApart o' o filters := by
  induction h with
  | later h h' _ ih => exact .later h' h ih
  | first hnull hunset hopen => exact .second hunset hnull hopen
  | second hunset hnull hopen => exact .first hnull hunset hopen

/-- Where the first object stores nothing and the second does not store anything, the rest of the
filters decides. -/
theorem meets_eq_iff_of_null {name wanted : String} {filters : List (String × String)}
    (hnull : o.values.get? name = some .null) (hunset : o'.values.get? name = none) :
    o.meets ((name, wanted) :: filters) = o'.meets ((name, wanted) :: filters) ↔
      ¬ TellsApart o o' ((name, wanted) :: filters) := by
  rw [meets_cons_of_null hnull, meets_cons_of_unset hunset]
  by_cases hwanted : "" = wanted
  · subst hwanted
    rw [if_pos rfl]
    constructor
    · intro hagainst htells
      cases htells with
      | later _ hshows' => exact not_shows_of_unset hunset hshows'
      | first _ _ hopen => exact hopen hagainst
      | second hunset' => simp [hnull] at hunset'
    · intro hnot
      by_contra hopen
      exact hnot (.first hnull hunset hopen)
  · rw [if_neg hwanted]
    refine iff_of_true rfl fun htells => ?_
    cases htells with
    | later _ hshows' => exact not_shows_of_unset hunset hshows'
    | first => exact hwanted rfl
    | second => exact hwanted rfl

/-- Where both objects store the same, it decides, and if both show the filter, the rest does. -/
theorem meets_eq_iff_of_same {name wanted : String} {filters : List (String × String)}
    (hsame : o.values.get? name = o'.values.get? name)
    (hrest : o.meets filters = o'.meets filters ↔ ¬ TellsApart o o' filters) :
    o.meets ((name, wanted) :: filters) = o'.meets ((name, wanted) :: filters) ↔
      ¬ TellsApart o o' ((name, wanted) :: filters) := by
  by_cases hshows : o.Shows (name, wanted)
  · have hshows' : o'.Shows (name, wanted) := by
      obtain ⟨v, hv, htext⟩ := hshows
      exact ⟨v, hsame ▸ hv, htext⟩
    rw [meets_cons_of_shows hshows, meets_cons_of_shows hshows', hrest, not_iff_not]
    constructor
    · intro htells
      exact .later hshows hshows' htells
    · intro htells
      cases htells with
      | later _ _ htells => exact htells
      | first hnull hunset => simp [hnull, hunset] at hsame
      | second hunset hnull => simp [hnull, hunset] at hsame
  · have hdecided : o.meets ((name, wanted) :: filters) =
        o'.meets ((name, wanted) :: filters) := by
      rw [meets, meets, ← hsame]
      cases hv : o.values.get? name with
      | none => rfl
      | some v =>
        dsimp only
        cases htext : AtomType.decodeText v with
        | error e => rfl
        | ok text =>
          have hne : text ≠ wanted := by
            rintro rfl
            exact hshows ⟨v, hv, htext⟩
          simp [hne]
    refine iff_of_true hdecided fun htells => ?_
    cases htells with
    | later hshows' => exact hshows hshows'
    | first hnull hunset => simp [hnull, hunset] at hsame
    | second hunset hnull => simp [hnull, hunset] at hsame

/-- **Filters are decided alike** exactly on objects that they do not tell apart. -/
theorem meets_eq_iff (h : o.UpToNulls o') (filters : List (String × String)) :
    o.meets filters = o'.meets filters ↔ ¬ TellsApart o o' filters := by
  induction filters with
  | nil => exact iff_of_true rfl nofun
  | cons filter filters ih =>
    rcases h.values.stored filter.1 with hsame | ⟨hnull, hunset⟩ | ⟨hunset, hnull⟩
    · exact meets_eq_iff_of_same hsame ih
    · exact meets_eq_iff_of_null hnull hunset
    · rw [eq_comm]
      exact (meets_eq_iff_of_null hnull hunset).trans (not_congr ⟨.symm, .symm⟩)

end StoredObject

/-! ## Brokers -/

/-- The tables have the same names, and under each of them related values. -/
def Table.Related {α : Type} (R : α → α → Prop) (t t' : Table α) : Prop :=
  List.Forall₂ (fun entry entry' => entry.1 = entry'.1 ∧ R entry.2 entry'.2) t.entries t'.entries

namespace Table.Related

variable {α : Type} {R : α → α → Prop} {t t' : Table α}

theorem get? (h : t.Related R t') (name : String) :
    Option.Rel R (t.get? name) (t'.get? name) := by
  obtain ⟨entries⟩ := t
  obtain ⟨entries'⟩ := t'
  change List.Forall₂ _ entries entries' at h
  show Option.Rel R (lookup? name entries) (lookup? name entries')
  induction h with
  | nil => exact .none
  | @cons entry entry' _ _ hentry _ ih =>
    obtain ⟨key, x⟩ := entry
    obtain ⟨key', x'⟩ := entry'
    obtain ⟨rfl, hx⟩ := hentry
    rw [lookup?, lookup?]
    split
    · exact .some hx
    · exact ih

theorem set (h : t.Related R t') (name : String) {x x' : α} (hx : R x x') :
    (t.set name x).Related R (t'.set name x') := by
  obtain ⟨entries⟩ := t
  obtain ⟨entries'⟩ := t'
  change List.Forall₂ _ entries entries' at h
  show List.Forall₂ _ (place name x entries) (place name x' entries')
  induction h with
  | nil => exact .cons ⟨rfl, hx⟩ .nil
  | @cons entry entry' _ _ hentry hrest ih =>
    obtain ⟨key, y⟩ := entry
    obtain ⟨key', y'⟩ := entry'
    obtain ⟨rfl, hy⟩ := hentry
    rw [place, place]
    split
    · exact .cons ⟨rfl, hx⟩ hrest
    · split
      · exact .cons ⟨rfl, hx⟩ (.cons ⟨rfl, hy⟩ hrest)
      · exact .cons ⟨rfl, hy⟩ ih

end Table.Related

namespace Broker

open CimBroker.Action

/-- The brokers differ in nothing but that some values are stored as nothing in one of them and not
stored in the other. -/
structure UpToNulls (b b' : Broker) : Prop where
  classes : b'.classes = b.classes
  objects : b.objects.Related StoredObject.UpToNulls b'.objects
  associations : b'.associations = b.associations
  credentials : b'.credentials = b.credentials
  lastId : b'.lastId = b.lastId
  trail : b'.trail = b.trail
  size : b'.live.size = b.live.size
  live : ∀ i : Nat, Option.Rel LiveObject.UpToNulls b.live[i]? b'.live[i]?
  cursors : b'.cursors = b.cursors

/-- From brokers that are alike but for values that are nothing, the action yields the same, and
leads to brokers that are again alike. -/
abbrev Blind {α : Type} (action : Action Broker α) : Prop :=
  Parallel UpToNulls action.run action.run

variable {b b' : Broker}

namespace UpToNulls

theorem note (h : b.UpToNulls b') (call : Call) :
    UpToNulls { b with trail := call :: b.trail } { b' with trail := call :: b'.trail } :=
  { h with trail := congrArg (call :: ·) h.trail }

theorem bring (h : b.UpToNulls b') {o o' : LiveObject} (ho : o.UpToNulls o') :
    UpToNulls { b with live := b.live.push o } { b' with live := b'.live.push o' } := by
  refine { h with size := ?_, live := fun i => ?_ }
  · simp [h.size]
  · show Option.Rel _ (b.live.push o)[i]? (b'.live.push o')[i]?
    rw [Array.getElem?_push, Array.getElem?_push, h.size]
    split
    · exact .some ho
    · exact h.live i

theorem advance (h : b.UpToNulls b') (path : String) {o o' : StoredObject} (ho : o.UpToNulls o') :
    UpToNulls { b with objects := b.objects.set path (StoredObject.advance o) }
      { b' with objects := b'.objects.set path (StoredObject.advance o') } :=
  { h with objects := h.objects.set path ho.advance }

theorem instancesOf (h : b.UpToNulls b') (className : String) :
    List.Forall₂ (fun entry entry' => entry.1 = entry'.1 ∧ entry.2.UpToNulls entry'.2)
      (b.instancesOf className) (b'.instancesOf className) := by
  have hobjects := h.objects
  unfold Table.Related at hobjects
  unfold Broker.instancesOf
  generalize b.objects.entries = entries at hobjects ⊢
  generalize b'.objects.entries = entries' at hobjects ⊢
  induction hobjects with
  | nil => exact .nil
  | @cons entry entry' _ _ hentry _ ih =>
    rw [List.filter_cons, List.filter_cons, hentry.2.isOf]
    split
    · exact .cons hentry ih
    · exact ih

end UpToNulls

theorem parallel_bring {o o' : LiveObject} (ho : o.UpToNulls o') :
    Parallel UpToNulls (bring o).run (bring o').run := by
  intro b b' h
  refine ⟨?_, h.bring ho⟩
  show Except.ok (⟨b.live.size⟩ : Handle) = .ok ⟨b'.live.size⟩
  rw [h.size]

theorem blind_classNamed (name : String) : Blind (classNamed name) := by
  intro b b' h
  have hrun (b : Broker) : (classNamed name).run b =
      (require (.notFound ("class " ++ name)) (b.classes.get? name)).run b := rfl
  rw [hrun, hrun, h.classes]
  exact Parallel.require _ _ b b' h

/-- **A fetch does not see the difference.** -/
theorem blind_snapshot (path : String) : Blind (snapshot path) := by
  intro b b' h
  have hobject := h.objects.get? path
  unfold snapshot
  simp only [run_bind, state, run_ofRun, h.classes]
  cases b.classes.get? path with
  | some c =>
    refine Parallel.bind (parallel_bring ?_) (fun found => Parallel.pure (some found)) b b' h
    exact ⟨rfl, rfl, rfl, .refl _⟩
  | none =>
    simp only [run_bind, run_ofRun]
    generalize b.objects.get? path = found at hobject ⊢
    generalize b'.objects.get? path = found' at hobject ⊢
    cases hobject with
    | none => exact ⟨rfl, h⟩
    | @some o o' ho =>
      -- both undergo the same change, and their class is looked up then
      have hadvanced := h.advance path ho
      have hclassName := ho.className
      dsimp only
      rw [hclassName]
      refine Parallel.bind (blind_classNamed o.className) (fun c => ?_) _ _ hadvanced
      refine Parallel.bind (parallel_bring ?_) fun found => Parallel.pure (some found)
      exact ⟨rfl, rfl, rfl, ho.values⟩

theorem blind_fetchAll (paths : List String) : Blind (fetchAll paths) := by
  induction paths with
  | nil => exact Parallel.pure []
  | cons path paths ih =>
    refine Parallel.bind (blind_snapshot path) fun found => ?_
    cases found with
    | none => exact ih
    | some first => exact Parallel.bind ih fun rest => Parallel.pure (first :: rest)

theorem blind_properties (handle : Handle) : Blind (properties handle) := by
  intro b b' h
  have hobject := h.live handle.id
  unfold properties liveObject
  simp only [run_bind, state, run_ofRun]
  generalize b.live[handle.id]? = found at hobject ⊢
  generalize b'.live[handle.id]? = found' at hobject ⊢
  cases hobject with
  | none => exact ⟨rfl, h⟩
  | some ho => exact ⟨congrArg Except.ok ho.bag.symm, h⟩

theorem blind_mapM {α β : Type} {f : α → Action Broker β} {xs : List α}
    (h : ∀ x ∈ xs, Blind (f x)) : Blind (xs.mapM f) := by
  induction xs with
  | nil => exact Parallel.pure []
  | cons x xs ih =>
    obtain ⟨hx, hxs⟩ := List.forall_mem_cons.mp h
    rw [List.mapM_cons]
    refine Parallel.bind hx fun y => ?_
    exact Parallel.bind (ih hxs) fun ys => Parallel.pure (y :: ys)

/-! ## Lookups -/

/-- The ways to look something up. -/
inductive Lookup where
  | query (wql : String)
  | enumerate (className : String)
  | fetch (path : String)

namespace Lookup

/-- How a lookup is written down. -/
def call : Lookup → Call
  | query wql => .query wql
  | enumerate className => .enumerate className
  | fetch path => .fetch path

/-- The paths that a lookup finds, before anything is fetched. -/
def paths (b : Broker) : Lookup → Except Error (List String)
  | query wql => (Wql.Query.parse wql).bind fun q => ((answer q).run b).1
  | enumerate className => ((classNamed className).run b).1.map fun _ =>
      (b.instancesOf className).map Prod.fst
  | fetch path => .ok [path]

/-- Every property of everything behind a cursor. -/
def behind (cursor : Cursor) : Action Broker (List PropertyBag) := do
  ((← state).cursorRest cursor).mapM properties

/-- What a lookup shows: everything found, with its path and all its values. -/
def shown : Lookup → Action Broker (List PropertyBag)
  | query wql => do behind (← runQuery wql)
  | enumerate className => do behind (← runEnumeration className)
  | fetch path => do
    match ← Broker.fetch path with
    | some found => return [← properties found]
    | none => return []

/-- What a lookup shows of the paths that it found. -/
def follow : Lookup → List String → Action Broker (List PropertyBag)
  | fetch _, paths => do (← fetchAll paths).mapM properties
  | _, paths => do behind (← openCursor (← fetchAll paths))

/-- A lookup is written down, and then it finds its paths and follows them. -/
theorem run_shown (l : Lookup) (b : Broker) :
    l.shown.run b = (Action.ofExcept (l.paths b) >>= l.follow).run
      { b with trail := l.call :: b.trail } := by
  have hnote (call : Call) : (note call).run b = (.ok (), { b with trail := call :: b.trail }) :=
    rfl
  cases l with
  | query wql =>
    have hshown : shown (.query wql) = note (.query wql) >>= fun _ =>
        Action.ofExcept (Wql.Query.parse wql) >>= fun q => answer q >>= follow (.query wql) := by
      simp only [shown, runQuery, bind_assoc]
      rfl
    rw [hshown, run_bind_of_ok (hnote _), paths, run_bind, run_bind, run_ofExcept, run_ofExcept]
    cases Wql.Query.parse wql with
    | error e => rfl
    | ok q =>
      show (answer q >>= _).run _ = _
      rw [run_bind, run_answer]
      rfl
  | enumerate className =>
    have hshown : shown (.enumerate className) = note (.enumerate className) >>= fun _ =>
        classNamed className >>= fun _ => state >>= fun b =>
          follow (.enumerate className) ((b.instancesOf className).map Prod.fst) := by
      simp only [shown, runEnumeration, bind_assoc]
      rfl
    have hclass (b : Broker) : (classNamed className).run b =
        (require (.notFound ("class " ++ className)) (b.classes.get? className)).run b := rfl
    rw [hshown, run_bind_of_ok (hnote _), paths, run_bind, run_bind, run_ofExcept, hclass, hclass]
    dsimp only
    cases b.classes.get? className <;> rfl
  | fetch path =>
    have hshown : shown (.fetch path) =
        note (.fetch path) >>= fun _ => snapshot path >>= fun found =>
        match found with
        | some found => properties found >>= fun bag => pure [bag]
        | none => pure [] := by
      simp only [shown, Broker.fetch, bind_assoc]
    have hfollow : follow (.fetch path) [path] = snapshot path >>= fun found =>
        match found with
        | some found => properties found >>= fun bag => pure [bag]
        | none => pure [] := by
      simp only [follow, fetchAll, bind_assoc]
      refine congrArg _ (funext fun found => ?_)
      cases found <;> simp
    rw [hshown, run_bind_of_ok (hnote _), paths]
    show _ = (follow (.fetch path) [path]).run _
    rw [hfollow]
    rfl

theorem blind_openCursor (results : List Handle) : Blind (openCursor results) := by
  intro b b' h
  refine ⟨?_, { h with cursors := congrArg (Array.push · results) h.cursors }⟩
  show Except.ok (⟨b.cursors.size⟩ : Cursor) = .ok ⟨b'.cursors.size⟩
  rw [h.cursors]

theorem blind_behind (cursor : Cursor) : Blind (behind cursor) := by
  intro b b' h
  have hrest : b'.cursorRest cursor = b.cursorRest cursor := by
    unfold cursorRest
    rw [h.cursors]
  have hbags : Blind ((b.cursorRest cursor).mapM properties) :=
    blind_mapM fun handle _ => blind_properties handle
  have hrun (b : Broker) : (behind cursor).run b =
      ((b.cursorRest cursor).mapM properties).run b := rfl
  rw [hrun, hrun, hrest]
  exact hbags b b' h

/-- Following the same paths shows the same. -/
theorem blind_follow (l : Lookup) (paths : List String) : Blind (l.follow paths) := by
  have hcursor : Blind (do behind (← openCursor (← fetchAll paths))) := by
    refine Parallel.bind (blind_fetchAll paths) fun results => ?_
    exact Parallel.bind (blind_openCursor results) blind_behind
  cases l with
  | query wql => exact hcursor
  | enumerate className => exact hcursor
  | fetch path =>
    refine Parallel.bind (blind_fetchAll paths) fun results => ?_
    exact blind_mapM fun handle _ => blind_properties handle

/-- **Both brokers show the same once they find the same paths.** -/
theorem agrees (h : b.UpToNulls b') {l : Lookup} (hpaths : l.paths b = l.paths b') :
    (l.shown.run b).1 = (l.shown.run b').1 ∧ (l.shown.run b).2.UpToNulls (l.shown.run b').2 := by
  rw [run_shown, run_shown, hpaths]
  exact Parallel.bind (Parallel.ofExcept _) l.blind_follow _ _ (h.note l.call)

/-! ### Finding the paths -/

/-- A lookup tells two objects apart if it is a selection of their class and its filters do. -/
def TellsApart (l : Lookup) (o o' : StoredObject) : Prop :=
  ∃ wql className filters, l = .query wql ∧
    Wql.Query.parse wql = .ok (.select className filters) ∧ o.isOf className = true ∧
      o.TellsApart o' filters

section Entries

variable {entries entries' : List (String × StoredObject)} {filters : List (String × String)}

theorem meeting_congr (h : List.Forall₂ (fun entry entry' => entry.1 = entry'.1 ∧
    entry.2.meets filters = entry'.2.meets filters) entries entries') :
    meeting filters entries = meeting filters entries' := by
  induction h with
  | nil => rfl
  | @cons entry entry' _ _ hentry _ ih =>
    obtain ⟨path, o⟩ := entry
    obtain ⟨path', o'⟩ := entry'
    obtain ⟨rfl, hmeets⟩ := hentry
    rw [meeting, meeting, hmeets, ih]

theorem meets_of_decided {o : StoredObject} (h : ∀ e, o.meets filters ≠ .error e) :
    o.meets filters = .ok (filters.all fun filter => o.shows filter.1 filter.2) := by
  rcases o.meets_outcome filters with hok | ⟨e, he, -⟩
  · exact hok
  · exact absurd he (h e)

/-- An entry is found if it shows every filter, and only then, where its path stands once. -/
theorem mem_found_iff (honce : (entries.map Prod.fst).Nodup) {entry : String × StoredObject}
    (hentry : entry ∈ entries) (p : String × StoredObject → Bool) :
    entry.1 ∈ (entries.filter p).map Prod.fst ↔ p entry = true := by
  rw [List.mem_map]
  constructor
  · rintro ⟨other, hother, hpath⟩
    obtain ⟨hmem, hp⟩ := List.mem_filter.mp hother
    rwa [List.inj_on_of_nodup_map honce hmem hentry hpath] at hp
  · intro hp
    exact ⟨entry, List.mem_filter.mpr ⟨hentry, hp⟩, rfl⟩

theorem map_fst_eq {R : StoredObject → StoredObject → Prop}
    (h : List.Forall₂ (fun entry entry' => entry.1 = entry'.1 ∧ R entry.2 entry'.2) entries
      entries') : entries.map Prod.fst = entries'.map Prod.fst := by
  induction h with
  | nil => rfl
  | cons hentry _ ih => rw [List.map_cons, List.map_cons, hentry.1, ih]

/-- **A selection finds the same among alike entries** exactly if it tells none of them apart, or
fails on both sides with one error. -/
theorem meeting_eq_iff
    (h : List.Forall₂ (fun entry entry' => entry.1 = entry'.1 ∧ entry.2.UpToNulls entry'.2)
      entries entries') (honce : (entries.map Prod.fst).Nodup) :
    meeting filters entries = meeting filters entries' ↔
      (∀ pair ∈ entries.zip entries', ¬ pair.1.2.TellsApart pair.2.2 filters) ∨
        ∃ e, meeting filters entries = .error e ∧ meeting filters entries' = .error e := by
  obtain ⟨hlength, hzip⟩ := List.forall₂_iff_zip.mp h
  constructor
  · intro heq
    rcases meeting_cases filters entries with ⟨-, -, e, -, he⟩ | ⟨hdecided, hfound⟩
    · exact .inr ⟨e, he, heq ▸ he⟩
    rcases meeting_cases filters entries' with ⟨-, -, e, -, he⟩ | ⟨hdecided', hfound'⟩
    · exact .inr ⟨e, heq ▸ he, he⟩
    left
    rintro ⟨entry, entry'⟩ hmem
    obtain ⟨hentry, hentry'⟩ := List.of_mem_zip hmem
    obtain ⟨hpath, hobject⟩ := hzip hmem
    have honce' : (entries'.map Prod.fst).Nodup := map_fst_eq h ▸ honce
    rw [hfound, hfound', Except.ok.injEq] at heq
    -- the two are at the same path, so both are found or none
    have hfirst := mem_found_iff honce hentry fun entry =>
      filters.all fun filter => entry.2.shows filter.1 filter.2
    have hsecond := mem_found_iff honce' hentry' fun entry =>
      filters.all fun filter => entry.2.shows filter.1 filter.2
    rw [heq, hpath] at hfirst
    rw [← StoredObject.meets_eq_iff hobject, meets_of_decided (hdecided entry hentry),
      meets_of_decided (hdecided' entry' hentry'), Except.ok.injEq, Bool.eq_iff_iff]
    exact hfirst.symm.trans hsecond
  · rintro (hnone | ⟨e, he, he'⟩)
    · refine meeting_congr (List.forall₂_iff_zip.mpr ⟨hlength, fun hmem => ?_⟩)
      obtain ⟨hpath, hobject⟩ := hzip hmem
      exact ⟨hpath, (StoredObject.meets_eq_iff hobject filters).mpr (hnone _ hmem)⟩
    · rw [he, he']

end Entries

/-- Associates and referrers are found alike. -/
theorem answer_eq_of_not_select (h : b.UpToNulls b') {q : Wql.Query}
    (hq : ∀ className filters, q ≠ .select className filters) :
    ((answer q).run b).1 = ((answer q).run b').1 := by
  cases q with
  | select className filters => exact absurd rfl (hq className filters)
  | associators path resultClass =>
    have hstored (other : String) :
        b'.isStoredOf resultClass other = b.isStoredOf resultClass other := by
      have hobject := h.objects.get? other
      unfold isStoredOf
      generalize b.objects.get? other = found at hobject ⊢
      generalize b'.objects.get? other = found' at hobject ⊢
      cases hobject with
      | none => rfl
      | some ho => simp [ho.isOf]
    show Except.ok _ = Except.ok _
    rw [h.associations, funext hstored]
  | references path resultClass =>
    have hrun (b : Broker) : ((answer (.references path resultClass)).run b).1 =
        ((classNamed resultClass).run b).1.map fun c => (b.objects.entries.filter fun entry =>
          entry.2.className == c.name && refersTo c path entry.2).map Prod.fst := by
      unfold answer
      rw [run_bind_of_ok (show state.run b = (.ok b, b) from rfl), run_bind]
      rcases (classNamed resultClass).run b with ⟨outcome, after⟩
      cases outcome <;> rfl
    have hfound (c : ClassDef) : (b.objects.entries.filter fun entry =>
          entry.2.className == c.name && refersTo c path entry.2).map Prod.fst =
        (b'.objects.entries.filter fun entry =>
          entry.2.className == c.name && refersTo c path entry.2).map Prod.fst := by
      have hobjects := h.objects
      unfold Table.Related at hobjects
      generalize b.objects.entries = entries at hobjects ⊢
      generalize b'.objects.entries = entries' at hobjects ⊢
      induction hobjects with
      | nil => rfl
      | @cons entry entry' _ _ hentry _ ih =>
        obtain ⟨hpath, hobject⟩ := hentry
        rw [List.filter_cons, List.filter_cons, hobject.className, hobject.refersTo]
        split
        · rw [List.map_cons, List.map_cons, hpath, ih]
        · exact ih
    rw [hrun, hrun, (blind_classNamed resultClass b b' h).1, funext hfound]

/-- The lookup is a selection with a filter for the empty text. -/
def WantsEmpty (l : Lookup) : Prop :=
  ∃ wql className filters name, l = .query wql ∧
    Wql.Query.parse wql = .ok (.select className filters) ∧ (name, "") ∈ filters

theorem TellsApart.wantsEmpty {l : Lookup} {o o' : StoredObject} (h : l.TellsApart o o') :
    l.WantsEmpty := by
  obtain ⟨wql, className, filters, hquery, hparse, -, htells⟩ := h
  obtain ⟨name, hname⟩ := htells.wants_empty
  exact ⟨wql, className, filters, name, hquery, hparse, hname⟩

theorem paths_query {wql : String} {q : Wql.Query} (hparse : Wql.Query.parse wql = .ok q)
    (b : Broker) : paths b (.query wql) = ((answer q).run b).1 := by
  rw [paths, hparse]
  rfl

theorem paths_select {wql className : String} {filters : List (String × String)}
    (hparse : Wql.Query.parse wql = .ok (.select className filters)) (b : Broker) :
    paths b (.query wql) = meeting filters (b.instancesOf className) := by
  rw [paths_query hparse]
  show ((Action.ofExcept _).run b).1 = _
  rw [run_ofExcept]

/-- Whatever is looked up, it takes a filter for the empty text to find other paths. -/
theorem paths_eq (h : b.UpToNulls b') {l : Lookup} (hl : ¬ l.WantsEmpty) :
    l.paths b = l.paths b' := by
  cases l with
  | fetch path => rfl
  | enumerate className =>
    rw [paths, paths, (blind_classNamed className b b' h).1, map_fst_eq (h.instancesOf className)]
  | query wql =>
    cases hparse : Wql.Query.parse wql with
    | error e =>
      rw [paths, paths, hparse]
      rfl
    | ok q =>
      cases q with
      | select className filters =>
        rw [paths_select hparse, paths_select hparse]
        refine meeting_congr ((h.instancesOf className).imp fun entry entry' hentry => ?_)
        obtain ⟨hpath, hobject⟩ := hentry
        refine ⟨hpath, (StoredObject.meets_eq_iff hobject filters).mpr fun htells => ?_⟩
        obtain ⟨name, hname⟩ := htells.wants_empty
        exact hl ⟨wql, className, filters, name, rfl, hparse, hname⟩
      | associators path resultClass =>
        rw [paths_query hparse, paths_query hparse]
        exact answer_eq_of_not_select h nofun
      | references path resultClass =>
        rw [paths_query hparse, paths_query hparse]
        exact answer_eq_of_not_select h nofun

/-- A lookup without a filter for the empty text does not see the difference. -/
theorem blind_shown {l : Lookup} (hl : ¬ l.WantsEmpty) : Blind l.shown :=
  fun _ _ h => agrees h (paths_eq h hl)

/-- The instances of a class, taken side by side, are what is stored at each path. -/
theorem forall_zip_iff (h : b.UpToNulls b') (hb : b.objects.Ordered) {className : String}
    {P : StoredObject → StoredObject → Prop} :
    (∀ pair ∈ (b.instancesOf className).zip (b'.instancesOf className), P pair.1.2 pair.2.2) ↔
      ∀ path o o', b.objects.get? path = some o → b'.objects.get? path = some o' →
        o.isOf className = true → P o o' := by
  have hb' : b'.objects.Ordered :=
    List.pairwise_map.mp (map_fst_eq h.objects ▸ List.pairwise_map.mpr hb)
  obtain ⟨hlength, hzip⟩ := List.forall₂_iff_zip.mp (h.instancesOf className)
  constructor
  · intro hall path o o' ho ho' hclass
    obtain ⟨i, hi, hentry⟩ := List.getElem_of_mem ((mem_instancesOf_iff hb).mpr ⟨ho, hclass⟩)
    have hi' : i < ((b.instancesOf className).zip (b'.instancesOf className)).length := by
      rw [List.length_zip]
      omega
    -- what stands beside the entry is what the other broker stores at its path
    obtain ⟨entry', hmem⟩ : ∃ entry', ((path, o), entry') ∈
        (b.instancesOf className).zip (b'.instancesOf className) := by
      have hmem := List.getElem_mem hi'
      rw [List.getElem_zip, hentry] at hmem
      exact ⟨_, hmem⟩
    have hstored := (mem_instancesOf_iff hb').mp (List.of_mem_zip hmem).2
    have hpath : path = entry'.1 := (hzip hmem).1
    rw [← hpath, ho', Option.some.injEq] at hstored
    exact hstored.1 ▸ hall _ hmem
  · rintro hall ⟨⟨path, o⟩, ⟨path', o'⟩⟩ hmem
    obtain ⟨hentry, hentry'⟩ := List.of_mem_zip hmem
    obtain ⟨hpath, -⟩ := hzip hmem
    dsimp only at hpath
    subst hpath
    obtain ⟨ho, hclass⟩ := (mem_instancesOf_iff hb).mp hentry
    exact hall path o o' ho ((mem_instancesOf_iff hb').mp hentry').1 hclass

/-- **A lookup finds the same paths** in both brokers exactly if there are no two objects that it
tells apart, or it fails in both with the same error. -/
theorem paths_eq_iff (h : b.UpToNulls b') (hb : b.objects.Ordered) (l : Lookup) :
    l.paths b = l.paths b' ↔
      (∀ path o o', b.objects.get? path = some o → b'.objects.get? path = some o' →
        ¬ l.TellsApart o o') ∨ ∃ e, l.paths b = .error e ∧ l.paths b' = .error e := by
  by_cases hl : l.WantsEmpty
  · obtain ⟨wql, className, filters, name, rfl, hparse, -⟩ := hl
    have honce : ((b.instancesOf className).map Prod.fst).Nodup :=
      List.pairwise_map.mpr ((List.Pairwise.filter _ hb).imp fun hlt => ne_of_lt hlt)
    rw [paths_select hparse, paths_select hparse, meeting_eq_iff (h.instancesOf className) honce,
      forall_zip_iff h hb (P := fun o o' => ¬ o.TellsApart o' filters)]
    refine or_congr_left ⟨fun hall path o o' ho ho' => ?_, fun hall path o o' ho ho' hclass => ?_⟩
    · rintro ⟨_, _, _, hquery, hparse', hclass, htells⟩
      cases hquery
      cases hparse.symm.trans hparse'
      exact hall path o o' ho ho' hclass htells
    · intro htells
      exact hall path o o' ho ho' ⟨wql, className, filters, rfl, hparse, hclass, htells⟩
  · -- such lookups find the same, and tell nothing apart
    exact iff_of_true (paths_eq h hl) (.inl fun _ _ _ _ _ htells => hl htells.wantsEmpty)

end Lookup

open Lookup

/-- **Nothing but a filter for the empty text tells an unset value from one that is nothing.** Take
two brokers that differ only in values that one of them stores as nothing and the other does not
store (`UpToNulls`).

A `Lookup` finds the same paths in both exactly if there are no two objects at one path that its
filters tell apart (`Lookup.TellsApart`), or else it fails in both with the same error.  When it
finds the same paths, it shows the same values or the same error (`Lookup.shown`), and the brokers
are alike again.  So a row of lookups, none of which has a filter for the empty text
(`Lookup.WantsEmpty`), shows the same throughout. -/
theorem null_is_unset_iff (h : b.UpToNulls b') (hb : b.objects.Ordered) :
    (∀ l : Lookup, l.paths b = l.paths b' ↔
      (∀ path o o', b.objects.get? path = some o → b'.objects.get? path = some o' →
        ¬ l.TellsApart o o') ∨ ∃ e, l.paths b = .error e ∧ l.paths b' = .error e) ∧
    (∀ l : Lookup, l.paths b = l.paths b' →
      (l.shown.run b).1 = (l.shown.run b').1 ∧
        (l.shown.run b).2.UpToNulls (l.shown.run b').2) ∧
    ∀ ls : List Lookup, (∀ l ∈ ls, ¬ l.WantsEmpty) →
      let row := ls.mapM fun l => l.shown.attempt
      (row.run b).1 = (row.run b').1 ∧ (row.run b).2.UpToNulls (row.run b').2 := by
  refine ⟨paths_eq_iff h hb, fun l => agrees h, fun ls hls => ?_⟩
  exact blind_mapM (fun l hl => Parallel.attempt (blind_shown (hls l hl))) b b' h

/-- A widget is stored without a name. -/
def nameUnset : List Deed :=
  [.request (.defineClass namedClass), .request (.insert "Widget" [])]

/-- The name of the widget is set to nothing. -/
def nameNulled : List Deed :=
  nameUnset ++ [.request (.setProperty (instancePath "Widget" 1) "Name" .null)]

/-- The query for the widgets of a name. -/
def ofName (wanted : String) : String := "SELECT * FROM Widget WHERE Name = '" ++ wanted ++ "'"

theorem nameUnset_upToNulls : (course .empty nameUnset).UpToNulls (course .empty nameNulled) := by
  refine ⟨rfl, .cons ⟨rfl, rfl, fun name => ?_, rfl⟩ .nil, rfl, rfl, rfl, rfl, rfl,
    fun i => .none, rfl⟩
  show ((⟨[]⟩ : Table Variant).get? name).getD .null =
    ((⟨[("Name", .null)]⟩ : Table Variant).get? name).getD .null
  simp only [Table.get?, Table.lookup?]
  split <;> rfl

/-- The widget shows the same whether its name was set to nothing or not, and is found the same by
its class and by filters for other texts. -/
theorem nameless_widgets_look_alike :
    let row := ([.enumerate "Widget", .fetch (instancePath "Widget" 1),
      .query (ofName "first")] : List Lookup).mapM fun l => l.shown.attempt
    (row.run (course .empty nameUnset)).1 = (row.run (course .empty nameNulled)).1 := by
  have hparse : Wql.Query.parse (ofName "first") = .ok (.select "Widget" [("Name", "first")]) := by
    decide +kernel
  refine ((null_is_unset_iff nameUnset_upToNulls (ordered_course nameUnset)).2.2 _ ?_).1
  intro l hl
  rintro ⟨wql, className, filters, name, rfl, hselects, hempty⟩
  obtain rfl : wql = ofName "first" := by simpa using hl
  cases hparse.symm.trans hselects
  simp at hempty

/-- A filter for the empty text finds the widget if its name was set to nothing, and does not if it
was not set. -/
theorem filter_tells_null_from_unset :
    let l := Lookup.query (ofName "")
    (course .empty nameUnset).UpToNulls (course .empty nameNulled) ∧
      namedClass.declared? "Name" = some (.scalarOf .string) ∧
      (l.shown.run (course .empty nameUnset)).1 = .ok [] ∧
      (l.shown.run (course .empty nameNulled)).1 = .ok [⟨[
        ⟨classProperty, .text "Widget", .scalarOf .string⟩,
        ⟨pathProperty, .text (instancePath "Widget" 1), .scalarOf .string⟩,
        ⟨"Name", .null, .scalarOf .string⟩]⟩] := by
  refine ⟨nameUnset_upToNulls, rfl, ?_, ?_⟩
  · decide +kernel
  · decide +kernel

end Broker

end CimBroker
