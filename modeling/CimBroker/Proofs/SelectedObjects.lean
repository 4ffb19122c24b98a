/-
# CimBroker.Proofs.SelectedObjects — what a selection returns

A selection looks at the objects of its class in path order and compares, filter by filter, the text
of the value under the filtered name.  Every value has a text but arrays and embedded objects
(`AtomType.decodeText_cases`), so the only way for a selection to fail is that one of these stands
where a text is wanted, in an object that shows all the filters before (`StoredObject.Stuck`).  Then
nothing has been fetched yet.

Otherwise the hits are fetched in turn.  The store lists each path once, so every hit is shown as it
was before the query, and undergoes one change (`selection_answered`).

The selections are those that the reader makes of a text, whichever text that is: that it makes the
right one is left to `CimBroker.Proofs.QueryReading`.  `first_widget_is_selected` has a selection of
either outcome.
-/
import CimBroker.Proofs.PathOrder
import CimBroker.Proofs.QueuedChanges
import Mathlib.Data.List.Forall2
import Mathlib.Data.List.Nodup

namespace CimBroker

/-- The value is an array or an embedded object. -/
def Variant.IsComposite : Variant → Prop
  | .array _ | .object _ => True
  | _ => False

/-- **Every value has a text but arrays and embedded objects** (`IsComposite`). -/
theorem AtomType.decodeText_cases (v : Variant) :
    (v.IsComposite ∧ decodeText v = .error (.typeConversion v.typeName "String")) ∨
      ¬ v.IsComposite ∧ ∃ text, decodeText v = .ok text := by
  cases v with
  | null => exact .inr ⟨id, _, rfl⟩
  | array a => exact .inl ⟨trivial, rfl⟩
  | scalar x =>
    cases x with
    | object h => exact .inl ⟨trivial, rfl⟩
    | _ => exact .inr ⟨id, _, rfl⟩

/-! ## One object -/

namespace StoredObject

variable {o : StoredObject} {filters : List (String × String)} {e : Error}

/-- The object has a value under the filtered name, and its text is the wanted one. -/
def Shows (o : StoredObject) (filter : String × String) : Prop :=
  ∃ v, o.values.get? filter.1 = some v ∧ AtomType.decodeText v = .ok filter.2

/-- The object is of the class and shows every filter. -/
structure Matches (o : StoredObject) (className : String) (filters : List (String × String)) :
    Prop where
  ofClass : o.isOf className = true
  shows : ∀ filter ∈ filters, o.Shows filter

/-- The object shows the filters before one under whose name it has the value, which is an array or
an embedded object. -/
def Stuck (o : StoredObject) (filters : List (String × String)) (v : Variant) : Prop :=
  ∃ before name wanted after, filters = before ++ (name, wanted) :: after ∧
    (∀ filter ∈ before, o.Shows filter) ∧ o.values.get? name = some v ∧ v.IsComposite

theorem shows_eq_true_iff {name text : String} :
    o.shows name text = true ↔ o.Shows (name, text) := by
  unfold shows Shows
  cases o.values.get? name with
  | none => simp
  | some v =>
    dsimp only
    cases htext : AtomType.decodeText v <;> simp [htext]

/-- The first filter that an object shows does not matter. -/
theorem meets_cons_of_shows {filter : String × String} (h : o.Shows filter) :
    o.meets (filter :: filters) = o.meets filters := by
  obtain ⟨v, hv, htext⟩ := h
  rw [meets, hv]
  dsimp only
  rw [htext]
  exact if_pos rfl

/-- **Filters cannot be decided exactly at an array or embedded object** that stands where a text
is wanted (`Stuck`). -/
theorem meets_eq_error_iff : o.meets filters = .error e ↔
    ∃ v, o.Stuck filters v ∧ e = .typeConversion v.typeName "String" := by
  constructor
  · intro h
    induction filters with
    | nil => cases h
    | cons filter filters ih =>
      by_cases hshows : o.Shows filter
      · rw [meets_cons_of_shows hshows] at h
        obtain ⟨v, ⟨before, name, wanted, after, rfl, hbefore, hv, hcomposite⟩, he⟩ := ih h
        exact ⟨v, ⟨filter :: before, name, wanted, after, rfl,
          List.forall_mem_cons.mpr ⟨hshows, hbefore⟩, hv, hcomposite⟩, he⟩
      · obtain ⟨name, wanted⟩ := filter
        rw [meets] at h
        cases hv : o.values.get? name with
        | none =>
          rw [hv] at h
          cases h
        | some v =>
          rw [hv] at h
          dsimp only at h
          rcases AtomType.decodeText_cases v with ⟨hcomposite, herror⟩ | ⟨-, text, htext⟩
          · rw [herror] at h
            exact ⟨v, ⟨[], name, wanted, filters, rfl, List.forall_mem_nil _, hv, hcomposite⟩,
              (Except.error.inj h).symm⟩
          · -- another text decides the filters
            rw [htext] at h
            dsimp only at h
            split at h
            · next heq => exact absurd ⟨v, hv, heq ▸ htext⟩ hshows
            · cases h
  · rintro ⟨v, ⟨before, name, wanted, after, rfl, hbefore, hv, hcomposite⟩, rfl⟩
    induction before with
    | nil =>
      rw [List.nil_append, meets, hv]
      dsimp only
      rcases AtomType.decodeText_cases v with ⟨-, herror⟩ | ⟨hnot, -⟩
      · rw [herror]
      · exact absurd hcomposite hnot
    | cons filter before ih =>
      obtain ⟨hfirst, hrest⟩ := List.forall_mem_cons.mp hbefore
      rw [List.cons_append, meets_cons_of_shows hfirst]
      exact ih hrest

end StoredObject

/-! ## The hits of a selection -/

namespace Broker

open CimBroker.Action

variable {b b' : Broker} {className : String} {filters : List (String × String)}

/-- The hits of a selection, in the order in which they are stored. -/
def hits (b : Broker) (className : String) (filters : List (String × String)) :
    List (String × StoredObject) :=
  (b.instancesOf className).filter fun entry =>
    filters.all fun filter => entry.2.shows filter.1 filter.2

theorem mem_instancesOf_iff (hb : b.objects.Ordered) {path : String} {o : StoredObject} :
    (path, o) ∈ b.instancesOf className ↔
      b.objects.get? path = some o ∧ o.isOf className = true := by
  rw [instancesOf, List.mem_filter, hb.mem_entries_iff]

theorem mem_hits_iff (hb : b.objects.Ordered) {path : String} {o : StoredObject} :
    (path, o) ∈ b.hits className filters ↔
      b.objects.get? path = some o ∧ o.Matches className filters := by
  rw [hits, List.mem_filter, mem_instancesOf_iff hb, and_assoc, List.all_eq_true]
  refine and_congr_right fun _ => ?_
  constructor
  · rintro ⟨hclass, hshows⟩
    exact ⟨hclass, fun filter hfilter => StoredObject.shows_eq_true_iff.mp (hshows filter hfilter)⟩
  · intro hmatches
    exact ⟨hmatches.ofClass, fun filter hfilter =>
      StoredObject.shows_eq_true_iff.mpr (hmatches.shows filter hfilter)⟩

theorem mem_hitPaths_iff (hb : b.objects.Ordered) {path : String} :
    path ∈ (b.hits className filters).map Prod.fst ↔
      ∃ o, b.objects.get? path = some o ∧ o.Matches className filters := by
  constructor
  · intro hmem
    obtain ⟨hit, hhit, rfl⟩ := List.mem_map.mp hmem
    exact ⟨hit.2, (mem_hits_iff hb).mp hhit⟩
  · rintro ⟨o, hhit⟩
    exact List.mem_map_of_mem ((mem_hits_iff hb).mpr hhit)

theorem pairwise_hits (hb : b.objects.Ordered) (className : String)
    (filters : List (String × String)) :
    (b.hits className filters).Pairwise fun hit later => hit.1 < later.1 :=
  List.Pairwise.filter _ (List.Pairwise.filter _ hb)

/-- Where no path comes twice, each is shown as it was before any of them was fetched. -/
theorem Returned.forall₂ {hits : List (String × StoredObject)} {hs : List Handle}
    (hreturned : Returned (hits.map Prod.fst) b hs b')
    (hstored : ∀ hit ∈ hits, b.objects.get? hit.1 = some hit.2)
    (honce : (hits.map Prod.fst).Nodup) :
    List.Forall₂ (fun h hit => Reveals b' h hit.1 hit.2) hs hits := by
  have hlength : hs.length = hits.length := by
    rw [hreturned.length, List.length_map]
  refine List.forall₂_iff_get.mpr ⟨hlength, fun i hi hi' => ?_⟩
  have hsplit : hits.map Prod.fst = (hits.take i).map Prod.fst ++
      hits[i].1 :: (hits.drop (i + 1)).map Prod.fst := by
    rw [← List.map_cons, ← List.map_append, List.getElem_cons_drop, List.take_append_drop]
  obtain ⟨h, hget, hrevealed⟩ := hreturned.reveals _ _ _ _ hsplit (hstored _ (List.getElem_mem hi'))
  -- none of the paths before is this one
  have hnew : hits[i].1 ∉ (hits.take i).map Prod.fst := fun hmem =>
    (List.nodup_append.mp (hsplit ▸ honce)).2.2 _ hmem _ List.mem_cons_self rfl
  rw [List.count_eq_zero.mpr hnew] at hrevealed
  have hplace : ((hits.take i).map Prod.fst).length = i := by
    rw [List.length_map, List.length_take, Nat.min_eq_left (Nat.le_of_lt hi')]
  rw [hplace, List.getElem?_eq_getElem hi, Option.some.injEq] at hget
  rw [List.get_eq_getElem, List.get_eq_getElem, hget]
  exact hrevealed

/-- What a selection does to the store and shows of it. -/
structure Selects (b : Broker) (className : String) (filters : List (String × String))
    (cursor : Cursor) (b' : Broker) : Prop where
  /-- The cursor yields the objects that match, each once and in path order, with the values that
  they had before. -/
  yields : ∃ hits : List (String × StoredObject),
    (∀ path o, (path, o) ∈ hits ↔ b.objects.get? path = some o ∧ o.Matches className filters) ∧
      hits.Pairwise (fun hit later => hit.1 < later.1) ∧
      List.Forall₂ (fun h hit => Reveals b' h hit.1 hit.2) (b'.cursorRest cursor) hits
  advanced : ∀ path o, b.objects.get? path = some o → o.Matches className filters →
    b'.objects.get? path = some (StoredObject.advance o)
  spared : ∀ path, (∀ o, b.objects.get? path = some o → ¬ o.Matches className filters) →
    b'.objects.get? path = b.objects.get? path

/-- Nothing comes to be stored by a fetch. -/
theorem Snapshot.unstored {path other : String} {outcome : Except Error (Option Handle)}
    (hs : Snapshot other b outcome b') (hnone : b.objects.get? path = none) :
    b'.objects.get? path = none := by
  have hset {o : StoredObject} (ho : b.objects.get? other = some o) :
      (b.objects.set other (StoredObject.advance o)).get? path = none := by
    have hne : other ≠ path := by
      rintro rfl
      cases ho.symm.trans hnone
    rw [Table.get?_set, if_neg hne]
    exact hnone
  cases hs with
  | definition => exact hnone
  | nothing => exact hnone
  | found hpath ho => exact hset ho
  | orphan hpath ho => exact hset ho

/-- Nothing comes to be stored by opening a cursor over what is fetched. -/
theorem unstored_of_open {path : String} (paths : List String)
    (hnone : b.objects.get? path = none) :
    ((fetchAll paths >>= openCursor).run b).2.objects.get? path = none := by
  obtain ⟨outcome, b', hsnapshots, hopen⟩ := fetchAll_openCursor paths b
  rw [hopen.objects]
  exact hsnapshots.keeps (I := fun b => b.objects.get? path = none)
    (fun _ _ _ _ hs hnone => hs.unstored hnone) hnone

/-- A selection whose filters can be decided fetches its hits. -/
theorem Tidy.serve_selects (hb : b.Tidy) (hordered : b.objects.Ordered) (wql className : String)
    (filters : List (String × String)) :
    ∃ cursor b', (serve wql ((b.hits className filters).map Prod.fst)).run b = (.ok cursor, b') ∧
      Selects b className filters cursor b' := by
  let noted : Broker := { b with trail := .query wql :: b.trail }
  have hnoted : Alike b noted := ⟨rfl, rfl, rfl, rfl⟩
  have hpaths : ∀ path ∈ (b.hits className filters).map Prod.fst,
      ∃ o, noted.objects.get? path = some o := by
    intro path hmem
    obtain ⟨o, ho, -⟩ := (mem_hitPaths_iff hordered).mp hmem
    exact ⟨o, ho⟩
  have hpairwise := pairwise_hits hordered className filters
  have honce : ((b.hits className filters).map Prod.fst).Nodup :=
    List.pairwise_map.mpr (hpairwise.imp fun hlt => ne_of_lt hlt)
  obtain ⟨cursor, b', hopen, hreturned⟩ := (hb.congr hnoted.holdings).run_open hpaths
  replace hreturned := hreturned.of_alike hnoted (.refl b')
  refine ⟨cursor, b', hopen, ?_, ?_, ?_⟩
  · exact ⟨b.hits className filters, fun path o => mem_hits_iff hordered, hpairwise,
      hreturned.forall₂ (fun hit hmem => ((mem_hits_iff hordered).mp hmem).1) honce⟩
  · intro path o ho hmatches
    have hmem := (mem_hitPaths_iff hordered).mpr ⟨o, ho, hmatches⟩
    rw [hreturned.objects path o ho, List.count_eq_one_of_mem honce hmem]
    rfl
  · intro path hother
    cases ho : b.objects.get? path with
    | none =>
      have hnone : noted.objects.get? path = none := ho
      have hafter := unstored_of_open ((b.hits className filters).map Prod.fst) hnone
      rwa [hopen] at hafter
    | some o =>
      have hunhit : path ∉ (b.hits className filters).map Prod.fst := by
        intro hmem
        obtain ⟨o', ho', hmatches⟩ := (mem_hitPaths_iff hordered).mp hmem
        exact hother o' ho' hmatches
      rw [hreturned.objects path o ho, List.count_eq_zero.mpr hunhit]
      rfl

/-- **A selection returns the objects that match, or fails before it fetches anything.** Take a run
of a broker (`course`) in which the names of classes are identifiers, and a query that is read as a
selection by filters.

If an object of the class that shows some first filters has an array or an embedded object under the
name of the next (`StoredObject.Stuck`), the query fails with the name of the value's type, and
nothing has changed but that it was written down.  If there is no such object, it succeeds
(`Selects`): the cursor yields exactly the objects that match, each once, in path order and with the
values that they had before, and each of them has undergone its oldest change, while everything else
in the store is as it was. -/
theorem selection_answered {deeds : List Deed} (hdeeds : ∀ d ∈ deeds, d.NamesClass) {wql : String}
    (hparse : Wql.Query.parse wql = .ok (.select className filters)) :
    let b := course .empty deeds
    (∃ path o v, b.objects.get? path = some o ∧ o.isOf className = true ∧ o.Stuck filters v ∧
        (runQuery wql).run b = (.error (.typeConversion v.typeName "String"),
          { b with trail := .query wql :: b.trail })) ∨
      (∀ path o v, b.objects.get? path = some o → o.isOf className = true →
        ¬ o.Stuck filters v) ∧
      ∃ cursor b', (runQuery wql).run b = (.ok cursor, b') ∧
        Selects b className filters cursor b' := by
  intro b
  have hordered : b.objects.Ordered := ordered_course deeds
  have hentry {path : String} {o : StoredObject} : (path, o) ∈ b.instancesOf className ↔
      b.objects.get? path = some o ∧ o.isOf className = true := by
    rw [instancesOf, List.mem_filter, hordered.mem_entries_iff]
  have hrun := run_runQuery_select hparse b
  rcases meeting_cases filters (b.instancesOf className) with
    ⟨⟨path, o⟩, hmem, e, hmeets, hfailed⟩ | ⟨hdecided, hfound⟩
  · obtain ⟨v, hstuck, rfl⟩ := StoredObject.meets_eq_error_iff.mp hmeets
    obtain ⟨ho, hclass⟩ := hentry.mp hmem
    rw [hfailed] at hrun
    exact .inl ⟨path, o, v, ho, hclass, hstuck, hrun⟩
  · refine .inr ⟨fun path o v ho hclass hstuck => ?_, ?_⟩
    · exact hdecided (path, o) (hentry.mpr ⟨ho, hclass⟩) _
        (StoredObject.meets_eq_error_iff.mpr ⟨v, hstuck, rfl⟩)
    · obtain ⟨cursor, b', hserve, hselects⟩ :=
        (tidy_course tidy_empty hdeeds).serve_selects hordered wql className filters
      rw [hfound] at hrun
      exact ⟨cursor, b', hrun.trans hserve, hselects⟩

/-- Two widgets are stored, and a change of the first is queued. -/
def widgetsStored : List Deed :=
  [.request (.defineClass namedClass), .request (.insert "Widget" [("Name", .text "first")]),
    .request (.insert "Widget" [("Name", .text "other")]),
    .request (.schedule (instancePath "Widget" 1) "Name" (.text "second"))]

/-- The name of the second widget becomes an array. -/
def widgetSpoilt : List Deed :=
  [.request (.schedule (instancePath "Widget" 2) "Name" (.array ⟨.text, []⟩)),
    .request (.fetch (instancePath "Widget" 2))]

/-- The query for the first widget yields it and applies its change, and leaves the second alone.
Once the second has an array for a name, the same query fails. -/
theorem first_widget_is_selected :
    (∃ cursor b', (runQuery "SELECT * FROM WIDGET WHERE Name = 'first'").run
        (course .empty widgetsStored) = (.ok cursor, b') ∧
      b'.objects.get? (instancePath "Widget" 1) =
        some ⟨"Widget", ⟨[("Name", .text "second")]⟩, []⟩ ∧
      b'.objects.get? (instancePath "Widget" 2) =
        some ⟨"Widget", ⟨[("Name", .text "other")]⟩, []⟩) ∧
    ∃ wire b', (runQuery "SELECT * FROM WIDGET WHERE Name = 'first'").run
        (course .empty (widgetsStored ++ widgetSpoilt)) =
          (.error (.typeConversion wire "String"), b') ∧
      b'.objects = (course .empty (widgetsStored ++ widgetSpoilt)).objects := by
  have hparse : Wql.Query.parse "SELECT * FROM WIDGET WHERE Name = 'first'" =
      .ok (.select "WIDGET" [("Name", "first")]) := by decide +kernel
  have hwidget : ∃ identifier : Wql.Identifier, identifier.text = namedClass.name :=
    ⟨⟨"Widget", by decide, by decide⟩, rfl⟩
  have hdeeds : ∀ d ∈ widgetsStored, d.NamesClass := by
    simp only [widgetsStored, List.forall_mem_cons]
    exact ⟨hwidget, trivial, trivial, trivial, nofun⟩
  constructor
  · rcases selection_answered hdeeds hparse with ⟨path, o, v, -, -, -, hrun⟩ |
      ⟨-, cursor, b', hrun, hselects⟩
    · have hok : ((runQuery "SELECT * FROM WIDGET WHERE Name = 'first'").run
          (course .empty widgetsStored)).1.isOk = true := by decide +kernel
      rw [hrun] at hok
      cases hok
    · have hfirst : (course .empty widgetsStored).objects.get? (instancePath "Widget" 1) =
          some ⟨"Widget", ⟨[("Name", .text "first")]⟩, [("Name", .text "second")]⟩ := rfl
      have hsecond : (course .empty widgetsStored).objects.get? (instancePath "Widget" 2) =
          some ⟨"Widget", ⟨[("Name", .text "other")]⟩, []⟩ := rfl
      refine ⟨cursor, b', hrun, ?_, ?_⟩
      · refine hselects.advanced _ _ hfirst ⟨by decide, ?_⟩
        exact List.forall_mem_singleton.mpr ⟨.text "first", rfl, rfl⟩
      · rw [hselects.spared, hsecond]
        intro o ho hmatches
        obtain rfl := Option.some.inj (hsecond.symm.trans ho)
        -- its name is another text
        obtain ⟨v, hv, htext⟩ := hmatches.shows _ List.mem_cons_self
        obtain rfl := Option.some.inj hv
        exact absurd (Except.ok.inj htext) (by decide)
  · have hmore : ∀ d ∈ widgetsStored ++ widgetSpoilt, d.NamesClass := by
      refine List.forall_mem_append.mpr ⟨hdeeds, ?_⟩
      simp only [widgetSpoilt, List.forall_mem_cons]
      exact ⟨trivial, trivial, nofun⟩
    rcases selection_answered hmore hparse with ⟨path, o, v, -, -, -, hrun⟩ | ⟨hdecided, -⟩
    · exact ⟨_, _, hrun, rfl⟩
    · have hsecond : (course .empty (widgetsStored ++ widgetSpoilt)).objects.get?
          (instancePath "Widget" 2) =
          some ⟨"Widget", ⟨[("Name", .array ⟨.text, []⟩)]⟩, []⟩ := rfl
      exact absurd ⟨[], "Name", "first", [], rfl, nofun, rfl, trivial⟩
        (hdecided _ _ (.array ⟨.text, []⟩) hsecond (by decide))

end Broker

end CimBroker
