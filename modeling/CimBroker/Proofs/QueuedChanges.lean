/-
# CimBroker.Proofs.QueuedChanges — fetching, and what becomes of queued changes

A fetch of a stored object, in whatever operation it happens, hands out the values that the object
has at that moment and then applies the oldest change of its queue.  Queries and listings fetch all
their hits, one after another, before anyone reads the first.  Nothing else takes a change out of a
queue, so the changes that were queued come out in order, one with each fetch.

`fetches_apply_oldest_changes` has the single fetch (`EachFetch`), the single deed that is none, and
the run (`InOrder`).  It rests on `CimBroker.Proofs.Fates`, which says what a deed lets happen to
one object.  Objects that are removed on the way are left out, as their queue goes with them, and so
are names of classes that no identifier has, since a path could then name a class.
-/
import CimBroker.Proofs.Fates
import CimBroker.Proofs.MachineLookup

namespace CimBroker.Broker

open CimBroker.Action

/-! ## What a fetch yields -/

/-- Behind the handle is the instance at the path, with the values of the object. -/
def Reveals (b : Broker) (h : Handle) (path : String) (o : StoredObject) : Prop :=
  ∃ c, b.classes.get? o.className = some c ∧ b.live[h.id]? = some ⟨c, some path, false, o.values⟩

/-- What the fetch of one object does: its values are shown as they were, and its oldest change is
applied. -/
structure Fetched (path : String) (o : StoredObject) (b : Broker) (h : Handle) (b' : Broker) :
    Prop where
  reveals : Reveals b' h path o
  objects : b'.objects = b.objects.set path (StoredObject.advance o)
  classes : b'.classes = b.classes
  live : ∀ (i : Nat) (lo : LiveObject), b.live[i]? = some lo → b'.live[i]? = some lo

/-- What fetching paths in turn does: each hit shows the object as it was when its turn came, which
is after the hits of the same path before it. -/
structure Returned (paths : List String) (b : Broker) (hs : List Handle) (b' : Broker) : Prop where
  length : hs.length = paths.length
  reveals : ∀ before path after o, paths = before ++ path :: after →
    b.objects.get? path = some o →
    ∃ h, hs[before.length]? = some h ∧ Reveals b' h path (advanced o (before.count path))
  objects : ∀ path o, b.objects.get? path = some o →
    b'.objects.get? path = some (advanced o (paths.count path))
  classes : b'.classes = b.classes
  live : ∀ (i : Nat) (lo : LiveObject), b.live[i]? = some lo → b'.live[i]? = some lo

section Fetching

variable {b b' b'' : Broker} {path : String} {o : StoredObject} {h : Handle}

/-- What is shown stays. -/
theorem Reveals.later (hr : Reveals b h path o) (hclasses : b'.classes = b.classes)
    (hlive : ∀ (i : Nat) (lo : LiveObject), b.live[i]? = some lo → b'.live[i]? = some lo) :
    Reveals b' h path o := by
  obtain ⟨c, hc, hshown⟩ := hr
  exact ⟨c, hclasses ▸ hc, hlive _ _ hshown⟩

/-- What was written down before a fetch does not matter. -/
theorem Fetched.of_alike (hb : Alike b b') (hf : Fetched path o b' h b'') :
    Fetched path o b h b'' := by
  obtain ⟨hreveals, hobjects, hclasses, hlive⟩ := hf
  rw [hb.objects] at hobjects
  rw [hb.live] at hlive
  exact ⟨hreveals, hobjects, hclasses.trans hb.classes, hlive⟩

theorem Returned.of_alike {b₁ b₂ : Broker} {paths : List String} {hs : List Handle}
    (hb : Alike b b₁) (hr : Returned paths b₁ hs b₂) (hb' : Alike b₂ b') :
    Returned paths b hs b' := by
  obtain ⟨hlength, hreveals, hobjects, hclasses, hlive⟩ := hr
  rw [hb.objects] at hreveals hobjects
  rw [hb.live] at hlive
  refine ⟨hlength, fun before path after o hpaths ho => ?_, ?_, ?_, ?_⟩
  · obtain ⟨h, hget, hrevealed⟩ := hreveals before path after o hpaths ho
    exact ⟨h, hget, hrevealed.later hb'.classes (by simp [hb'.live])⟩
  · rw [hb'.objects]
    exact hobjects
  · rw [hb'.classes, hclasses, hb.classes]
  · rw [hb'.live]
    exact hlive

/-- Fetching a stored object succeeds. -/
theorem Tidy.run_snapshot (hb : b.Tidy) (ho : b.objects.get? path = some o) :
    ∃ h b', (snapshot path).run b = (.ok (some h), b') ∧ Fetched path o b h b' := by
  obtain ⟨c, hc, houtcome, hafter⟩ := (Broker.run_snapshot path b).of_stored hb ho
  refine ⟨⟨b.live.size⟩, ((snapshot path).run b).2, Prod.ext houtcome rfl, ?_⟩
  rw [hafter]
  exact ⟨⟨c, hc, Array.getElem?_push_size⟩, rfl, rfl, fun _ _ hlo => live_push _ hlo⟩

/-- **Fetching stored objects in turn** succeeds, and each is shown as it is when its turn comes
(`Returned`). -/
theorem Tidy.run_fetchAll (hb : b.Tidy) {paths : List String}
    (hpaths : ∀ path ∈ paths, ∃ o, b.objects.get? path = some o) :
    ∃ hs b', (fetchAll paths).run b = (.ok hs, b') ∧ Returned paths b hs b' := by
  induction paths generalizing b with
  | nil =>
    refine ⟨[], b, rfl, rfl, fun before path after o hnil => ?_, fun _ _ ho => ho, rfl,
      fun _ _ hlo => hlo⟩
    exact absurd hnil.symm (List.append_ne_nil_of_right_ne_nil before (List.cons_ne_nil _ _))
  | cons first paths ih =>
    obtain ⟨⟨o₁, ho₁⟩, hpathsRest⟩ := List.forall_mem_cons.mp hpaths
    obtain ⟨h₁, b₁, hrun₁, hfetched⟩ := hb.run_snapshot ho₁
    have hsnapshot : Snapshot first b (.ok (some h₁)) b₁ := by
      have := Broker.run_snapshot first b
      rwa [hrun₁] at this
    have hpasses (path : String) := hsnapshot.passes hb path
    obtain ⟨hs, b', hrun, hreturned⟩ := ih (hpasses first).tidy fun path hmem => by
      obtain ⟨o, ho⟩ := hpathsRest path hmem
      exact ⟨_, (hpasses path).stored o ho⟩
    have hturn (path : String) {o : StoredObject} (ho : b.objects.get? path = some o) :
        b₁.objects.get? path = some (advanced o ([first].count path)) := by
      rw [← undergone_fetched]
      exact (hpasses path).stored o ho
    have hsum (rest : List String) (path : String) (o : StoredObject) :
        advanced (advanced o ([first].count path)) (rest.count path) =
          advanced o ((first :: rest).count path) := by
      rw [advanced_add, ← List.count_append]
      rfl
    refine ⟨h₁ :: hs, b', ?_, ?_, ?_, ?_, ?_, ?_⟩
    · rw [fetchAll, run_bind_of_ok hrun₁]
      show (fetchAll paths >>= fun hs => pure (h₁ :: hs)).run b₁ = _
      rw [run_bind_of_ok hrun]
      rfl
    · exact congrArg (· + 1) hreturned.length
    · intro before path after o heq ho
      cases before with
      | nil =>
        cases heq
        obtain rfl := Option.some.inj (ho₁.symm.trans ho)
        exact ⟨h₁, rfl, hfetched.reveals.later hreturned.classes hreturned.live⟩
      | cons other before =>
        cases heq
        obtain ⟨h, hget, hrevealed⟩ := hreturned.reveals before path after _ rfl (hturn path ho)
        rw [hsum] at hrevealed
        exact ⟨h, hget, hrevealed⟩
    · intro path o ho
      rw [hreturned.objects path _ (hturn path ho), hsum]
    · exact hreturned.classes.trans hfetched.classes
    · exact fun i lo hlo => hreturned.live i lo (hfetched.live i lo hlo)

/-- Under the name of an entry there is something. -/
theorem found_of_entry {α : Type} {entries : List (String × α)} {entry : String × α}
    (h : entry ∈ entries) : ∃ x, Table.lookup? entry.1 entries = some x := by
  induction entries with
  | nil => cases h
  | cons first rest ih =>
    obtain ⟨key, x⟩ := first
    by_cases hkey : key = entry.1
    · exact ⟨x, if_pos hkey⟩
    · obtain ⟨y, hy⟩ := ih ((List.mem_cons.mp h).resolve_left fun heq => hkey (heq ▸ rfl))
      exact ⟨y, (if_neg hkey).trans hy⟩

/-- What a query selects is stored. -/
theorem stored_of_answer {q : Wql.Query} {paths : List String}
    (hanswer : ((answer q).run b).1 = .ok paths) (hpath : path ∈ paths) :
    ∃ o, b.objects.get? path = some o := by
  have hentries {keep : String × StoredObject → Bool}
      (hmem : path ∈ (b.objects.entries.filter keep).map Prod.fst) :
      ∃ o, b.objects.get? path = some o := by
    obtain ⟨entry, hentry, rfl⟩ := List.mem_map.mp hmem
    exact found_of_entry (List.mem_of_mem_filter hentry)
  cases q with
  | select className filters =>
    have hmeeting : meeting filters (b.instancesOf className) = .ok paths := by
      rw [← hanswer]
      simp [answer, run_bind, state]
    rcases meeting_cases filters (b.instancesOf className) with ⟨-, -, e, -, herror⟩ | ⟨-, hok⟩
    · cases herror.symm.trans hmeeting
    · obtain rfl := Except.ok.inj (hok.symm.trans hmeeting)
      rw [instancesOf, List.filter_filter] at hpath
      exact hentries hpath
  | associators other resultClass =>
    obtain rfl : _ = paths := Except.ok.inj hanswer
    have hstored := (List.mem_filter.mp hpath).2
    unfold isStoredOf at hstored
    cases ho : b.objects.get? path with
    | some o => exact ⟨o, rfl⟩
    | none =>
      rw [ho] at hstored
      cases hstored
  | references other resultClass =>
    cases hc : b.classes.get? resultClass with
    | none =>
      simp [answer, classNamed, run_bind, state, require, hc] at hanswer
    | some c =>
      simp only [answer, classNamed, run_bind, state, require, hc, run_ofRun, run_pure] at hanswer
      obtain rfl := Except.ok.inj hanswer
      exact hentries hpath

/-- Opening a cursor over what fetching in turn yields. -/
theorem Tidy.run_open (hb : b.Tidy) {paths : List String}
    (hpaths : ∀ path ∈ paths, ∃ o, b.objects.get? path = some o) :
    ∃ cursor b', (fetchAll paths >>= openCursor).run b = (.ok cursor, b') ∧
      Returned paths b (b'.cursorRest cursor) b' := by
  obtain ⟨hs, b₁, hrun, hreturned⟩ := hb.run_fetchAll hpaths
  refine ⟨⟨b₁.cursors.size⟩, { b₁ with cursors := b₁.cursors.push hs }, ?_, ?_⟩
  · rw [run_bind_of_ok hrun]
    rfl
  · have hrest : cursorRest { b₁ with cursors := b₁.cursors.push hs } ⟨b₁.cursors.size⟩ = hs := by
      simp [cursorRest]
    rw [hrest]
    exact hreturned.of_alike (.refl b) ⟨rfl, rfl, rfl, rfl⟩

/-- A query with a hit was understood, and its hits are what it selects. -/
theorem answer_of_hit {wql : String} (hpath : path ∈ (Request.query wql).hits b) :
    ∃ q, Wql.Query.parse wql = .ok q ∧
      ((answer q).run b).1 = .ok ((Request.query wql).hits b) := by
  rw [Request.hits, run_bind, run_ofExcept] at hpath ⊢
  cases hparse : Wql.Query.parse wql with
  | error e =>
    rw [hparse] at hpath
    cases hpath
  | ok q =>
    rw [hparse] at hpath
    refine ⟨q, rfl, ?_⟩
    show ((answer q).run b).1 = .ok (((answer q).run b).1.toOption.getD [])
    cases hanswer : ((answer q).run b).1 with
    | error e =>
      have hnone : path ∈ ((answer q).run b).1.toOption.getD [] := hpath
      rw [hanswer] at hnone
      cases hnone
    | ok paths => rfl

/-- **A query fetches all that its `answer` selects**, whether or not anyone reads it. -/
theorem Tidy.run_answered (hb : b.Tidy) {wql : String} {q : Wql.Query} {paths : List String}
    (hparse : Wql.Query.parse wql = .ok q) (hanswer : ((answer q).run b).1 = .ok paths) :
    ∃ cursor b', (runQuery wql).run b = (.ok cursor, b') ∧
      Returned paths b (b'.cursorRest cursor) b' := by
  let noted : Broker := { b with trail := .query wql :: b.trail }
  have hnoted : Alike b noted := ⟨rfl, rfl, rfl, rfl⟩
  have hrun : (answer q).run noted = (.ok paths, noted) := by
    rw [run_answer, hanswer]
  obtain ⟨cursor, b', hopen, hreturned⟩ := (hb.congr hnoted.holdings).run_open
    fun path hmem => stored_of_answer (congrArg Prod.fst hrun) hmem
  refine ⟨cursor, b', ?_, hreturned.of_alike hnoted (.refl b')⟩
  show (Action.ofExcept (Wql.Query.parse wql) >>= fun q => answer q >>= fun paths =>
    fetchAll paths >>= openCursor).run noted = _
  rw [hparse, run_bind_of_ok (run_ofExcept _ _), run_bind_of_ok hrun]
  exact hopen

theorem Tidy.run_runQuery (hb : b.Tidy) {wql : String}
    (hpath : path ∈ (Request.query wql).hits b) :
    ∃ cursor b', (runQuery wql).run b = (.ok cursor, b') ∧
      Returned ((Request.query wql).hits b) b (b'.cursorRest cursor) b' := by
  obtain ⟨q, hparse, hanswer⟩ := answer_of_hit hpath
  exact hb.run_answered hparse hanswer

/-- **Listing a class fetches all its instances** (`Returned`). -/
theorem Tidy.run_runEnumeration (hb : b.Tidy) {className : String}
    (hpath : path ∈ (Request.enumerate className).hits b) :
    ∃ cursor b', (runEnumeration className).run b = (.ok cursor, b') ∧
      Returned ((Request.enumerate className).hits b) b (b'.cursorRest cursor) b' := by
  let noted : Broker := { b with trail := .enumerate className :: b.trail }
  have hnoted : Alike b noted := ⟨rfl, rfl, rfl, rfl⟩
  rw [Request.hits] at hpath ⊢
  cases hc : b.classes.get? className with
  | none =>
    rw [hc] at hpath
    cases hpath
  | some c =>
    have hnamed : (classNamed className).run noted = (.ok c, noted) := by
      simp [classNamed, run_bind, state, require, noted, hc]
    have hstored : ∀ path ∈ (b.instancesOf className).map Prod.fst,
        ∃ o, noted.objects.get? path = some o := by
      intro path hmem
      obtain ⟨entry, hentry, rfl⟩ := List.mem_map.mp hmem
      exact found_of_entry (List.mem_of_mem_filter hentry)
    obtain ⟨cursor, b', hopen, hreturned⟩ := (hb.congr hnoted.holdings).run_open hstored
    refine ⟨cursor, b', ?_, hreturned.of_alike hnoted (.refl b')⟩
    show (classNamed className >>= fun _ => Action.state >>= fun now =>
      fetchAll ((now.instancesOf className).map Prod.fst) >>= openCursor).run noted = _
    rw [run_bind_of_ok hnamed]
    exact hopen

section Session

variable {ω : Type} (routines : Routines ω) (config : SessionConfig) (pace : Pace)
  {st : Broker × ω}

/-- A session passes a query on. -/
theorem run_session_query {wql : String} {cursor : Cursor}
    (hrun : (runQuery wql).run st.1 = (.ok cursor, b')) :
    ((session routines config pace).query wql).run st = (.ok (.ofCursor cursor), b', st.2) := by
  have hquery : (onFirst (runQuery wql)).run st = (.ok cursor, b', st.2) := run_onFirst_of hrun
  show (onFirst (runQuery wql) >>= fun c => pure (Results.ofCursor c)).run st = _
  rw [run_bind_of_ok hquery]
  rfl

theorem Tidy.run_getObject (hb : st.1.Tidy) (ho : st.1.objects.get? path = some o) :
    ∃ h b', ((session routines config pace).getObject path).run st = (.ok h, b', st.2) ∧
      Fetched path o st.1 h b' := by
  let noted : Broker := { st.1 with trail := .fetch path :: st.1.trail }
  have hnoted : Alike st.1 noted := ⟨rfl, rfl, rfl, rfl⟩
  obtain ⟨h, b', hrun, hfetched⟩ := (hb.congr hnoted.holdings).run_snapshot ho
  refine ⟨h, b', ?_, hfetched.of_alike hnoted⟩
  have hfetch : (onFirst (Broker.fetch path)).run st = (.ok (some h), b', st.2) :=
    run_onFirst_of hrun
  unfold Service.getObject
  show (onFirst (Broker.fetch path) >>= fun found => Action.require _ found).run st = _
  rw [run_bind_of_ok hfetch]
  rfl

/-- Reading a property before a fetch does not matter. -/
theorem alike_readFrom (name : String) (b : Broker) : Alike b (readFrom name b) :=
  ⟨rfl, rfl, rfl, rfl⟩

theorem Tidy.run_refetch (hb : st.1.Tidy) (ho : st.1.objects.get? path = some o) {handle : Handle}
    {lo : LiveObject} (hlive : st.1.live[handle.id]? = some lo) (hpath : lo.path = some path) :
    ∃ h b', ((session routines config pace).refetch handle).run st = (.ok h, b', st.2) ∧
      Fetched path o st.1 h b' := by
  have hread := alike_readFrom pathProperty st.1
  have htidy : (readFrom pathProperty st.1, st.2).1.Tidy := hb.congr hread.holdings
  obtain ⟨h, b', hrun, hfetched⟩ := htidy.run_getObject routines config pace ho
  refine ⟨h, b', ?_, hfetched.of_alike hread⟩
  have hrequire : ((session routines config pace).access.requirePath handle).run st =
      (.ok path, readFrom pathProperty st.1, st.2) :=
    run_requirePath_eq_ok.mpr ⟨⟨lo, hlive, hpath⟩, rfl⟩
  unfold Service.refetch
  rw [run_bind_of_ok hrequire]
  exact hrun

/-- Where an object is wanted, an object can be read. -/
theorem decode_object (h : Handle) {t : DataType} (ht : t.isObjectHandle = true) :
    ∃ x, t.decode (.object h) = .ok x := by
  induction t with
  | handle => exact ⟨h, rfl⟩
  | optional t ih =>
    obtain ⟨x, hx⟩ := ih ht
    refine ⟨some x, ?_⟩
    rw [DataType.decode, hx]
    · rfl
    · nofun
  | _ => cases ht

/-- A reference among the outputs of a call is resolved by a fetch. -/
theorem Tidy.run_read (hb : st.1.Tidy) (ho : st.1.objects.get? path = some o) {i : Invocation}
    {name : String} {outputs : Handle} (hreadable : i.readable name = .ok outputs)
    {declared : CimType} (hvalue : readAt outputs name st.1 = .ok (.text path, declared))
    (hreference : declared.isReference = true) {t : DataType} (ht : t.isObjectHandle = true) :
    ∃ h x b', (i.read (session routines config pace) name t).run st = (.ok x, b', st.2) ∧
      t.decode (.object h) = .ok x ∧ Fetched path o st.1 h b' := by
  have hread := alike_readFrom name st.1
  have htidy : (readFrom name st.1, st.2).1.Tidy := hb.congr hread.holdings
  obtain ⟨h, b', hrun, hfetched⟩ := htidy.run_getObject routines config pace ho
  obtain ⟨x, hx⟩ := decode_object h ht
  refine ⟨h, x, b', ?_, hx, hfetched.of_alike hread⟩
  have hget : ((session routines config pace).access.get outputs name).run st =
      (.ok (.text path, declared), readFrom name st.1, st.2) :=
    hvalue ▸ run_access_get name
  have hreads : (Action.ofExcept (i.readable name)).run st = (.ok outputs, st) := by
    rw [hreadable, run_ofExcept]
  unfold Invocation.read
  rw [run_bind_of_ok hreads, run_bind_of_ok hget]
  show (if declared.isReference && t.isObjectHandle then
    (session routines config pace).getObject path >>= fun h =>
      Action.ofExcept (t.decode (.object h))
    else _ : Action (Broker × ω) t.Value).run (readFrom name st.1, st.2) = _
  rw [if_pos (by rw [hreference, ht]; rfl), run_bind_of_ok hrun, hx, run_ofExcept]

end Session

end Fetching

/-! ## Queued changes come out in order -/

/-- **Every way of fetching** a stored object shows the object and applies its oldest change: by its
path, through a handle to it, through a reference that a call put out, and as a hit of a query or a
listing. -/
structure EachFetch {ω : Type} (routines : Routines ω) (config : SessionConfig) (pace : Pace)
    (own : ω) (b : Broker) (path : String) (o : StoredObject) : Prop where
  object : ∃ h b', (Broker.object path).run b = (.ok h, b') ∧ Fetched path o b h b'
  getObject : ∃ h b', ((session routines config pace).getObject path).run (b, own) =
      (.ok h, b', own) ∧ Fetched path o b h b'
  refetch : ∀ handle lo, b.live[handle.id]? = some lo → lo.path = some path →
    ∃ h b', ((session routines config pace).refetch handle).run (b, own) = (.ok h, b', own) ∧
      Fetched path o b h b'
  reference : ∀ (i : Invocation) name outputs declared (t : DataType),
    i.readable name = .ok outputs → readAt outputs name b = .ok (.text path, declared) →
    declared.isReference = true → t.isObjectHandle = true →
    ∃ h x b', (i.read (session routines config pace) name t).run (b, own) = (.ok x, b', own) ∧
      t.decode (.object h) = .ok x ∧ Fetched path o b h b'
  query : ∀ wql, path ∈ (Request.query wql).hits b →
    ∃ cursor b', ((session routines config pace).query wql).run (b, own) =
        (.ok (.ofCursor cursor), b', own) ∧
      Returned ((Request.query wql).hits b) b (b'.cursorRest cursor) b'
  enumerate : ∀ className, path ∈ (Request.enumerate className).hits b →
    ∃ cursor b', ((session routines config pace).enumerate className).run (b, own) =
        (.ok (.ofCursor cursor), b', own) ∧
      Returned ((Request.enumerate className).hits b) b (b'.cursorRest cursor) b'

theorem Tidy.eachFetch {b : Broker} (hb : b.Tidy) {path : String} {o : StoredObject}
    (ho : b.objects.get? path = some o) {ω : Type} (routines : Routines ω) (config : SessionConfig)
    (pace : Pace) (own : ω) : EachFetch routines config pace own b path o := by
  have htidy : (b, own).1.Tidy := hb
  refine ⟨?_, htidy.run_getObject routines config pace ho, fun handle lo hlive hpath => ?_,
    fun i name outputs declared t hreadable hvalue hreference ht => ?_, fun wql hhit => ?_,
    fun className hhit => ?_⟩
  · obtain ⟨h, b', hrun, hfetched⟩ := hb.run_snapshot ho
    refine ⟨h, b', ?_, hfetched⟩
    unfold Broker.object
    rw [run_bind_of_ok hrun]
    rfl
  · exact htidy.run_refetch routines config pace ho hlive hpath
  · exact htidy.run_read routines config pace ho hreadable hvalue hreference ht
  · obtain ⟨cursor, b', hrun, hreturned⟩ := hb.run_runQuery hhit
    exact ⟨cursor, b', run_session_query routines config pace hrun, hreturned⟩
  · obtain ⟨cursor, b', hrun, hreturned⟩ := hb.run_runEnumeration hhit
    have hlisting : (onFirst (runEnumeration className)).run (b, own) = (.ok cursor, b', own) :=
      run_onFirst_of hrun
    refine ⟨cursor, b', ?_, hreturned⟩
    show (onFirst (runEnumeration className) >>= fun c => pure (Results.ofCursor c)).run
      (b, own) = _
    rw [run_bind_of_ok hlisting]
    rfl

/-- A deed that does not fetch an object lets at most one thing happen to it. -/
theorem fates_of_unhit {b : Broker} {path : String} {d : Deed}
    (hunhit : ∀ r, d = .request r → path ∉ r.hits b) :
    d.fates b path = [] ∨ (∃ change, d.fates b path = [.queued change]) ∨
      ∃ name v, d = .request (.setProperty path name v) ∧ d.fates b path = [.set (name, v)] := by
  have hquiet (r : Request) (hr : path ∉ r.hits b) :
      List.replicate ((r.hits b).count path) Fate.fetched = [] := by
    rw [List.count_eq_zero.mpr hr]
    rfl
  cases d with
  | call other method => exact .inl rfl
  | outputs m results => exact .inl rfl
  | request r =>
    have hr := hunhit r rfl
    cases r with
    | schedule other name v =>
      by_cases hother : other = path
      · exact .inr (.inl ⟨(name, v), if_pos hother⟩)
      · exact .inl (if_neg hother)
    | setProperty other name v =>
      by_cases hset : other = path ∧ ((setProperty other name v).run b).1.isOk = true
      · obtain rfl := hset.1
        exact .inr (.inr ⟨name, v, rfl, if_pos hset⟩)
      · exact .inl (if_neg hset)
    | _ => exact .inl (hquiet _ hr)

/-- What has become of an object in the course of deeds. -/
structure InOrder (path : String) (b : Broker) (deeds : List Deed) (o o' : StoredObject) :
    Prop where
  /-- Everything was written in the order in which it happened. -/
  values : o'.values = overwritten o.values (writes o.pending (fates path b deeds))
  direct : (writes o.pending (fates path b deeds)).filterMap Write.direct? =
    (fates path b deeds).filterMap Fate.set?
  /-- Changes came out in the order in which they were queued, each at most once, and the others
  wait. -/
  released : (writes o.pending (fates path b deeds)).filterMap Write.released? ++ o'.pending =
    o.pending ++ (fates path b deeds).filterMap Fate.queued?
  /-- Of the changes queued before `n` fetches, the first `n` came out. -/
  fetches : ∀ first second, deeds = first ++ second → Fate.fetched ∉ fates path b first →
    (fates path (course b first) second).filterMap Fate.queued? = [] →
    let changes := o.pending ++ (fates path b first).filterMap Fate.queued?
    let n := (fates path (course b first) second).count .fetched
    (writes o.pending (fates path b deeds)).filterMap Write.released? = changes.take n ∧
      o'.pending = changes.drop n

theorem inOrder_undergone (path : String) (b : Broker) (deeds : List Deed) (o : StoredObject) :
    InOrder path b deeds o (undergone o (fates path b deeds)) := by
  refine ⟨undergone_values o _, direct_writes _ _, released_append_pending o _, ?_⟩
  rintro first second rfl hfirst hsecond
  rw [fates_append]
  exact released_by_fetches hfirst hsecond o

/-- **Each fetch applies the oldest change, and nothing else applies or drops one.** Take a run of a
broker (`course`) in which the names of classes are identifiers, and an object that is stored after
it.

Each fetch of the object, of whatever kind, returns a handle that shows the object's values at that
moment, and then applies the oldest change of its queue, if there is one (`EachFetch`).  Any other
deed leaves the queue as it is or puts a change at its end, and leaves the values as they are unless
it sets one of them at once.  In a further run that does not remove the object, changes come out in
the order in which they were queued, each once, and are written in turn with what is set at once, in
the order in which it all happened; `n` fetches that follow the queueing have applied the first `n`
changes, as far as there are so many (`InOrder`). -/
theorem fetches_apply_oldest_changes {earlier : List Deed} (hearlier : ∀ d ∈ earlier, d.NamesClass)
    {path : String} {o : StoredObject} (ho : (course .empty earlier).objects.get? path = some o) :
    (∀ {ω : Type} (routines : Routines ω) (config : SessionConfig) (pace : Pace) (own : ω),
      EachFetch routines config pace own (course .empty earlier) path o) ∧
    (∀ d : Deed, d.NamesClass → d ≠ .request (.remove path) →
      (∀ r, d = .request r → path ∉ r.hits (course .empty earlier)) →
      ∃ o', (d.after (course .empty earlier)).objects.get? path = some o' ∧
        o.pending <+: o'.pending ∧
        (o'.values = o.values ∨ ∃ name v, d = .request (.setProperty path name v) ∧
          o'.values = o.values.set name v)) ∧
    ∀ deeds : List Deed, (∀ d ∈ deeds, d.NamesClass) → (∀ d ∈ deeds, d ≠ .request (.remove path)) →
      ∃ o', (course (course .empty earlier) deeds).objects.get? path = some o' ∧
        InOrder path (course .empty earlier) deeds o o' := by
  have htidy : (course .empty earlier).Tidy := tidy_course tidy_empty hearlier
  refine ⟨fun routines config pace own => htidy.eachFetch ho routines config pace own,
    fun d hname hstays hunhit => ⟨_, (htidy.passes hname hstays).stored o ho, ?_⟩,
    fun deeds hnames hstays => ?_⟩
  · rcases fates_of_unhit hunhit with hnone | ⟨change, hqueued⟩ | ⟨name, v, hd, hset⟩
    · rw [hnone]
      exact ⟨List.prefix_refl _, .inl rfl⟩
    · rw [hqueued]
      exact ⟨List.prefix_append _ _, .inl rfl⟩
    · rw [hset]
      exact ⟨List.prefix_refl _, .inr ⟨name, v, hd, rfl⟩⟩
  · exact ⟨_, (htidy.passes_course hnames hstays).stored o ho, inOrder_undergone path _ deeds o⟩

/-- A widget is stored. -/
def widgetStored : List Deed :=
  [.request (.defineClass namedClass), .request (.insert "Widget" [("Name", .text "first")])]

/-- Three changes of the widget are queued. -/
def widgetScheduled : List Deed :=
  [.request (.schedule (instancePath "Widget" 1) "Name" (.text "second")),
    .request (.schedule (instancePath "Widget" 1) "Name" (.text "third")),
    .request (.schedule (instancePath "Widget" 1) "Name" (.text "fourth"))]

/-- The widget is fetched twice, the second time by a listing, with a change at once in between. -/
def widgetWatched : List Deed :=
  [.request (.fetch (instancePath "Widget" 1)),
    .request (.setProperty (instancePath "Widget" 1) "Name" (.text "own")),
    .request (.enumerate "Widget")]

/-- Two of the three changes have come out, the change at once was written between them, and the
listing yields the widget. -/
theorem widget_changes_come_out :
    (course .empty widgetStored).objects.get? (instancePath "Widget" 1) =
      some ⟨"Widget", ⟨[("Name", .text "first")]⟩, []⟩ ∧
    (∃ o', (course (course .empty widgetStored) (widgetScheduled ++ widgetWatched)).objects.get?
        (instancePath "Widget" 1) = some o' ∧
      o'.pending = [("Name", .text "fourth")] ∧
      o'.values = overwritten ⟨[("Name", .text "first")]⟩
        [.released ("Name", .text "second"), .direct ("Name", .text "own"),
          .released ("Name", .text "third")]) ∧
    ∃ cursor b', ((session (fun _ _ => pure []) .standard ⟨0, fun _ _ => ⟨0⟩⟩).enumerate
        "Widget").run (course .empty widgetStored, ()) = (.ok (.ofCursor cursor), b', ()) ∧
      (b'.cursorRest cursor).length = 1 := by
  have ho : (course .empty widgetStored).objects.get? (instancePath "Widget" 1) =
      some ⟨"Widget", ⟨[("Name", .text "first")]⟩, []⟩ := rfl
  have hearlier : ∀ d ∈ widgetStored, d.NamesClass := by
    simp only [widgetStored, List.forall_mem_cons]
    exact ⟨⟨⟨"Widget", by decide, by decide⟩, rfl⟩, trivial, nofun⟩
  obtain ⟨heach, -, hcourse⟩ := fetches_apply_oldest_changes hearlier ho
  refine ⟨ho, ?_, ?_⟩
  · obtain ⟨o', ho', hinOrder⟩ := hcourse (widgetScheduled ++ widgetWatched)
      (by simp [widgetScheduled, widgetWatched, Deed.NamesClass])
      (by simp [widgetScheduled, widgetWatched])
    refine ⟨o', ho', ?_, hinOrder.values⟩
    exact (hinOrder.fetches widgetScheduled widgetWatched rfl (by decide) rfl).2
  · obtain ⟨cursor, b', hrun, hreturned⟩ := (heach (fun _ _ => pure []) .standard
      ⟨0, fun _ _ => ⟨0⟩⟩ ()).enumerate "Widget" (by decide)
    exact ⟨cursor, b', hrun, hreturned.length⟩

end CimBroker.Broker
