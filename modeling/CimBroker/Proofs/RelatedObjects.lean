/-
# CimBroker.Proofs.RelatedObjects — what is associated is found, from both ends

A session asks for the objects related to one by putting the path of that one between braces and the
class of the others behind it.  Paths are full of dots, equals signs and quotes, and class names are
chosen by whoever defines them; as long as the names can stand in a query as they are (`IsBare`),
the text is read back as the path and the class that went into it.

Associations are kept in the order in which they were made and never forgotten, so that the answer
is a matter of what the run has associated (`related`): each association counts once, from either
end, and those whose other end is no longer stored are passed over.

`associated_objects_found` has the answer of a session and its symmetry, and
`widgets_find_each_other` a run with an association made twice and an object that is removed.
Associations have no properties and no roles here, and an object may be associated with itself.
-/
import CimBroker.Proofs.FailedRequests
import CimBroker.Proofs.QueryGrammar
import CimBroker.Proofs.QueuedChanges

namespace CimBroker

namespace Wql

open Text (isBlank trim trimStart cutAtChar? afterKeyword?)
open Query (condition?)

/-! ## The text of the query -/

/-- The name can stand in a query as it is, bare or as the beginning of a path between braces.
Letters, digits and underscores of any script are such names. -/
def IsBare (name : String) : Prop :=
  name.toList ≠ [] ∧ ∀ c ∈ name.toList,
    isBlank c = false ∧ c ≠ '=' ∧ c ≠ '\x7d' ∧ c ≠ '\'' ∧ c ≠ '"' ∧ c ≠ '\\'

instance : DecidablePred IsBare := fun name =>
  decidable_of_iff (name.toList ≠ [] ∧ name.toList.all fun c =>
    isBlank c = false ∧ c ≠ '=' ∧ c ≠ '\x7d' ∧ c ≠ '\'' ∧ c ≠ '"' ∧ c ≠ '\\')
    (by simp [IsBare, List.all_eq_true])

theorem IsBare.identifier {name : String} (h : IsBare name) :
    ∃ identifier : Identifier, identifier.text = name := by
  refine ⟨⟨name, h.1, ?_⟩, rfl⟩
  rw [List.all_eq_true]
  intro c hc
  obtain ⟨hblank, hequals, -⟩ := h.2 c hc
  simp [hblank, hequals]

/-- The path can stand between braces. -/
structure IsEnclosed (path : String) : Prop where
  trimmed : trim path.toList = path.toList
  unclosed : '\x7d' ∉ path.toList

/-- The path of a stored object can stand between braces, whatever characters are in it. -/
theorem IsBare.isEnclosed {className : String} (h : IsBare className) (n : Nat) :
    IsEnclosed (Broker.instancePath className n) := by
  have hlist : (Broker.instancePath className n).toList =
      className.toList ++ (".InstanceID=\"".toList ++ Nat.toDigits 10 n) ++ ['"'] := by
    simp [Broker.instancePath]
  constructor
  · obtain ⟨c, rest, hname⟩ := List.exists_cons_of_ne_nil h.1
    have hc : isBlank c = false := (h.2 c (by simp [hname])).1
    rw [hlist, hname]
    exact Text.trim_enclosed hc (by decide) _
  · rw [hlist]
    intro hmem
    simp only [List.mem_append, List.mem_singleton] at hmem
    rcases hmem with (hname | hmark | hdigit) | hquote
    · exact (h.2 _ hname).2.2.1 rfl
    · exact absurd hmark (by decide)
    · have hd := Nat.isDigit_of_mem_toDigits (by decide) (by decide) hdigit
      exact absurd hd (by decide)
    · exact absurd hquote (by decide)

/-- The condition that names the class is read as it is meant. -/
theorem condition?_resultClass {className : String} (h : IsBare className) :
    condition? ("ResultClass = ".toList ++ className.toList) = some ("ResultClass", className) := by
  have hname : '=' ∉ "ResultClass ".toList := by decide
  have hcut : cutAtChar? '=' ("ResultClass = ".toList ++ className.toList) =
      some ("ResultClass ".toList, ' ' :: className.toList) :=
    Text.cutAtChar?_append (' ' :: className.toList) hname
  have hvalue : trim (' ' :: className.toList) = className.toList := by
    show trim className.toList = className.toList
    exact Text.trim_eq_self fun c hc => (h.2 c hc).1
  have hopen : ∀ c ∈ className.toList.head?, c ≠ '\'' ∧ c ≠ '"' := by
    intro c hc
    obtain ⟨-, -, -, hsingle, hdouble, -⟩ := h.2 c (List.mem_of_mem_head? hc)
    exact ⟨hsingle, hdouble⟩
  rw [condition?, hcut, Option.map_some, hvalue, unquoted_bare hopen,
    unescapeChars_eq_self fun c hc => (h.2 c hc).2.2.2.2.2, String.ofList_toList]
  rfl

/-- A text that begins without a blank and ends in such a name has nothing to trim. -/
theorem IsBare.trim_append {name : String} (h : IsBare name) (front : List Char)
    (hfront : ∀ c ∈ front.head?, isBlank c = false) :
    trim (front ++ name.toList) = front ++ name.toList := by
  refine Text.trim_eq_self_iff.mpr ⟨fun c hc => ?_, fun c hc => ?_⟩
  · cases front with
    | nil => exact (h.2 c (List.mem_of_mem_head? hc)).1
    | cons d rest => exact hfront c hc
  · rw [List.getLast?_append_of_ne_nil _ h.1] at hc
    exact (h.2 c (List.mem_of_getLast? hc)).1

theorem toList_relatedQuery (path className : String) :
    (Service.relatedQuery path className).toList =
      ("ASSOCIATORS OF".toList ++ ' ' :: '\x7b' :: (path.toList ++ '\x7d' :: ' ' ::
        ("WHERE".toList ++ ' ' :: "ResultClass = ".toList))) ++ className.toList := by
  have hopen : "ASSOCIATORS OF \x7b".toList = "ASSOCIATORS OF".toList ++ [' ', '\x7b'] := by
    decide
  have hclose : "\x7d WHERE ResultClass = ".toList =
      '\x7d' :: ' ' :: ("WHERE".toList ++ ' ' :: "ResultClass = ".toList) := by
    decide
  unfold Service.relatedQuery
  rw [String.toList_append, String.toList_append, String.toList_append, hopen, hclose]
  simp only [List.append_assoc, List.cons_append, List.nil_append]

/-- **The query for related objects** (`relatedQuery`) is read back as the path and the class that
it was made of. -/
theorem parse_relatedQuery {path className : String} (hpath : IsEnclosed path)
    (hclass : IsBare className) :
    Query.parse (Service.relatedQuery path className) = .ok (.associators path className) := by
  have htext : trim (Service.relatedQuery path className).toList =
      "ASSOCIATORS OF".toList ++ ' ' :: '\x7b' :: (path.toList ++ '\x7d' :: ' ' ::
        ("WHERE".toList ++ ' ' :: ("ResultClass = ".toList ++ className.toList))) := by
    rw [toList_relatedQuery, hclass.trim_append]
    · simp only [List.append_assoc, List.cons_append]
    · intro c hc
      obtain rfl : 'A' = c := Option.some.inj hc
      decide
  have hclause : trim (' ' :: ("WHERE".toList ++ ' ' ::
      ("ResultClass = ".toList ++ className.toList))) =
      "WHERE".toList ++ ' ' :: ("ResultClass = ".toList ++ className.toList) := by
    have htrimmed := hclass.trim_append ("WHERE".toList ++ ' ' :: "ResultClass = ".toList)
      fun c hc => by
        obtain rfl : 'W' = c := Option.some.inj hc
        decide
    rw [List.append_assoc, List.cons_append] at htrimmed
    exact htrimmed
  have hwhere : afterKeyword? "WHERE" ("WHERE".toList ++ ' ' ::
      ("ResultClass = ".toList ++ className.toList)) =
        some ("ResultClass = ".toList ++ className.toList) :=
    Text.afterKeyword?_append "WHERE" _
  have hword : Text.sameWord "ResultClass" "ResultClass" = true := rfl
  have hrelation : Query.pathAndClass? ('\x7b' :: (path.toList ++ '\x7d' :: ' ' ::
      ("WHERE".toList ++ ' ' :: ("ResultClass = ".toList ++ className.toList)))) =
        some (path, className) := by
    simp only [Query.pathAndClass?, Text.cutAtChar?_append _ hpath.unclosed, hclause, hwhere,
      condition?_resultClass hclass, hword, hpath.trimmed, String.ofList_toList,
      Option.bind_eq_bind, Option.bind_some, if_true]
    rfl
  have hassociators := Text.afterKeyword?_append "ASSOCIATORS OF" ('\x7b' :: (path.toList ++
    '\x7d' :: ' ' :: ("WHERE".toList ++ ' ' :: ("ResultClass = ".toList ++ className.toList))))
  rw [Text.trimStart_cons_of_not_blank (by decide)] at hassociators
  simp only [Query.parse, Query.ofText?, htext, hassociators, hrelation, Option.map_some]

end Wql

namespace Broker

open CimBroker.Action

/-! ## What a run has associated -/

/-- The pair of paths that a deed associates. -/
def Deed.association? : Deed → Option (String × String)
  | request (.associate first second) => some (first, second)
  | _ => none

/-- The deed associates the two paths with each other, in one order or the other. -/
def Deed.associates (path other : String) : Deed → Bool
  | request (.associate first second) =>
    decide (first = path ∧ second = other ∨ first = other ∧ second = path)
  | _ => false

/-- The stored objects of a class that a run has associated with a path, in the order in which it
has associated them. -/
def related (deeds : List Deed) (path className : String) : List String :=
  (deeds.filterMap fun d => d.association?.bind (otherEnd? path)).filter
    ((course .empty deeds).isStoredOf className)

section Associations

variable {b b' : Broker}

theorem Snapshot.associations {path : String} {outcome : Except Error (Option Handle)}
    (h : Snapshot path b outcome b') : b'.associations = b.associations := by
  cases h <;> rfl

theorem keeps_associations_snapshot (path : String) :
    (snapshot path).Keeps Broker.associations :=
  fun b => (run_snapshot path b).associations

theorem keeps_associations_open (paths : List String) :
    (fetchAll paths >>= openCursor).Keeps Broker.associations := by
  have hfetch : (fetchAll paths).Keeps Broker.associations := fun b =>
    (run_fetchAll paths b).keeps (I := fun now => now.associations = b.associations)
      (fun _ _ _ _ hs hnow => hs.associations.trans hnow) rfl
  exact Keeps.bind hfetch fun _ _ => rfl

/-- Fetching associates nothing. -/
theorem Request.IsFetch.associations {r : Request} (hr : r.IsFetch) (b : Broker) :
    (r.after b).associations = b.associations := by
  have hnote (call : Call) : (note call).Keeps Broker.associations := fun _ => rfl
  cases r with
  | object path =>
    exact Keeps.bind (keeps_associations_snapshot path) (fun _ => Keeps.require _ _) b
  | fetch path => exact Keeps.bind (hnote _) (fun _ => keeps_associations_snapshot path) b
  | query wql =>
    have hquery : (runQuery wql).Keeps Broker.associations := by
      refine Keeps.bind (hnote _) fun _ => Keeps.bind (Keeps.ofExcept _) fun q => ?_
      refine Keeps.bind (fun now => ?_) fun paths => keeps_associations_open paths
      exact congrArg (fun ran => ran.2.associations) (run_answer q now now.trail)
    exact hquery b
  | enumerate className =>
    have hlisting : (runEnumeration className).Keeps Broker.associations := by
      refine Keeps.bind (hnote _) fun _ => Keeps.bind ?_ fun _ => Keeps.bind Keeps.state fun now =>
        keeps_associations_open _
      exact Keeps.bind Keeps.state fun _ => Keeps.require _ _
    exact hlisting b
  | _ => exact hr.elim

theorem associations_insert (className : String) (values : List (String × Variant)) (b : Broker) :
    (Request.after b (.insert className values)).associations = b.associations := by
  show ((Broker.insert className values).run b).2.associations = _
  rcases insert_cases className values b with ⟨e, hrun⟩ | ⟨c, stored, -, -, hrun⟩ <;> rw [hrun]

theorem associations_schedule (path name : String) (v : Variant) (b : Broker) :
    (Request.after b (.schedule path name v)).associations = b.associations := by
  show ((Broker.schedule path name v).run b).2.associations = _
  rcases schedule_cases path name v b with ⟨e, hrun, -⟩ | ⟨o, -, hrun⟩ <;> rw [hrun]

theorem associations_setProperty (path name : String) (v : Variant) (b : Broker) :
    (Request.after b (.setProperty path name v)).associations = b.associations := by
  show ((Broker.setProperty path name v).run b).2.associations = _
  rcases setProperty_cases path name v b with ⟨e, hrun⟩ | ⟨o, -, hrun⟩ <;> rw [hrun]

theorem associations_insertJob (states : List (BitVec 16)) (code : BitVec 16)
    (description : String) (b : Broker) :
    (Request.after b (.insertJob states code description)).associations = b.associations := by
  obtain ⟨deeds, hdeeds, hall⟩ := insertJob_course states code description b
  rw [hdeeds]
  refine course_keeps (I := fun now => now.associations = b.associations)
    (fun d hd now hnow => ?_) rfl
  cases hall d hd with
  | define => exact hnow
  | insert => exact (associations_insert _ _ now).trans hnow
  | queue => exact (associations_schedule _ _ _ now).trans hnow

/-- **Associations are kept in the order in which they are made**, and nothing else is. -/
theorem Deed.associations_after (d : Deed) (b : Broker) :
    (d.after b).associations = b.associations ++ d.association?.toList := by
  have hnothing (h : (d.after b).associations = b.associations) (hd : d.association? = none) :
      (d.after b).associations = b.associations ++ d.association?.toList := by
    rw [h, hd, Option.toList_none, List.append_nil]
  have hledger (h : ledger (d.after b) = ledger b) (hd : d.association? = none) :
      (d.after b).associations = b.associations ++ d.association?.toList :=
    hnothing (congrArg (fun held => held.2.1) h) hd
  have hbring (o : LiveObject) : (bring o).Keeps ledger := fun _ => rfl
  cases d with
  | call path method => exact hnothing rfl rfl
  | outputs m results =>
    refine hledger ?_ rfl
    have houtputs : (bringOutputs m results).Keeps ledger := by
      unfold bringOutputs
      split
      · exact Keeps.pure _
      · exact Keeps.bind (Keeps.ofExcept _) fun _ => Keeps.bind (hbring _) fun _ => Keeps.pure _
    exact houtputs b
  | request r =>
    cases r with
    | associate first second => rfl
    | defineClass c => exact hnothing rfl rfl
    | insert className values => exact hnothing (associations_insert className values b) rfl
    | insertJob states code description =>
      exact hnothing (associations_insertJob states code description b) rfl
    | schedule path name v => exact hnothing (associations_schedule path name v b) rfl
    | setProperty path name v => exact hnothing (associations_setProperty path name v b) rfl
    | remove path => exact hnothing rfl rfl
    | requireCredentials c => exact hnothing rfl rfl
    | clearCalls => exact hnothing rfl rfl
    | object path => exact hnothing (Request.IsFetch.associations (r := .object path) trivial b) rfl
    | fetch path => exact hnothing (Request.IsFetch.associations (r := .fetch path) trivial b) rfl
    | query wql => exact hnothing (Request.IsFetch.associations (r := .query wql) trivial b) rfl
    | enumerate className =>
      exact hnothing (Request.IsFetch.associations (r := .enumerate className) trivial b) rfl
    | classObject name =>
      have hnamed : (classNamed name).Keeps ledger :=
        Keeps.bind Keeps.state fun _ => Keeps.require _ _
      exact hledger (Keeps.bind hnamed (fun _ => hbring _) b) rfl
    | logIn namespaceName credentials =>
      exact hnothing (onlyCalled_logIn namespaceName credentials b).associations rfl
    | next cursor => exact hledger (keeping_ledger.next cursor b) rfl
    | get h name => exact hledger (keeping_ledger.get h name b) rfl
    | put h name v => exact hledger (keeping_ledger.put h name v b) rfl
    | properties h => exact hledger (keeping_ledger.properties h b) rfl
    | spawn h => exact hledger (keeping_ledger.spawn h b) rfl
    | clone h => exact hledger (keeping_ledger.clone h b) rfl
    | signature h method => exact hledger (keeping_ledger.signature h method b) rfl
    | text h => exact hledger (keeping_ledger.text h b) rfl

theorem associations_course (b : Broker) (deeds : List Deed) :
    (course b deeds).associations = b.associations ++ deeds.filterMap Deed.association? := by
  induction deeds generalizing b with
  | nil => exact (List.append_nil _).symm
  | cons d deeds ih =>
    rw [course_cons, ih, d.associations_after, List.append_assoc]
    cases hd : d.association? <;> simp [hd]

end Associations

/-! ## Who is related -/

theorem otherEnd?_eq_some_iff {path other : String} {pair : String × String} :
    otherEnd? path pair = some other ↔
      pair.1 = path ∧ pair.2 = other ∨ pair.1 = other ∧ pair.2 = path := by
  unfold otherEnd?
  by_cases hfirst : pair.1 = path <;> by_cases hsecond : pair.2 = path <;>
    simp [hfirst, hsecond, eq_comm]

/-- A deed adds a path to those that are associated with another exactly if it associates them. -/
theorem Deed.partner_eq (d : Deed) (path other : String) :
    (d.association?.bind (otherEnd? path) == some other) = d.associates path other := by
  have hother (first second : String) : (otherEnd? path (first, second) == some other) =
      decide (first = path ∧ second = other ∨ first = other ∧ second = path) := by
    rw [Bool.eq_iff_iff, beq_iff_eq, otherEnd?_eq_some_iff, decide_eq_true_iff]
  cases d with
  | request r =>
    cases r with
    | associate first second => exact hother first second
    | _ => rfl
  | _ => rfl

theorem Deed.associates_comm (d : Deed) (path other : String) :
    d.associates path other = d.associates other path := by
  unfold Deed.associates
  split
  · rw [decide_eq_decide]
    exact or_comm
  · rfl

/-- **Each association counts once** among the `related` objects, whichever of its ends was named
first. -/
theorem count_related {deeds : List Deed} {other : String} {o : StoredObject}
    (ho : (course .empty deeds).objects.get? other = some o) (path : String) :
    (related deeds path o.className).count other = deeds.countP (Deed.associates path other) := by
  have hstored : (course .empty deeds).isStoredOf o.className other = true := by
    simp [isStoredOf, ho, StoredObject.isOf, Text.sameWord]
  unfold related
  rw [List.count_filter hstored, List.count_filterMap]
  exact List.countP_congr fun d _ => by rw [d.partner_eq]

/-- **Being `related` is symmetric.** -/
theorem mem_related_comm {deeds : List Deed} {path other : String} {o o' : StoredObject}
    (ho : (course .empty deeds).objects.get? path = some o)
    (ho' : (course .empty deeds).objects.get? other = some o') :
    other ∈ related deeds path o'.className ↔ path ∈ related deeds other o.className := by
  have hsame : Deed.associates path other = Deed.associates other path :=
    funext fun d => d.associates_comm path other
  rw [← List.count_pos_iff, ← List.count_pos_iff, count_related ho' path, count_related ho other,
    hsame]

/-- Who is related is stored. -/
theorem stored_of_mem_related {deeds : List Deed} {path className other : String}
    (h : other ∈ related deeds path className) :
    ∃ o, (course .empty deeds).objects.get? other = some o := by
  have hstored := (List.mem_filter.mp h).2
  unfold isStoredOf at hstored
  cases ho : (course .empty deeds).objects.get? other with
  | some o => exact ⟨o, rfl⟩
  | none =>
    rw [ho] at hstored
    cases hstored

theorem answer_associators (deeds : List Deed) (path className : String) :
    ((answer (.associators path className)).run (course .empty deeds)).1 =
      .ok (related deeds path className) := by
  have hanswer : ((answer (.associators path className)).run (course .empty deeds)).1 =
      .ok (((course .empty deeds).associations.filterMap (otherEnd? path)).filter
        ((course .empty deeds).isStoredOf className)) := rfl
  rw [hanswer, associations_course, List.filterMap_append, List.filterMap_filterMap]
  rfl

/-! ## What a session finds -/

/-- What a session finds when it asks for the objects of a class that are related to the one at a
path, if they are stored at the given paths: all of them, in order, and the first of them alone. -/
structure FindsRelated {ω : Type} (routines : Routines ω) (config : SessionConfig) (pace : Pace)
    (own : ω) (b : Broker) (path className : String) (paths : List String) : Prop where
  query : ∃ cursor b',
    ((session routines config pace).query (Service.relatedQuery path className)).run (b, own) =
      (.ok (.ofCursor cursor), b', own) ∧ Returned paths b (b'.cursorRest cursor) b'
  first : ∀ other others, paths = other :: others → ∃ o h b',
    b.objects.get? other = some o ∧
      ((session routines config pace).findRelated path className).run (b, own) =
        (.ok h, b', own) ∧ Reveals b' h other o
  nothing : paths = [] → ∃ b',
    ((session routines config pace).findRelated path className).run (b, own) =
      (.error (Service.noResults (Service.relatedQuery path className)), b', own)

/-- The first result of a query is what its cursor is at. -/
theorem run_findFirst {ω : Type} (routines : Routines ω) (config : SessionConfig) (pace : Pace)
    {own : ω} {b b' : Broker} {wql : String} {cursor : Cursor}
    (hquery : ((session routines config pace).query wql).run (b, own) =
      (.ok (.ofCursor cursor), b', own)) :
    ((session routines config pace).findFirst wql).run (b, own) =
      match b'.cursorRest cursor with
      | [] => (.error (Service.noResults wql), b', own)
      | h :: rest =>
        (.ok h, { b' with cursors := b'.cursors.modify cursor.id fun _ => rest }, own) := by
  unfold Service.findFirst
  rw [run_bind_of_ok hquery]
  have hnext : (Broker.next cursor).run b' =
      match b'.cursorRest cursor with
      | [] => (.ok none, b')
      | h :: rest =>
        (.ok (some h), { b' with cursors := b'.cursors.modify cursor.id fun _ => rest }) :=
    rfl
  cases hrest : b'.cursorRest cursor with
  | nil =>
    rw [hrest] at hnext
    have hend : ((Results.ofCursor cursor).next (session routines config pace).access).run
        (b', own) = (.ok (none, ⟨none⟩), b', own) := by
      show (onFirst (Broker.next cursor) >>= _).run (b', own) = _
      rw [run_bind_of_ok (run_onFirst_of hnext)]
      rfl
    rw [run_bind_of_ok hend]
    rfl
  | cons h rest =>
    rw [hrest] at hnext
    have hfirst : ((Results.ofCursor cursor).next (session routines config pace).access).run
        (b', own) = (.ok (some h, .ofCursor cursor),
          { b' with cursors := b'.cursors.modify cursor.id fun _ => rest }, own) := by
      show (onFirst (Broker.next cursor) >>= _).run (b', own) = _
      rw [run_bind_of_ok (run_onFirst_of hnext)]
      rfl
    rw [run_bind_of_ok hfirst]
    rfl

theorem Tidy.findsRelated {deeds : List Deed} (h : (course .empty deeds).Tidy) {path : String}
    (hpath : Wql.IsEnclosed path) {className : String} (hclass : Wql.IsBare className) {ω : Type}
    (routines : Routines ω) (config : SessionConfig) (pace : Pace) (own : ω) :
    FindsRelated routines config pace own (course .empty deeds) path className
      (related deeds path className) := by
  obtain ⟨cursor, b', hrun, hreturned⟩ := h.run_answered
    (Wql.parse_relatedQuery hpath hclass) (answer_associators deeds path className)
  have hquery : ((session routines config pace).query (Service.relatedQuery path className)).run
      (course .empty deeds, own) = (.ok (.ofCursor cursor), b', own) :=
    run_session_query routines config pace hrun
  have hfind := run_findFirst routines config pace hquery
  refine ⟨⟨cursor, b', hquery, hreturned⟩, fun other others heq => ?_, fun hnone => ?_⟩
  · obtain ⟨o, ho⟩ := stored_of_mem_related (heq ▸ List.mem_cons_self : other ∈ related _ _ _)
    obtain ⟨handle, hget, hreveals⟩ := hreturned.reveals [] other others o heq ho
    obtain ⟨rest, hrest⟩ : ∃ rest, b'.cursorRest cursor = handle :: rest := by
      cases hs : b'.cursorRest cursor with
      | nil => simp [hs] at hget
      | cons first rest =>
        rw [hs] at hget
        exact ⟨rest, by rw [Option.some.inj hget]⟩
    rw [hrest] at hfind
    exact ⟨o, handle, _, ho, hfind, hreveals.later rfl fun _ _ hlo => hlo⟩
  · have hrest : b'.cursorRest cursor = [] := by
      have hlength := hreturned.length
      rw [hnone] at hlength
      exact List.length_eq_zero_iff.mp hlength
    rw [hrest] at hfind
    exact ⟨b', hfind⟩

/-- **What is associated is found, from both ends.** Take a run of a broker (`course`) in which the
names of classes can stand in a query as they are (`Wql.IsBare`), and an object that is stored after
it.

A session that asks for the objects of a class that are related to it is answered with those that
the run has associated with it and that are still stored (`related`), in the order of the
associations; asked for the first, it gets the earliest of them, or the error that there is none
(`FindsRelated`).  Among the objects of its class, another stored object is in the answer as often
as the two were associated, in either order (`Deed.associates`), so that it is in the answer exactly
if the first is in the answer for it. -/
theorem associated_objects_found {deeds : List Deed}
    (hnames : ∀ name c, (course .empty deeds).classes.get? name = some c → Wql.IsBare name)
    {path : String} {o : StoredObject}
    (ho : (course .empty deeds).objects.get? path = some o) :
    (∀ {ω : Type} (routines : Routines ω) (config : SessionConfig) (pace : Pace) (own : ω)
      (className : String), Wql.IsBare className →
        FindsRelated routines config pace own (course .empty deeds) path className
          (related deeds path className)) ∧
    ∀ other o', (course .empty deeds).objects.get? other = some o' →
      Wql.IsBare o'.className ∧
      (related deeds path o'.className).count other = deeds.countP (Deed.associates path other) ∧
      (other ∈ related deeds path o'.className ↔ path ∈ related deeds other o.className) := by
  have hrooted := rooted_course deeds
  have htidy : (course .empty deeds).Tidy :=
    ⟨hrooted.named, fun name c hc => (hnames name c hc).identifier, hrooted.classed,
      hrooted.numbered⟩
  have hbare {other : String} {o' : StoredObject}
      (ho' : (course .empty deeds).objects.get? other = some o') : Wql.IsBare o'.className := by
    obtain ⟨c, hc⟩ := hrooted.classed other o' ho'
    exact hnames _ c hc
  obtain ⟨n, hpath, -⟩ := hrooted.numbered path o ho
  have henclosed : Wql.IsEnclosed path := hpath ▸ (hbare ho).isEnclosed n
  refine ⟨fun routines config pace own className hclass =>
    htidy.findsRelated henclosed hclass routines config pace own, fun other o' ho' => ?_⟩
  exact ⟨hbare ho', count_related ho' path, mem_related_comm ho ho'⟩

/-- The path of a widget. -/
abbrev widget (n : Nat) : String := instancePath "Widget" n

/-- Of three widgets the first is associated with both others, with one of them twice, and with
itself; then the third is removed. -/
def widgetsAssociated : List Deed :=
  widgetStored ++
    [.request (.insert "Widget" []), .request (.insert "Widget" []),
      .request (.associate (widget 1) (widget 2)), .request (.associate (widget 3) (widget 1)),
      .request (.associate (widget 2) (widget 1)), .request (.associate (widget 1) (widget 1)),
      .request (.remove (widget 3))]

/-- The second widget is found twice from the first one, and the first from the second one. -/
theorem widgets_find_each_other :
    let b := course .empty widgetsAssociated
    related widgetsAssociated (widget 1) "Widget" = [widget 2, widget 2, widget 1] ∧
      (∃ o h b', b.objects.get? (widget 2) = some o ∧
        ((session (fun _ _ => pure []) .standard ⟨0, fun _ _ => ⟨0⟩⟩).findRelated (widget 1)
          "Widget").run (b, ()) = (.ok h, b', ()) ∧ Reveals b' h (widget 2) o) ∧
      widget 1 ∈ related widgetsAssociated (widget 2) "Widget" := by
  intro b
  have hrelated :
      related widgetsAssociated (widget 1) "Widget" = [widget 2, widget 2, widget 1] := by
    decide +kernel
  have hnames : ∀ name c, b.classes.get? name = some c → Wql.IsBare name := by
    intro name c hc
    have hclasses : b.classes = ⟨[("Widget", namedClass)]⟩ := rfl
    rw [hclasses] at hc
    simp only [Table.get?, Table.lookup?] at hc
    split at hc
    · rename_i hname
      rw [← hname]
      decide
    · cases hc
  have hfirst : b.objects.get? (widget 1) = some ⟨"Widget", ⟨[("Name", .text "first")]⟩, []⟩ := rfl
  have hsecond : b.objects.get? (widget 2) = some ⟨"Widget", ⟨[]⟩, []⟩ := rfl
  obtain ⟨hfinds, hothers⟩ := associated_objects_found hnames hfirst
  obtain ⟨-, -, hcomm⟩ := hothers (widget 2) _ hsecond
  refine ⟨hrelated, ?_, hcomm.mp ?_⟩
  · exact (hfinds _ _ _ () "Widget" (by decide)).first _ _ hrelated
  · show widget 2 ∈ related widgetsAssociated (widget 1) "Widget"
    rw [hrelated]
    exact List.mem_cons_self

end Broker

end CimBroker
