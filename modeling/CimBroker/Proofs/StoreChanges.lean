/-
# CimBroker.Proofs.StoreChanges — what can become of the store

Whatever is done to a broker, five things can become of what it holds: nothing at all, a class is
defined, an object is stored under the next number, an object is replaced by another of its class,
or one is taken out (`Stores`).  Said once, this gives every invariant of the store by looking at
the five.  The first of them is `Rooted`: classes are found under their names, stored objects belong
to classes that are there, and the path of an object carries a number that was given out.

`Deed.stores` says it of one deed, `stores_course` of a run, and
`Stores.objects` and `Stores.numbers` are what others use.  Live objects are left out, and so is
what a change in a queue will do once it is applied.
-/
import CimBroker.Proofs.StoreDeeds

namespace CimBroker.Broker

open CimBroker.Action

/-! ## What a broker holds -/

/-- What a broker stores, and the number that it gave out last. -/
def holdings (b : Broker) : Table ClassDef × Table StoredObject × Nat :=
  (b.classes, b.objects, b.lastId)

theorem classes_of_holdings {b b' : Broker} (h : holdings b' = holdings b) :
    b'.classes = b.classes :=
  congrArg Prod.fst h

theorem objects_of_holdings {b b' : Broker} (h : holdings b' = holdings b) :
    b'.objects = b.objects :=
  congrArg (fun held => held.2.1) h

theorem lastId_of_holdings {b b' : Broker} (h : holdings b' = holdings b) :
    b'.lastId = b.lastId :=
  congrArg (fun held => held.2.2) h

theorem Adds.holdings {known : Variant → Prop} {b b' : Broker} (h : Adds known b b') :
    holdings b' = holdings b := by
  unfold Broker.holdings
  rw [h.classes, h.objects, h.lastId]

theorem Alike.holdings {b b' : Broker} (h : Alike b b') : holdings b' = holdings b := by
  unfold Broker.holdings
  rw [h.classes, h.objects, h.lastId]

/-- What a broker holds, and what its owner has said about it. -/
def ledger (b : Broker) :
    (Table ClassDef × Table StoredObject × Nat) × List (String × String) × Option Credentials :=
  (holdings b, b.associations, b.credentials)

/-- The operations on objects write down what is done and hand things out, and that is all. -/
theorem keeping_ledger : access.Keeping ledger := by
  have hnote (call : Call) : (note call).Keeps ledger := fun _ => rfl
  have hbring (o : LiveObject) : (bring o).Keeps ledger := fun _ => rfl
  have hlive (h : Handle) : (liveObject h).Keeps ledger :=
    Keeps.bind Keeps.state fun _ => Keeps.require _ _
  have hclone (h : Handle) : (clone h).Keeps ledger := Keeps.bind (hlive h) hbring
  have hkept (v : Variant) : (kept v).Keeps ledger := by
    unfold kept
    split
    · exact Keeps.bind (hclone _) fun _ => Keeps.pure _
    · exact Keeps.pure _
  have hparameters (parameters : Declarations) : (bringParameters parameters).Keeps ledger := by
    unfold bringParameters
    split
    · exact Keeps.bind (hbring _) fun _ => Keeps.pure _
    · exact Keeps.pure _
  refine ⟨fun h name => ?_, fun h name v => ?_, fun h => ?_, fun h => ?_, hclone,
    fun h method => ?_, fun h => ?_, fun c => ?_⟩
  · exact Keeps.bind (hnote _) fun _ => Keeps.bind (hlive h) fun _ => Keeps.ofExcept _
  · have hguarded : (do
        let o ← liveObject h
        Action.ofExcept (o.definition.checkAssignable name v)
        let v ← kept v
        setLiveValues h (o.values.set name v)).Keeps ledger := by
      refine Keeps.bind (hlive h) fun o => ?_
      refine Keeps.bind (Keeps.ofExcept _) fun _ => ?_
      exact Keeps.bind (hkept v) fun _ _ => rfl
    refine Keeps.bind (hnote _) fun _ => ?_
    split
    · exact Keeps.bind (Keeps.throw _) fun _ => hguarded
    · exact hguarded
  · exact Keeps.bind (hlive h) fun _ => Keeps.pure _
  · refine Keeps.bind (hlive h) fun o => ?_
    split
    · exact hbring _
    · exact Keeps.throw _
  · refine Keeps.bind (hlive h) fun o => ?_
    refine Keeps.bind (Keeps.require _ _) fun m => ?_
    refine Keeps.bind (hparameters m.inputs) fun _ => ?_
    exact Keeps.bind (hparameters m.outputs) fun _ => Keeps.pure _
  · exact Keeps.bind (hlive h) fun _ => Keeps.pure _
  · intro b
    show ledger ((next c).run b).2 = ledger b
    unfold next
    rw [run_ofRun]
    split <;> rfl

/-- The changes of an object do not touch its class. -/
theorem className_advance (o : StoredObject) :
    (StoredObject.advance o).className = o.className := by
  unfold StoredObject.advance
  split <;> rfl

/-! ## Changes of the store -/

/-- What becomes of the store, with the paths under which objects are stored on the way. -/
inductive Stores : List String → Broker → Broker → Prop
  | same {b b' : Broker} (h : holdings b' = holdings b) : Stores [] b b'
  | define (b : Broker) (c : ClassDef) : Stores [] b { b with classes := b.classes.set c.name c }
  | insert {b : Broker} {className : String} {c : ClassDef}
      (hc : b.classes.get? className = some c) (values : Table Variant) :
      Stores [instancePath c.name (b.lastId + 1)] b
        { b with
          lastId := b.lastId + 1
          objects := b.objects.set (instancePath c.name (b.lastId + 1)) ⟨c.name, values, []⟩ }
  | replace {b : Broker} {path : String} {o o' : StoredObject}
      (ho : b.objects.get? path = some o) (hclass : o'.className = o.className) :
      Stores [] b { b with objects := b.objects.set path o' }
  | erase (b : Broker) (path : String) : Stores [] b { b with objects := b.objects.erase path }
  | trans {paths more : List String} {b b' b'' : Broker} (h : Stores paths b b')
      (h' : Stores more b' b'') : Stores (paths ++ more) b b''

section Changes

variable {paths : List String} {b b' b'' : Broker}

theorem Stores.refl (b : Broker) : Stores [] b b := .same rfl

/-- Nothing more is stored. -/
theorem Stores.later (h : Stores paths b b') (h' : Stores [] b' b'') : Stores paths b b'' := by
  have := h.trans h'
  rwa [List.append_nil] at this

theorem Snapshot.stores {path : String} {outcome : Except Error (Option Handle)}
    (h : Snapshot path b outcome b') : Stores [] b b' := by
  cases h with
  | definition => exact .same rfl
  | nothing => exact .refl b
  | found hpath ho => exact (Stores.replace ho (className_advance _)).trans (.same rfl)
  | orphan hpath ho => exact .replace ho (className_advance _)

theorem Snapshots.stores {outcome : Except Error (List Handle)}
    (h : Snapshots paths b outcome b') : Stores [] b b' :=
  h.keeps (I := Stores [] b) (fun _ _ _ _ hstep hb => hb.trans hstep.stores) (.refl b)

theorem Request.IsFetch.stores {r : Request} (hr : r.IsFetch) (b : Broker) :
    Stores [] b (r.after b) := by
  obtain ⟨b₁, outcome, b₂, hbefore, hsnapshots, hafter⟩ := hr.snapshots b
  exact ((Stores.same hbefore.holdings).trans hsnapshots.stores).trans (.same hafter.holdings)

theorem stores_schedule (path name : String) (v : Variant) (b : Broker) :
    Stores [] b (Request.after b (.schedule path name v)) := by
  show Stores [] b ((Broker.schedule path name v).run b).2
  rcases schedule_cases path name v b with ⟨e, hrun, -⟩ | ⟨o, ho, hrun⟩
  · rw [hrun]
    exact .refl b
  · rw [hrun]
    exact .replace ho rfl

theorem stores_setProperty (path name : String) (v : Variant) (b : Broker) :
    Stores [] b (Request.after b (.setProperty path name v)) := by
  show Stores [] b ((Broker.setProperty path name v).run b).2
  rcases setProperty_cases path name v b with ⟨e, hrun⟩ | ⟨o, ho, hrun⟩
  · rw [hrun]
    exact .refl b
  · rw [hrun]
    exact .replace ho rfl

/-! ## Storing -/

/-- The outcome of storing an object, and the broker after it: one object is stored at most, and if
a path comes back, then under that path. -/
def StoresOne (b : Broker) : Except Error String × Broker → Prop
  | (outcome, b') => ∃ paths, Stores paths b b' ∧ paths.length ≤ 1 ∧
      ∀ path, outcome = .ok path → path ∈ paths

theorem storesOne_insert (className : String) (values : List (String × Variant)) (b : Broker) :
    StoresOne b ((insert className values).run b) := by
  rcases insert_cases className values b with ⟨e, hrun⟩ | ⟨c, stored, hc, -, hrun⟩
  · rw [hrun]
    exact ⟨[], .refl b, Nat.zero_le 1, nofun⟩
  · rw [hrun]
    refine ⟨_, .insert hc stored, Nat.le_refl 1, ?_⟩
    rintro path ⟨⟩
    exact List.mem_singleton_self _

/-- What comes after storing may change what is stored, but stores nothing more. -/
theorem StoresOne.followed {action : Action Broker String} {next : String → Action Broker PUnit}
    (h : StoresOne b (action.run b)) (hnext : ∀ path b, Stores [] b ((next path).run b).2) :
    StoresOne b ((action >>= fun path => next path >>= fun _ => pure path).run b) := by
  rw [run_bind]
  rcases hrun : action.run b with ⟨outcome, b₁⟩
  rw [hrun] at h
  obtain ⟨paths, hstores, hlength, hissued⟩ := h
  cases outcome with
  | error e => exact ⟨paths, hstores, hlength, nofun⟩
  | ok path =>
    show StoresOne b ((next path >>= fun _ => pure path).run b₁)
    have hlater := hnext path b₁
    rw [run_bind]
    rcases hrest : (next path).run b₁ with ⟨outcome, b₂⟩
    rw [hrest] at hlater
    cases outcome with
    | error e => exact ⟨paths, hstores.later hlater, hlength, nofun⟩
    | ok _ =>
      refine ⟨paths, hstores.later hlater, hlength, ?_⟩
      rintro _ ⟨⟩
      exact hissued path rfl

theorem storesOne_insertJobInstance (states : List (BitVec 16)) (code : BitVec 16)
    (description : String) (b : Broker) :
    StoresOne b ((insertJobInstance states code description).run b) := by
  refine (storesOne_insert jobClass _ b).followed fun path now => ?_
  obtain ⟨deeds, hdeeds, hall⟩ := schedules_course path (states.drop 1) now
  rw [hdeeds]
  refine course_keeps (I := Stores [] now) (fun d hd later hlater => ?_) (.refl now)
  obtain ⟨n, rfl⟩ := hall d hd
  exact hlater.trans (stores_schedule _ _ _ later)

theorem storesOne_insertJob (states : List (BitVec 16)) (code : BitVec 16) (description : String)
    (b : Broker) : StoresOne b ((insertJob states code description).run b) := by
  have hjob : insertJob states code description = Action.state >>= fun b =>
      if !b.hasClass jobClass then
        defineClass (.job jobClass) >>= fun _ => insertJobInstance states code description
      else insertJobInstance states code description := rfl
  rw [hjob, run_bind_of_ok (show Action.state.run b = (.ok b, b) from rfl)]
  cases b.hasClass jobClass with
  | true => exact storesOne_insertJobInstance states code description b
  | false =>
    let defined : Broker := { b with classes := b.classes.set jobClass (.job jobClass) }
    obtain ⟨paths, hstores, hissued⟩ := storesOne_insertJobInstance states code description defined
    exact ⟨paths, (Stores.define b (.job jobClass)).trans hstores, hissued⟩

/-! ## Deeds -/

/-- The path that comes back from a deed that stores an object. -/
def Deed.issued? (b : Broker) : Deed → Option String
  | request (.insert className values) => ((Broker.insert className values).run b).1.toOption
  | request (.insertJob states code description) =>
    ((Broker.insertJob states code description).run b).1.toOption
  | _ => none

/-- The deed is to store an object. -/
def Deed.isInsert : Deed → Bool
  | request (.insert _ _) | request (.insertJob _ _ _) => true
  | _ => false

theorem StoresOne.deed {run : Except Error String × Broker} (h : StoresOne b run) :
    ∃ paths, Stores paths b run.2 ∧ paths.length ≤ 1 ∧ ∀ path ∈ run.1.toOption, path ∈ paths := by
  obtain ⟨outcome, b'⟩ := run
  obtain ⟨paths, hstores, hlength, hissued⟩ := h
  refine ⟨paths, hstores, hlength, fun path hpath => hissued path ?_⟩
  cases outcome with
  | error e => cases hpath
  | ok found => exact congrArg Except.ok (Option.some.inj hpath)

/-- **What becomes of the store in one deed.** -/
theorem Deed.stores (d : Deed) (b : Broker) :
    ∃ paths, Stores paths b (d.after b) ∧ paths.length ≤ d.isInsert.toNat ∧
      ∀ path ∈ d.issued? b, path ∈ paths := by
  have hnothing (h : Stores [] b (d.after b)) (hissued : d.issued? b = none) :
      ∃ paths, Stores paths b (d.after b) ∧ paths.length ≤ d.isInsert.toNat ∧
        ∀ path ∈ d.issued? b, path ∈ paths := by
    refine ⟨[], h, Nat.zero_le _, fun path hpath => ?_⟩
    rw [hissued] at hpath
    cases hpath
  have hquiet (hd : d.IsQuiet) : Stores [] b (d.after b) := .same (hd.adds b).holdings
  cases d with
  | call path method => exact hnothing (hquiet trivial) rfl
  | outputs m results => exact hnothing (hquiet trivial) rfl
  | request r =>
    cases r with
    | defineClass c => exact hnothing (.define b c) rfl
    | insert className values => exact (storesOne_insert className values b).deed
    | insertJob states code description =>
      exact (storesOne_insertJob states code description b).deed
    | schedule path name v => exact hnothing (stores_schedule path name v b) rfl
    | setProperty path name v => exact hnothing (stores_setProperty path name v b) rfl
    | remove path => exact hnothing (.erase b path) rfl
    | object path => exact hnothing (Request.IsFetch.stores (r := .object path) trivial b) rfl
    | fetch path => exact hnothing (Request.IsFetch.stores (r := .fetch path) trivial b) rfl
    | query wql => exact hnothing (Request.IsFetch.stores (r := .query wql) trivial b) rfl
    | enumerate className =>
      exact hnothing (Request.IsFetch.stores (r := .enumerate className) trivial b) rfl
    | put h name v => exact hnothing (.same (congrArg Prod.fst (keeping_ledger.put h name v b))) rfl
    | _ => exact hnothing (hquiet trivial) rfl

/-- What becomes of the store in a row of deeds. -/
theorem stores_course (b : Broker) (deeds : List Deed) :
    ∃ paths, Stores paths b (course b deeds) := by
  induction deeds generalizing b with
  | nil => exact ⟨[], .refl b⟩
  | cons d deeds ih =>
    obtain ⟨paths, hfirst, -⟩ := d.stores b
    obtain ⟨more, hrest⟩ := ih (d.after b)
    exact ⟨paths ++ more, hfirst.trans hrest⟩

/-! ## Invariants of the store -/

/-- What setting and erasing keep is kept. -/
theorem Stores.objects {I : Table StoredObject → Prop} (h : Stores paths b b')
    (hset : ∀ t path o, I t → I (t.set path o)) (herase : ∀ t path, I t → I (t.erase path))
    (hb : I b.objects) : I b'.objects := by
  induction h with
  | same h =>
    rw [objects_of_holdings h]
    exact hb
  | define => exact hb
  | insert => exact hset _ _ _ hb
  | replace => exact hset _ _ _ hb
  | erase => exact herase _ _ hb
  | trans _ _ ih ih' => exact ih' (ih hb)

/-! ## Numbers -/

/-- The number that stands in quotes at the end of the path of an instance. -/
def pathNumber (path : String) : Nat :=
  Nat.ofDigitChars 10 (path.toList.reverse.tail.takeWhile (· != '"')).reverse 0

/-- The number of an instance can be read off its path. -/
theorem pathNumber_instancePath (className : String) (n : Nat) :
    pathNumber (instancePath className n) = n := by
  have hlist : (instancePath className n).toList =
      className.toList ++ ".InstanceID=\"".toList ++ Nat.toDigits 10 n ++ ['"'] := by
    simp [instancePath]
  have hdigits : ∀ c ∈ (Nat.toDigits 10 n).reverse, (c != '"') = true := by
    intro c hc
    have hdigit := Nat.isDigit_of_mem_toDigits (by decide) (by decide) (List.mem_reverse.mp hc)
    rw [bne_iff_ne]
    rintro rfl
    exact absurd hdigit (by decide)
  unfold pathNumber
  rw [hlist, List.reverse_append, List.reverse_append, List.reverse_append]
  -- the digits end, read backwards, at the quote in front of them
  show Nat.ofDigitChars 10 (((Nat.toDigits 10 n).reverse ++ '"' ::
    (".InstanceID=".toList.reverse ++ className.toList.reverse)).takeWhile (· != '"')).reverse 0 = n
  rw [List.takeWhile_append_of_pos hdigits, List.takeWhile_cons_of_neg (by decide),
    List.append_nil, List.reverse_reverse]
  exact Nat.ofDigitChars_ten_toDigits

theorem Stores.lastId_eq (h : Stores paths b b') : b'.lastId = b.lastId + paths.length := by
  induction h with
  | same h => exact lastId_of_holdings h
  | define => rfl
  | insert => rfl
  | replace => rfl
  | erase => rfl
  | trans _ _ ih ih' => rw [ih', ih, List.length_append, Nat.add_assoc]

/-- Objects are stored under the numbers that come next. -/
theorem Stores.numbers (h : Stores paths b b') :
    paths.map pathNumber = List.range' (b.lastId + 1) paths.length := by
  induction h with
  | insert => simp [pathNumber_instancePath]
  | trans h _ ih ih' =>
    rw [List.map_append, ih, ih', h.lastId_eq, List.length_append, ← List.range'_append_1]
    congr 2
    omega
  | _ => rfl

/-! ## What holds after every run -/

/-- Classes are found under their names.  What is stored belongs to a class that is there, under a
path with a number that was given out. -/
structure Rooted (b : Broker) : Prop where
  named : ∀ name c, b.classes.get? name = some c → c.name = name
  classed : ∀ path o, b.objects.get? path = some o → ∃ c, b.classes.get? o.className = some c
  numbered : ∀ path o, b.objects.get? path = some o →
    ∃ n, path = instancePath o.className n ∧ n ≤ b.lastId

theorem rooted_empty : Rooted .empty :=
  ⟨nofun, nofun, nofun⟩

namespace Rooted

/-- The path of the next object is not in use, whatever its class. -/
theorem fresh (h : b.Rooted) (className : String) :
    b.objects.get? (instancePath className (b.lastId + 1)) = none := by
  refine Option.eq_none_iff_forall_not_mem.mpr fun o ho => ?_
  obtain ⟨n, hpath, hn⟩ := h.numbered _ o ho
  have hnumber := congrArg pathNumber hpath
  rw [pathNumber_instancePath, pathNumber_instancePath] at hnumber
  omega

theorem congr (h : b.Rooted) (hsame : holdings b' = holdings b) : b'.Rooted := by
  obtain ⟨hnamed, hclassed, hnumbered⟩ := h
  rw [← classes_of_holdings hsame] at hnamed hclassed
  rw [← objects_of_holdings hsame] at hclassed hnumbered
  rw [← lastId_of_holdings hsame] at hnumbered
  exact ⟨hnamed, hclassed, hnumbered⟩

theorem define (h : b.Rooted) (c : ClassDef) :
    Rooted { b with classes := b.classes.set c.name c } := by
  refine ⟨fun name c' hc' => ?_, fun path o ho => ?_, h.numbered⟩
  · rw [Table.get?_set] at hc'
    split at hc'
    · rename_i hname
      rw [← Option.some.inj hc']
      exact hname
    · exact h.named name c' hc'
  · show ∃ c', (b.classes.set c.name c).get? o.className = some c'
    rw [Table.get?_set]
    split
    · exact ⟨c, rfl⟩
    · exact h.classed path o ho

theorem insert (h : b.Rooted) {className : String} {c : ClassDef}
    (hc : b.classes.get? className = some c) (values : Table Variant) :
    Rooted { b with
      lastId := b.lastId + 1
      objects := b.objects.set (instancePath c.name (b.lastId + 1)) ⟨c.name, values, []⟩ } := by
  refine ⟨h.named, fun path o ho => ?_, fun path o ho => ?_⟩
  · rw [Table.get?_set] at ho
    split at ho
    · cases ho
      refine ⟨c, ?_⟩
      rw [← h.named className c hc] at hc
      exact hc
    · exact h.classed path o ho
  · rw [Table.get?_set] at ho
    split at ho
    · rename_i hpath
      cases ho
      exact ⟨b.lastId + 1, hpath.symm, Nat.le_refl _⟩
    · obtain ⟨n, hpath, hn⟩ := h.numbered path o ho
      exact ⟨n, hpath, Nat.le_succ_of_le hn⟩

/-- An object may be put in the place of one of the same class. -/
theorem replace (h : b.Rooted) {path : String} {o o' : StoredObject}
    (ho : b.objects.get? path = some o) (hclass : o'.className = o.className) :
    Rooted { b with objects := b.objects.set path o' } := by
  refine ⟨h.named, fun other o'' ho'' => ?_, fun other o'' ho'' => ?_⟩
  · rw [Table.get?_set] at ho''
    split at ho''
    · cases ho''
      rw [hclass]
      exact h.classed path o ho
    · exact h.classed other o'' ho''
  · rw [Table.get?_set] at ho''
    split at ho''
    · rename_i hpath
      cases ho''
      rw [hclass, ← hpath]
      exact h.numbered path o ho
    · exact h.numbered other o'' ho''

theorem erase (h : b.Rooted) (path : String) :
    Rooted { b with objects := b.objects.erase path } := by
  have hstored {other : String} {o : StoredObject}
      (ho : (b.objects.erase path).get? other = some o) : b.objects.get? other = some o := by
    rw [Table.get?_erase] at ho
    split at ho
    · cases ho
    · exact ho
  exact ⟨h.named, fun other o ho => h.classed other o (hstored ho),
    fun other o ho => h.numbered other o (hstored ho)⟩

/-- **Whatever becomes of the store, it stays in order.** -/
theorem stores (h : b.Rooted) (hstores : Stores paths b b') : b'.Rooted := by
  induction hstores with
  | same hsame => exact h.congr hsame
  | define b c => exact h.define c
  | insert hc values => exact h.insert hc values
  | replace ho hclass => exact h.replace ho hclass
  | erase b path => exact h.erase path
  | trans _ _ ih ih' => exact ih' (ih h)

end Rooted

theorem rooted_course (deeds : List Deed) : (course .empty deeds).Rooted := by
  obtain ⟨paths, hstores⟩ := stores_course .empty deeds
  exact rooted_empty.stores hstores

end Changes

end CimBroker.Broker
