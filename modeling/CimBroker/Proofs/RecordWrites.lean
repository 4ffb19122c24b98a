/-
# CimBroker.Proofs.RecordWrites — what is put of a record, and what is left alone

Putting a record on an object comes down to a row of puts, which depends on the record and on the
properties that the object has and on nothing else (`ObjectAccess.putFields_eq_putEach`).  A row of
puts goes on until one is refused (`ObjectAccess.run_putEach`), whatever the object is and whoever
keeps it.

On an object in memory each put that is accepted changes one value, so that after a row of them all
other values are those that were there before (`Broker.holdsPuts_of_putEach`).  The object may hold
values already, and it may be put into itself.

`Broker.record_put_field_by_field` is the statement, with `FieldTable.puts` for what there is to be
put, `RowEnds` for the journal and `HoldsPuts` for the instance.  `writing_ends_at_size` is a row
that is refused half way.  What can be read of the instance afterwards is left to
`CimBroker.Proofs.RecordRoundTrip`.
-/
import CimBroker.Proofs.Courses
import CimBroker.Proofs.Inputs
import CimBroker.Proofs.RecordRoundTrip

namespace CimBroker

variable {σ ω R E : Type}

/-! ## Rows of puts -/

namespace ObjectAccess

/-- Puts values under names, one after another. -/
def putEach (access : ObjectAccess σ) (h : Handle) : List (String × Variant) → Action σ Unit
  | [] => return ()
  | (name, v) :: rest => do
    access.put h name v
    access.putEach h rest

/-- Writing fields is putting what there is to be put for each. -/
theorem putFields_eq_putEach (access : ObjectAccess σ) (h : Handle) (declared : PropertyBag) (r : R)
    (fields : List (Field R)) : access.putFields h declared r fields =
      access.putEach h (fields.filterMap fun f => f.assignment? declared r) := by
  induction fields with
  | nil => rfl
  | cons f fields ih =>
    rw [putFields_cons, ih, List.filterMap_cons]
    cases f.assignment? declared r with
    | none => rfl
    | some assignment => rfl

/-- Writing a record is putting what there is to be put for the properties that are seen. -/
theorem run_putAll_of_properties [Record R] {access : ObjectAccess σ} {h : Handle}
    {declared : PropertyBag} {b b' : σ} (hrun : (access.properties h).run b = (.ok declared, b'))
    (r : R) : (access.putAll h r).run b = (access.putEach h
      ((Record.table (R := R)).fields.filterMap fun f => f.assignment? declared r)).run b' := by
  unfold putAll
  rw [Action.run_bind_of_ok hrun, putFields_eq_putEach]

/-- **A row of puts goes on until one is refused** (`putEach`). -/
theorem run_putEach (access : ObjectAccess σ) (h : Handle) (row : List (String × Variant)) (b : σ) :
    ∃ accepted rest b', row = accepted ++ rest ∧
      (access.putEach h accepted).run b = (.ok (), b') ∧
      ((rest = [] ∧ (access.putEach h row).run b = (.ok (), b')) ∨
        ∃ name v later e b'', rest = (name, v) :: later ∧
          (access.put h name v).run b' = (.error e, b'') ∧
          (access.putEach h row).run b = (.error e, b'')) := by
  induction row generalizing b with
  | nil => exact ⟨[], [], b, rfl, rfl, .inl ⟨rfl, rfl⟩⟩
  | cons assignment row ih =>
    obtain ⟨name, v⟩ := assignment
    rcases hput : (access.put h name v).run b with ⟨outcome, between⟩
    cases outcome with
    | error e =>
      exact ⟨[], (name, v) :: row, b, rfl, rfl, .inr ⟨name, v, row, e, between, rfl, hput,
        Action.run_bind_of_error hput⟩⟩
    | ok _ =>
      obtain ⟨accepted, rest, b', rfl, haccepted, hend⟩ := ih between
      refine ⟨(name, v) :: accepted, rest, b', rfl,
        (Action.run_bind_of_ok hput).trans haccepted, ?_⟩
      have hrow : (access.putEach h ((name, v) :: (accepted ++ rest))).run b =
          (access.putEach h (accepted ++ rest)).run between := Action.run_bind_of_ok hput
      rw [hrow]
      exact hend

end ObjectAccess

/-- A put that is accepted, as it is written down. -/
def Event.accepted (h : Handle) (assignment : String × Variant) : Event :=
  .put h assignment.1 assignment.2 (.ok ())

/-- How a row of puts ends, and what it has written down: all of it is accepted; or one is refused,
and none is tried after it. -/
inductive RowEnds (h : Handle) (accepted : List (String × Variant)) :
    List (String × Variant) → Except Error Unit → List Event → Prop
  | all : RowEnds h accepted [] (.ok ()) (accepted.map (Event.accepted h))
  | refused {name : String} {v : Variant} {later : List (String × Variant)} {e : Error} :
      RowEnds h accepted ((name, v) :: later) (.error e)
        (accepted.map (Event.accepted h) ++ [.put h name v (.error e)])

namespace Service

/-- A row of puts goes side by side with itself over two connections that answer alike. -/
theorem Alongside.putEach {τ : Type} {names : String → Prop} {T : σ → τ → Prop} {s : Service σ}
    {s' : Service τ} (k : s.Alongside names T s') (h : Handle) (row : List (String × Variant)) :
    Parallel T (s.access.putEach h row).run (s'.access.putEach h row).run := by
  induction row with
  | nil => exact Parallel.pure ()
  | cons assignment row ih => exact Parallel.bind (k.put h assignment.1 assignment.2) fun _ => ih

/-- The journal of a row of puts that are all accepted. -/
theorem run_putEach_journaled (s : Service σ) {h : Handle} {row : List (String × Variant)}
    {st st' : σ × List Event} (hrun : (s.journaled.access.putEach h row).run st = (.ok (), st')) :
    st'.2 = st.2 ++ row.map (Event.accepted h) := by
  induction row generalizing st with
  | nil =>
    cases hrun
    exact (List.append_nil _).symm
  | cons assignment row ih =>
    obtain ⟨⟨⟩, between, hput, hrest⟩ := Action.run_bind_eq_ok.mp hrun
    have hjournaled : (s.journaled.access.put h assignment.1 assignment.2).run st =
        (((s.access.put h assignment.1 assignment.2).run st.1).1,
          ((s.access.put h assignment.1 assignment.2).run st.1).2, st.2 ++ [.put h assignment.1
            assignment.2 ((s.access.put h assignment.1 assignment.2).run st.1).1]) := rfl
    obtain ⟨hok, rfl⟩ := Prod.mk.inj (hjournaled.symm.trans hput)
    rw [hok] at hrest
    rw [ih hrest, List.append_assoc]
    rfl

end Service

/-! ## What there is to be put -/

namespace FieldTable

/-- What is put of a record on an object of a class, in table order: each field that the class
declares, encoded, unless its value is left out on writing. -/
def puts (t : FieldTable R) (c : ClassDef) (r : R) : List (String × Variant) :=
  t.fields.filterMap fun f =>
    if (c.declared? f.name).isSome then (f.encode? r).map fun v => (f.name, v) else none

variable (t : FieldTable R) (c : ClassDef) (r : R)

theorem puts_names_sublist : ((t.puts c r).map Prod.fst).Sublist t.names := by
  unfold puts names
  induction t.fields with
  | nil => exact List.Sublist.slnil
  | cons f fields ih =>
    rw [List.filterMap_cons, List.map_cons]
    split
    · exact ih.cons f.name
    · rename_i assignment hassigned
      have hname : assignment.1 = f.name := by
        split at hassigned
        · obtain ⟨v, -, rfl⟩ := Option.map_eq_some_iff.mp hassigned
          rfl
        · cases hassigned
      rw [List.map_cons, hname]
      exact ih.cons_cons f.name

/-- The fields of a part are put in the place where it is embedded. -/
theorem puts_embed (label : String) (inner : FieldTable E) (place : Lens R E) :
    (t.embed label inner place).puts c r = t.puts c r ++ inner.puts c (place.view r) := by
  unfold puts embed
  rw [List.filterMap_append, List.filterMap_map]
  rfl

/-- What identities hold does not matter. -/
theorem puts_identity {t : FieldTable R} (ht : t.Orderly) {i : Identity R} (hi : i ∈ t.identities)
    (x : String) : t.puts c (i.place.put x r) = t.puts c r := by
  refine List.filterMap_congr fun f hf => ?_
  have hapart : f.place.Apart i.place := (List.pairwise_append.mp ht.apart).2.2
    ⟨_, f.place⟩ (List.mem_map.mpr ⟨f, hf, rfl⟩) ⟨_, i.place⟩ (List.mem_map.mpr ⟨i, hi, rfl⟩)
  have hencode : f.encode? (i.place.put x r) = f.encode? r := by
    unfold Field.encode?
    rw [hapart.right x r]
  rw [hencode]

end FieldTable

namespace Broker

open CimBroker.Action

/-- An object shows a property under a name of its own if its class declares it. -/
theorem bag_contains {o : LiveObject} {name : String} (hown : isSystemName name = false) :
    o.bag.contains name = (o.definition.declared? name).isSome := by
  rw [PropertyBag.contains, ← Option.isSome_map, ← PropertyBag.get?, bag_get? hown,
    Option.isSome_map]

theorem filterMap_assignment? {t : FieldTable R}
    (hown : ∀ name ∈ t.names, isSystemName name = false) (o : LiveObject) (r : R) :
    t.fields.filterMap (fun f => f.assignment? o.bag r) = t.puts o.definition r := by
  refine List.filterMap_congr fun f hf => ?_
  rw [Field.assignment?, bag_contains (hown f.name (List.mem_map.mpr ⟨f, hf, rfl⟩))]

/-! ## What a row of puts leaves behind -/

/-- After a row of puts that were all accepted: the instance holds of each value what was kept when
its turn came, and under every other name what it held before; nothing else has changed. -/
structure HoldsPuts (h : Handle) (o : LiveObject) (b : Broker) (row : List (String × Variant))
    (values : Table Variant) (b' : Broker) : Prop where
  classes : b'.classes = b.classes
  objects : b'.objects = b.objects
  there : b'.live[h.id]? = some { o with values := values }
  held : ∀ before name v later, row = before ++ (name, v) :: later →
    ∃ v', values.get? name = some v' ∧ Kept ((access.putEach h before).run b).2 b' v v'
  kept : ∀ name, name ∉ row.map Prod.fst → values.get? name = o.values.get? name
  others : ∀ (i : Nat) (o' : LiveObject), i ≠ h.id → b.live[i]? = some o' → b'.live[i]? = some o'

/-- **Accepted puts, each under a name of its own, change these values and no others**
(`HoldsPuts`). -/
theorem holdsPuts_of_putEach {h : Handle} {o : LiveObject} {b b' : Broker}
    {row : List (String × Variant)} (ho : b.live[h.id]? = some o)
    (hdistinct : (row.map Prod.fst).Nodup)
    (hrun : (access.putEach h row).run b = (.ok (), b')) :
    ∃ values, HoldsPuts h o b row values b' := by
  induction row generalizing b o with
  | nil =>
    cases hrun
    refine ⟨o.values, rfl, rfl, ho, fun before name v later hnil => ?_, fun _ _ => rfl,
      fun _ _ _ ho' => ho'⟩
    exact absurd hnil.symm (List.append_ne_nil_of_right_ne_nil before (List.cons_ne_nil _ _))
  | cons assignment row ih =>
    obtain ⟨name, v⟩ := assignment
    obtain ⟨hname, hrest⟩ := List.nodup_cons.mp hdistinct
    obtain ⟨⟨⟩, between, hput, hrow⟩ := run_bind_eq_ok.mp hrun
    obtain ⟨o', v', ho', hw⟩ := written_of_put hput
    obtain rfl := Option.some.inj (ho.symm.trans ho')
    obtain ⟨values, hholds⟩ := ih hw.there hrest hrow
    refine ⟨values, hholds.classes.trans hw.classes, hholds.objects.trans hw.objects, hholds.there,
      ?_, ?_, fun i o' hi ho' => hholds.others i o' hi (hw.others i o' hi ho')⟩
    · intro before name' w later hsplit
      cases before with
      | nil =>
        -- nothing that comes later has the name, and the copy, if it is one, is left alone
        obtain ⟨⟨rfl, rfl⟩, rfl⟩ := List.cons.inj hsplit
        refine ⟨v', ?_, hw.kept.later rfl fun h' hobject o' ho' =>
          hholds.others h'.id o' (hw.apart h' hobject) ho'⟩
        rw [hholds.kept name hname, Table.get?_set, if_pos rfl]
      | cons first before =>
        obtain ⟨rfl, hsplit'⟩ := List.cons.inj hsplit
        obtain ⟨w', hw', hkept⟩ := hholds.held before name' w later hsplit'
        refine ⟨w', hw', ?_⟩
        have hbefore : (access.putEach h ((name, v) :: before)).run b =
            (access.putEach h before).run between := run_bind_of_ok hput
        rwa [hbefore]
    · intro other hother
      rw [List.map_cons, List.mem_cons, not_or] at hother
      rw [hholds.kept other hother.2, Table.get?_set, if_neg (Ne.symm hother.1)]

theorem HoldsPuts.congr {h : Handle} {o : LiveObject} {b b' b'' : Broker}
    {row : List (String × Variant)} {values : Table Variant}
    (hholds : HoldsPuts h o b row values b')
    (hclasses : b''.classes = b'.classes) (hobjects : b''.objects = b'.objects)
    (hlive : b''.live = b'.live) : HoldsPuts h o b row values b'' := by
  refine ⟨hclasses.trans hholds.classes, hobjects.trans hholds.objects, hlive ▸ hholds.there,
    fun before name v later hsplit => ?_, hholds.kept, hlive ▸ hholds.others⟩
  obtain ⟨v', hv', hkept⟩ := hholds.held before name v later hsplit
  exact ⟨v', hv', hkept.later rfl fun _ _ _ ho => hlive ▸ ho⟩

/-- A put under a name of its own is refused if the class does not admit the value, or if the value
is an object that is no longer there. -/
theorem refused_of_put {h : Handle} {o : LiveObject} {name : String} {v : Variant} {b b' : Broker}
    {e : Error} (ho : b.live[h.id]? = some o) (hown : isSystemName name = false)
    (hrun : (put h name v).run b = (.error e, b')) :
    ¬ o.definition.Admits name v ∨ ∃ h', v = .object h' ∧ b.live[h'.id]? = none := by
  by_cases hadmits : o.definition.Admits name v
  · refine .inr (Classical.byContradiction fun hnone => ?_)
    have hok : ((put h name v).run b).1 = .ok () := by
      refine put_eq_ok_iff.mpr ⟨hown, ⟨o, ho, hadmits⟩, fun h' hobject => ?_⟩
      exact Option.ne_none_iff_exists'.mp fun hdead => hnone ⟨h', hobject, hdead⟩
    rw [hrun] at hok
    cases hok
  · exact .inl hadmits

/-- Beside a state of its own, a broker takes a row of puts as it does alone. -/
theorem run_putEach_onFirst (h : Handle) (row : List (String × Variant)) (st : Broker × ω) :
    ((access.onFirst ω).putEach h row).run st =
      (((access.putEach h row).run st.1).1, ((access.putEach h row).run st.1).2, st.2) := by
  induction row generalizing st with
  | nil => rfl
  | cons assignment row ih =>
    show (((access.put h assignment.1 assignment.2).onFirst : Action (Broker × ω) Unit) >>= fun _ =>
      (access.onFirst ω).putEach h row).run st = _
    rw [ObjectAccess.putEach, run_bind, run_bind, run_onFirst]
    rcases (access.put h assignment.1 assignment.2).run st.1 with ⟨outcome, b'⟩
    cases outcome with
    | error e => rfl
    | ok _ => exact ih (b', st.2)

section Session

variable (routines : Routines ω) (config : SessionConfig) (pace : Pace) {st : Broker × ω}
  {h : Handle} {o : LiveObject}

/-- With a journal beside it, a broker takes a row of accepted puts as it does alone. -/
theorem run_putEach_session {row : List (String × Variant)} {now : Broker × ω}
    {journal : List Event}
    (hrun : ((session routines config pace).journaled.access.putEach h row).run (st, []) =
      (.ok (), now, journal)) : (access.putEach h row).run st.1 = (.ok (), now.1) := by
  obtain ⟨houtcome, hafter⟩ :=
    (session routines config pace).journaled_alongside.putEach h row (st, []) st rfl
  have halone : ((session routines config pace).access.putEach h row).run st = _ :=
    run_putEach_onFirst h row st
  rw [hrun, halone] at houtcome hafter
  exact Prod.ext houtcome.symm (congrArg Prod.fst hafter).symm

/-- A put that is refused leaves its trail, its journal, and everything else as it was. -/
theorem run_put_refused {name : String} {v : Variant} {journal : List Event} {e : Error}
    {after : (Broker × ω) × List Event}
    (hrun : ((session routines config pace).journaled.access.put h name v).run (st, journal) =
      (.error e, after)) :
    (put h name v).run st.1 = (.error e, { st.1 with trail := .put name :: st.1.trail }) ∧
      after = (({ st.1 with trail := .put name :: st.1.trail }, st.2),
        journal ++ [.put h name v (.error e)]) := by
  have hwritten : ((session routines config pace).journaled.access.put h name v).run (st, journal) =
      (((put h name v).run st.1).1, (((put h name v).run st.1).2, st.2),
        journal ++ [.put h name v ((put h name v).run st.1).1]) := rfl
  obtain ⟨houtcome, rfl⟩ := Prod.mk.inj (hwritten.symm.trans hrun)
  have hafter := @put_failed h name v st.1 (by rw [houtcome]; nofun)
  exact ⟨Prod.ext houtcome hafter, by rw [houtcome, hafter]⟩

/-- **What a row of puts comes to**, each under a name of its own and none of them the system's. -/
theorem row_of_puts (ho : st.1.live[h.id]? = some o) {row : List (String × Variant)}
    (hdistinct : (row.map Prod.fst).Nodup)
    (hown : ∀ name ∈ row.map Prod.fst, isSystemName name = false) :
    let ran := ((session routines config pace).journaled.access.putEach h row).run (st, [])
    ∃ accepted rest values, row = accepted ++ rest ∧ RowEnds h accepted rest ran.1 ran.2.2 ∧
      (∀ name v later, rest = (name, v) :: later →
        ¬ o.definition.Admits name v ∨ ∃ h', v = .object h' ∧ ran.2.1.1.live[h'.id]? = none) ∧
      HoldsPuts h o st.1 accepted values ran.2.1.1 := by
  intro ran
  obtain ⟨accepted, rest, ⟨now, journal⟩, rfl, haccepted, hend⟩ :=
    (session routines config pace).journaled.access.run_putEach h row (st, [])
  have hjournal : journal = accepted.map (Event.accepted h) := by
    simpa using (session routines config pace).run_putEach_journaled haccepted
  rw [List.map_append] at hdistinct
  obtain ⟨values, hholds⟩ := holdsPuts_of_putEach ho
    (hdistinct.sublist (List.sublist_append_left _ _))
    (run_putEach_session routines config pace haccepted)
  refine ⟨accepted, rest, values, rfl, ?_⟩
  rcases hend with ⟨rfl, hrow⟩ | ⟨name, v, later, e, after, rfl, hput, hrow⟩
  · have hran : ran = (.ok (), now, journal) := hrow
    rw [hran, hjournal]
    exact ⟨.all, nofun, hholds⟩
  · have hran : ran = (.error e, after) := hrow
    obtain ⟨hrefused, rfl⟩ := run_put_refused routines config pace hput
    have hname : isSystemName name = false := by
      refine hown name ?_
      rw [List.map_append]
      exact List.mem_append_right _ List.mem_cons_self
    rw [hran, hjournal]
    refine ⟨.refused, ?_, hholds.congr rfl rfl rfl⟩
    rintro _ _ _ ⟨⟩
    -- the instance has other values by now, but its class is the same
    exact refused_of_put (o := { o with values }) (b := now.1) hholds.there hname hrefused

end Session

/-- **What writing a record does** (`ObjectAccess.putAll`) to an instance in memory, populated or
not.  The fields that the class declares and whose values are worth writing are put, each with its
encoding, in table order (`FieldTable.puts`), until one is refused (`RowEnds`): because the class
does not admit it (`ClassDef.Admits`), or because it is an object that is not there.  What was put
is held, of an object a copy as it was at that moment, and every other value is the one that was
there before (`HoldsPuts`).  The fields of a part are put where it is embedded (`FieldTable.embed`),
and what the identities of the record hold does not matter. -/
theorem record_put_field_by_field [Record R] (routines : Routines ω) (config : SessionConfig)
    (pace : Pace) {st : Broker × ω} {h : Handle} {o : LiveObject} (ho : st.1.live[h.id]? = some o)
    (hdistinct : (Record.table (R := R)).names.Nodup)
    (hown : ∀ name ∈ (Record.table (R := R)).names, isSystemName name = false) (r : R) :
    let s := session routines config pace
    let ran := (s.journaled.access.putAll h r).run (st, [])
    (ran.1, ran.2.1) = (s.access.putAll h r).run st ∧
    (∃ accepted rest values,
      (Record.table (R := R)).puts o.definition r = accepted ++ rest ∧
      RowEnds h accepted rest ran.1 ran.2.2 ∧
      (∀ name v later, rest = (name, v) :: later →
        ¬ o.definition.Admits name v ∨ ∃ h', v = .object h' ∧ ran.2.1.1.live[h'.id]? = none) ∧
      HoldsPuts h o st.1 accepted values ran.2.1.1) ∧
    (∀ (E : Type) (t : FieldTable R) (label : String) (inner : FieldTable E) (place : Lens R E),
      (t.embed label inner place).puts o.definition r =
        t.puts o.definition r ++ inner.puts o.definition (place.view r)) ∧
    ((Record.table (R := R)).Orderly → ∀ i ∈ (Record.table (R := R)).identities, ∀ x,
      (s.journaled.access.putAll h (i.place.put x r)).run (st, []) = ran) := by
  intro s ran
  have hproperties : (s.access.properties h).run st = (.ok o.bag, st) := run_properties ho
  have hjournaled : (s.journaled.access.properties h).run (st, []) = (.ok o.bag, st, []) :=
    run_onFirst_of hproperties
  have hputAll (r : R) : (s.journaled.access.putAll h r).run (st, []) =
      (s.journaled.access.putEach h
        ((Record.table (R := R)).puts o.definition r)).run (st, []) := by
    rw [ObjectAccess.run_putAll_of_properties hjournaled, filterMap_assignment? hown]
  refine ⟨?_, ?_, fun E t label inner place => t.puts_embed o.definition r label inner place,
    fun horderly i hi x => ?_⟩
  · obtain ⟨houtcome, hafter⟩ := s.journaled_alongside.putEach h
      ((Record.table (R := R)).puts o.definition r) (st, []) st rfl
    show (((s.journaled.access.putAll h r).run (st, [])).1,
      ((s.journaled.access.putAll h r).run (st, [])).2.1) = _
    rw [hputAll, ObjectAccess.run_putAll_of_properties hproperties, filterMap_assignment? hown]
    exact Prod.ext houtcome hafter
  · have hnames := (Record.table (R := R)).puts_names_sublist o.definition r
    have hrow := row_of_puts routines config pace ho (hdistinct.sublist hnames)
      fun name hname => hown name (hnames.subset hname)
    rw [← hputAll] at hrow
    exact hrow
  · rw [hputAll, FieldTable.puts_identity _ _ horderly hi, ← hputAll]

/-- An instance with values, of a class to which the size of a disk is a yes or a no. -/
def labelledDisk : LiveObject where
  definition := .ofProperties "Msvm_Disk"
    [("InstanceID", .scalarOf .string), ("ElementName", .scalarOf .string),
      ("Size", .scalarOf .boolean), ("Dedicated", .arrayOf (.integer false .w16)),
      ("Owner", .scalarOf .string)]
  path := none
  isClass := false
  values := .ofList [("ElementName", .text "data"), ("InstanceID", .text "disk-0")]

/-- Writing a disk on it ends at the size, and the label, of which the record has none, stays. -/
theorem writing_ends_at_size :
    let s := session (fun _ _ => pure [] : Routines Unit) .standard ⟨0, fun _ _ => ⟨0⟩⟩
    let ran := (s.journaled.access.putAll ⟨0⟩ ownedDisk).run (({ live := #[labelledDisk] }, ()), [])
    ran.1.toBool = false ∧ ran.2.2.length = 2 ∧
    ∃ values, ran.2.1.1.live[0]? = some { labelledDisk with values } ∧
      values.get? "InstanceID" = some (.text "disk-1") ∧
      values.get? "ElementName" = some (.text "data") := by
  intro s ran
  obtain ⟨hran, ⟨accepted, rest, values, hsplit, hends, hrefused, hholds⟩, -, -⟩ :=
    @record_put_field_by_field Unit Disk _ (fun _ _ => pure []) .standard ⟨0, fun _ _ => ⟨0⟩⟩
      ({ live := #[labelledDisk] }, ()) ⟨0⟩ labelledDisk rfl regular_disk.distinct regular_disk.own
      ownedDisk
  have hputs : (Record.table (R := Disk)).puts labelledDisk.definition ownedDisk =
      ("InstanceID", .text "disk-1") :: _ := rfl
  have hfailed : ran.1.toBool = false := by decide +kernel
  have hlength : ran.2.2.length = 2 := by decide +kernel
  -- one put is accepted and one refused
  have hone : accepted = [("InstanceID", .text "disk-1")] := by
    have hcount : accepted.length = 1 := by
      generalize ran.1 = outcome, ran.2.2 = journal at hends hfailed hlength
      cases hends with
      | all => cases hfailed
      | refused => simpa using hlength
    have htake : (accepted ++ rest).take 1 = accepted := List.take_left' hcount
    rw [← htake, ← hsplit, hputs]
    rfl
  subst hone
  obtain ⟨v, hv, hkept⟩ := hholds.held [] "InstanceID" (.text "disk-1") [] rfl
  refine ⟨hfailed, hlength, values, hholds.there, ?_, ?_⟩
  · cases hkept
    exact hv
  · exact hholds.kept "ElementName" (by decide)

end Broker

end CimBroker
