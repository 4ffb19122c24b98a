/-
# CimBroker.Proofs.MachineLookup — which machines a name finds

The lookup of a machine is a selection with two conditions, one on the caption and one on the name.
When the broker reads it as it was meant, it fetches exactly the machines that show the name, or
fails at a property that shows no text at all.  It reads it as it was meant for every name that does
not hold ` AND `; for any other name there is a broker whose machine is not found by its own name.

`selections_read_and_machines_found` has both parts, as equivalences, and `lookup_cut_at_and` the
machine `R AND D`.  The selections are those whose names are plain (`Identifier`) and whose values
are written escaped (`Condition.text`), as sessions write them.  What other texts are taken for is
left to `CimBroker.Proofs.QueryReading`.
-/
import CimBroker.Broker.Queries
import CimBroker.Machine.Lookup
import CimBroker.Proofs.Selection

namespace CimBroker

open Wql (Condition Identifier Query Separable selecting)

/-! ## Selections over stored objects -/

namespace StoredObject

/-- The object has a value for the property, and its text is the given one. -/
def shows (o : StoredObject) (property text : String) : Bool :=
  match o.values.get? property with
  | some v =>
    match AtomType.decodeText v with
    | .ok shown => shown = text
    | .error _ => false
  | none => false

/-- The object has a value for the property that has no text, for the reason given. -/
def Unreadable (o : StoredObject) (property : String) (e : Error) : Prop :=
  ∃ v, o.values.get? property = some v ∧ AtomType.decodeText v = .error e

/-- A property that holds a text is compared by it. -/
theorem meets_of_text {o : StoredObject} {property text : String}
    (hv : o.values.get? property = some (.text text)) (wanted : String)
    (filters : List (String × String)) :
    o.meets ((property, wanted) :: filters) =
      if text = wanted then o.meets filters else .ok false := by
  rw [meets, hv]
  rfl

/-- **An object `meets` filters when it `shows` each of them**, unless it is found `Unreadable`
first. -/
theorem meets_outcome (o : StoredObject) (filters : List (String × String)) :
    o.meets filters = .ok (filters.all fun f => o.shows f.1 f.2) ∨
      ∃ e, o.meets filters = .error e ∧ ∃ f ∈ filters, o.Unreadable f.1 e := by
  induction filters with
  | nil => exact Or.inl rfl
  | cons f filters ih =>
    obtain ⟨property, wanted⟩ := f
    rw [meets, List.all_cons, shows]
    cases hv : o.values.get? property with
    | none => exact Or.inl rfl
    | some v =>
      dsimp only
      cases htext : AtomType.decodeText v with
      | error e =>
        exact Or.inr ⟨e, rfl, (property, wanted), List.mem_cons_self, v, hv, htext⟩
      | ok text =>
        by_cases heq : text = wanted
        · rcases ih with h | ⟨e, h, f, hf, hun⟩
          · left
            simp [heq, h]
          · right
            exact ⟨e, by simpa [heq] using h, f, List.mem_cons_of_mem _ hf, hun⟩
        · left
          simp [heq]

/-- Filters that cannot be decided name a property that has no text. -/
theorem unreadable_of_meets {o : StoredObject} {filters : List (String × String)} {e : Error}
    (h : o.meets filters = .error e) : ∃ f ∈ filters, o.Unreadable f.1 e := by
  rcases o.meets_outcome filters with hok | ⟨e', herror, hun⟩
  · cases hok.symm.trans h
  · obtain rfl := Except.error.inj (herror.symm.trans h)
    exact hun

end StoredObject

namespace Broker

/-- Entries are looked through up to the first that cannot be decided; if there is none, those are
found that show every filter. -/
theorem meeting_cases (filters : List (String × String)) (entries : List (String × StoredObject)) :
    (∃ entry ∈ entries, ∃ e, entry.2.meets filters = .error e ∧
        meeting filters entries = .error e) ∨
      (∀ entry ∈ entries, ∀ e, entry.2.meets filters ≠ .error e) ∧
        meeting filters entries = .ok ((entries.filter fun entry =>
          filters.all fun filter => entry.2.shows filter.1 filter.2).map Prod.fst) := by
  induction entries with
  | nil => exact .inr ⟨nofun, rfl⟩
  | cons entry rest ih =>
    obtain ⟨path, o⟩ := entry
    cases hmeets : o.meets filters with
    | error e => exact .inl ⟨(path, o), List.mem_cons_self, e, hmeets, by rw [meeting, hmeets]⟩
    | ok met =>
      have hmet : met = filters.all fun filter => o.shows filter.1 filter.2 := by
        rcases o.meets_outcome filters with hok | ⟨e, herror, -⟩
        · exact Except.ok.inj (hmeets.symm.trans hok)
        · cases hmeets.symm.trans herror
      rcases ih with ⟨entry, hentry, e, he, hrest⟩ | ⟨hdecided, hrest⟩
      · refine .inl ⟨entry, List.mem_cons_of_mem _ hentry, e, he, ?_⟩
        rw [meeting, hmeets, hrest]
        cases met <;> rfl
      · refine .inr ⟨List.forall_mem_cons.mpr ⟨fun e he => ?_, hdecided⟩, ?_⟩
        · cases hmeets.symm.trans he
        · rw [meeting, hmeets, hrest, List.filter_cons, ← hmet]
          cases met <;> rfl

/-- What a query does once it has selected the given paths. -/
def serve (wql : String) (paths : List String) : Action Broker Cursor := do
  note (.query wql)
  openCursor (← fetchAll paths)

/-- A selection serves what meets its filters. -/
theorem run_runQuery_select {wql className : String} {filters : List (String × String)}
    (hparse : Query.parse wql = .ok (.select className filters)) (b : Broker) :
    (runQuery wql).run b =
      match meeting filters (b.instancesOf className) with
      | .ok paths => (serve wql paths).run b
      | .error e => (.error e, ((note (.query wql)).run b).2) := by
  -- writing the query down leaves the stored objects as they are
  have hnoted : (note (.query wql)).run b = (.ok (), ((note (.query wql)).run b).2) := rfl
  have hsame : ((note (.query wql)).run b).2.instancesOf className = b.instancesOf className := rfl
  have hanswer (b' : Broker) : (answer (.select className filters)).run b' =
      (meeting filters (b'.instancesOf className), b') := by
    show (Action.ofExcept (meeting filters (b'.instancesOf className))).run b' = _
    cases meeting filters (b'.instancesOf className) <;> rfl
  unfold runQuery serve
  rw [hparse, Action.run_bind, hnoted]
  dsimp only
  show ((answer (.select className filters)) >>= fun paths =>
    fetchAll paths >>= openCursor).run _ = _
  rw [Action.run_bind, hanswer, hsame]
  cases meeting filters (b.instancesOf className) <;> rfl

/-- A query that is not understood fails once it is written down. -/
theorem run_runQuery_error {wql : String} {e : Error} (hparse : Query.parse wql = .error e)
    (b : Broker) : (runQuery wql).run b = (.error e, ((note (.query wql)).run b).2) := by
  unfold runQuery
  rw [hparse]
  rfl

end Broker

/-! ## The lookup of a machine -/

namespace VirtualMachine

/-- The class of machines, as a name in a query. -/
def classIdentifier : Identifier := ⟨computerSystemClass, by decide, by decide⟩

/-- The condition that machines meet and hosts do not. -/
def isMachine : Condition := ⟨⟨"Caption", by decide, by decide⟩, machineCaption⟩

/-- The condition that the machines of a name meet. -/
def hasName (name : String) : Condition := ⟨⟨"ElementName", by decide, by decide⟩, name⟩

/-- The query for the machines of a name is a selection with two conditions. -/
theorem namedQuery_eq (name : String) :
    namedQuery name = selecting classIdentifier [isMachine, hasName name] := by
  have hcaption : Wql.escape machineCaption = machineCaption := rfl
  have hjoined : Condition.joined [isMachine, hasName name] =
      isMachine.text ++ " AND " ++ (hasName name).text := by
    rw [Condition.joined, List.map_cons, List.map_singleton,
      String.intercalate_cons_of_ne_nil (List.cons_ne_nil _ _), String.intercalate_singleton]
  have hwhere : " WHERE Caption = '" = " WHERE " ++ "Caption" ++ " = '" := rfl
  have hand : " AND ElementName = '" = " AND " ++ "ElementName" ++ " = '" := rfl
  show "SELECT * FROM " ++ computerSystemClass ++ " WHERE Caption = '" ++ machineCaption ++ "'" ++
      " AND ElementName = '" ++ Wql.escape name ++ "'" =
    "SELECT * FROM " ++ computerSystemClass ++ " WHERE " ++
      Condition.joined [isMachine, hasName name]
  rw [hjoined, hwhere, hand]
  show _ = _ ++ ("Caption" ++ " = '" ++ Wql.escape machineCaption ++ "'" ++ " AND " ++
    ("ElementName" ++ " = '" ++ Wql.escape name ++ "'"))
  rw [hcaption]
  simp only [String.append_assoc]

/-- The caption of machines can be told apart. -/
theorem separable_machineCaption : Separable machineCaption :=
  Text.cutAt?_eq_none_iff.mp (by decide)

/-- **A name that is not `Separable` is read as another**, if the query is read at all. -/
theorem parse_namedQuery_broken {name : String} (h : ¬ Separable name) {q : Query}
    (hparse : Query.parse (namedQuery name) = .ok q) :
    ∃ value rest,
      q = .select computerSystemClass (isMachine.filter :: ("ElementName", value) :: rest) ∧
        value ≠ name := by
  rw [namedQuery_eq, Wql.parse_selecting classIdentifier (List.cons_ne_nil _ _),
    Condition.joined_cons_cons, Condition.joined_singleton,
    isMachine.conditions?_text_and separable_machineCaption] at hparse
  cases hread : Query.conditions? (hasName name).text.toList with
  | none =>
    rw [hread] at hparse
    exact absurd hparse (by simp)
  | some filters =>
    rw [hread] at hparse
    rw [← List.append_nil (hasName name).text.toList] at hread
    obtain ⟨value, rest, rfl, hvalue⟩ := (hasName name).conditions?_broken h hread
    exact ⟨value, rest, (Except.ok.inj hparse).symm, hvalue⟩

end VirtualMachine

namespace Broker

open VirtualMachine (classIdentifier isMachine hasName namedQuery namedQuery_eq
  parse_namedQuery_broken separable_machineCaption)

/-- The paths of the machines that show the given name. -/
def machinesNamed (b : Broker) (name : String) : List String :=
  ((b.instancesOf computerSystemClass).filter fun entry =>
    entry.2.shows "Caption" VirtualMachine.machineCaption &&
      entry.2.shows "ElementName" name).map Prod.fst

/-- The lookup of a name fetches exactly the machines that show it, or fails as the caption or the
name of a machine or host has no text. -/
def Finds (b : Broker) (name : String) : Prop :=
  (runQuery (namedQuery name)).run b = (serve (namedQuery name) (b.machinesNamed name)).run b ∨
    ∃ e, ((runQuery (namedQuery name)).run b).1 = .error e ∧
      ∃ entry ∈ b.instancesOf computerSystemClass,
        ∃ property ∈ ["Caption", "ElementName"], entry.2.Unreadable property e

/-- A query that is read as it was meant finds what it should. -/
theorem finds_of_parse {name : String}
    (hparse : Query.parse (namedQuery name) =
      .ok (.select computerSystemClass [isMachine.filter, (hasName name).filter])) (b : Broker) :
    b.Finds name := by
  have hrun := run_runQuery_select hparse b
  -- the two filters are the two properties that machines are named by
  rcases meeting_cases [isMachine.filter, (hasName name).filter]
    (b.instancesOf computerSystemClass) with ⟨entry, hentry, e, hmeets, h⟩ | ⟨-, h⟩
  · right
    obtain ⟨f, hf, hun⟩ := StoredObject.unreadable_of_meets hmeets
    refine ⟨e, by rw [hrun, h], entry, hentry, f.1, ?_, hun⟩
    rcases List.mem_pair.mp hf with rfl | rfl
    · exact List.mem_cons_self
    · exact List.mem_cons_of_mem _ List.mem_cons_self
  · left
    rw [hrun, h]
    simp only [List.all_cons, List.all_nil, Bool.and_true]
    rfl

/-! ### A machine that is not found -/

/-- A machine as it is stored, with the given name. -/
def machine (name : String) : StoredObject :=
  ⟨computerSystemClass,
    ⟨[("Caption", .text VirtualMachine.machineCaption), ("ElementName", .text name)]⟩, []⟩

/-- The path of the first machine that is stored. -/
def machinePath : String := instancePath computerSystemClass 1

/-- A broker that stores one machine, of the given name. -/
def withMachine (name : String) : Broker :=
  { empty with
    classes := Table.empty.set computerSystemClass
      (.ofProperties computerSystemClass
        [("Caption", .scalarOf .string), ("ElementName", .scalarOf .string)])
    objects := Table.empty.set machinePath (machine name) }

theorem instancesOf_withMachine (name : String) :
    (withMachine name).instancesOf computerSystemClass = [(machinePath, machine name)] := by
  have hclass : (machine name).isOf computerSystemClass = true := beq_self_eq_true _
  show [(machinePath, machine name)].filter (fun entry => entry.2.isOf computerSystemClass) = _
  rw [List.filter_cons, if_pos hclass, List.filter_nil]

theorem machinesNamed_withMachine (name : String) :
    (withMachine name).machinesNamed name = [machinePath] := by
  have hcaption : (machine name).shows "Caption" VirtualMachine.machineCaption = true := rfl
  have hname : (machine name).shows "ElementName" name = true := decide_eq_true rfl
  rw [machinesNamed, instancesOf_withMachine, List.filter_cons, hcaption, hname]
  rfl

/-- A name that cannot be told apart is read as another, and of that name there is no machine. -/
theorem meeting_withMachine {name value : String} (rest : List (String × String))
    (hvalue : value ≠ name) :
    meeting (isMachine.filter :: ("ElementName", value) :: rest)
      ((withMachine name).instancesOf computerSystemClass) = .ok [] := by
  have hmeets : (machine name).meets (isMachine.filter :: ("ElementName", value) :: rest) =
      .ok false := by
    have hcaption : (machine name).values.get? "Caption" =
        some (.text VirtualMachine.machineCaption) := rfl
    have hname : (machine name).values.get? "ElementName" = some (.text name) := rfl
    show (machine name).meets (("Caption", VirtualMachine.machineCaption) :: _) = _
    rw [StoredObject.meets_of_text hcaption, if_pos rfl, StoredObject.meets_of_text hname,
      if_neg (Ne.symm hvalue)]
  rw [instancesOf_withMachine, meeting, hmeets]
  rfl

/-- Serving the only machine brings one object to life, serving nothing brings none, and so does
writing the query down. -/
theorem size_live_withMachine (name wql : String) :
    ((serve wql [machinePath]).run (withMachine name)).2.live.size = 1 ∧
      ((serve wql []).run (withMachine name)).2.live.size = 0 ∧
      ((note (.query wql)).run (withMachine name)).2.live.size = 0 := ⟨rfl, rfl, rfl⟩

/-- The only machine is not found by a name that cannot be told apart. -/
theorem not_finds_withMachine {name : String} (h : ¬ Separable name) :
    ¬ (withMachine name).Finds name := by
  rintro (hrun | ⟨e, -, entry, hentry, property, hproperty, v, hv, htext⟩)
  · rw [machinesNamed_withMachine] at hrun
    -- the machine would be brought to life, but the query brings nothing to life
    have hsize := congrArg (fun outcome => outcome.2.live.size) hrun
    obtain ⟨hone, hnone, hnoted⟩ := size_live_withMachine name (namedQuery name)
    cases hparse : Query.parse (namedQuery name) with
    | error e =>
      rw [run_runQuery_error hparse] at hsize
      dsimp only at hsize
      omega
    | ok q =>
      obtain ⟨value, rest, rfl, hvalue⟩ := parse_namedQuery_broken h hparse
      rw [run_runQuery_select hparse, meeting_withMachine rest hvalue] at hsize
      dsimp only at hsize
      omega
  · -- both properties of the machine are texts
    rw [instancesOf_withMachine, List.mem_singleton] at hentry
    subst hentry
    rcases List.mem_pair.mp hproperty with rfl | rfl
    · obtain rfl : Variant.text VirtualMachine.machineCaption = v := Option.some.inj hv
      exact absurd htext (by simp [AtomType.decodeText])
    · obtain rfl : Variant.text name = v := Option.some.inj hv
      exact absurd htext (by simp [AtomType.decodeText])

/-- A lookup finds what it should in every broker exactly when its name can be told apart. -/
theorem finds_iff (name : String) : (∀ b : Broker, b.Finds name) ↔ Separable name := by
  constructor
  · intro h
    by_contra hname
    exact not_finds_withMachine hname (h (withMachine name))
  · intro hname b
    apply finds_of_parse
    rw [namedQuery_eq]
    refine (Wql.parse_selecting_iff classIdentifier (List.cons_ne_nil _ _)).mpr ?_
    intro c hc
    rcases List.mem_pair.mp hc with rfl | rfl
    · exact separable_machineCaption
    · exact hname

end Broker

/-! ## What is read and what is found -/

/-- **Selections are read, and machines found, exactly when no value holds ` AND `.** A selection of
any class by a non-empty row of conditions (`selecting`) is read as it was meant exactly when every
value in it can be told apart (`Separable`), and the machines of a name are found in every broker
(`Broker.Finds`) exactly when the name can. -/
theorem selections_read_and_machines_found (className : Identifier) (first : Condition)
    (rest : List Condition) (name : String) :
    (Query.parse (selecting className (first :: rest)) =
          .ok (.select className.text ((first :: rest).map Condition.filter)) ↔
        ∀ c ∈ first :: rest, Separable c.value) ∧
      ((∀ b : Broker, b.Finds name) ↔ Separable name) := by
  constructor
  · exact Wql.parse_selecting_iff className (List.cons_ne_nil first rest)
  · exact Broker.finds_iff name

/-- The machine named `R AND D` is not looked up: its query is taken for three conditions, of which
the last has no equals sign. -/
theorem lookup_cut_at_and :
    Query.parse (VirtualMachine.namedQuery "R AND D") =
      .error (.unsupportedQuery (VirtualMachine.namedQuery "R AND D")) := by
  have hvalue : Text.cutAt? Wql.separator "R AND D".toList = some (['R'], ['D']) := by decide
  have hcut := (VirtualMachine.hasName "R AND D").cutAt?_text []
  rw [List.append_nil] at hcut
  have hlast : Text.cutAt? Wql.separator ['D', '\''] = none := by decide
  have hread : Query.conditions? (VirtualMachine.hasName "R AND D").text.toList = none := by
    rw [Query.conditions?,
      Text.pieces_of_some (hcut.trans (by rw [VirtualMachine.hasName, hvalue])),
      List.mapM_cons, Wql.condition?_quoted]
    show (do let rest ← (Text.pieces ' ' "AND ".toList ['D', '\'']).mapM _; pure _) = none
    rw [Text.pieces_of_none hlast]
    rfl
  rw [VirtualMachine.namedQuery_eq, Wql.parse_selecting _ (List.cons_ne_nil _ _),
    Condition.joined_cons_cons, Condition.joined_singleton,
    Condition.conditions?_text_and _ VirtualMachine.separable_machineCaption, hread]
  rfl

end CimBroker
