/-
# CimBroker.Proofs.RecordRoundTrip — records that are written and read back

A record is put, field by field, on a blank instance of some class, and a record of the same type is
read from the instance.  The class declares what it likes: fields that it does not declare are lost
on the way and read as blank, and fields without a value worth writing are left as the broker has
them, which on a blank instance is nothing.

The way of one field is that of its value through the codec (`DataType.decode_encodeAs`), into an
object whose declaration admits it, and back (`DataType.returned_of_kept`).  `Bears` describes the
instance while the fields are put on it one by one, and `readFields_eq_ok` what is read from a bag.

`Broker.record_comes_back` is exact about what returns (`DataType.Returned`), and that is not always
what was put.  An optional value that is there, with nothing or an empty text in it, is not there
afterwards, and an object comes back as a copy.  `hollow_memo_comes_back_changed` is a record to
which both happen, though none of its texts is empty.  Tables whose fields share a name or a place
are left out (`FieldTable.Regular`), and so are values that the class does not admit (`Suits`): at
the first of those writing ends, as `CimBroker.Proofs.RecordWrites` has it.
-/
import CimBroker.Broker.Objects
import CimBroker.Proofs.Faithful
import CimBroker.Proofs.FieldTables
import CimBroker.Proofs.ParameterObjects
import CimBroker.Record.Mapping
import CimBroker.Record.Samples
import Mathlib.Data.List.Nodup

namespace CimBroker

/-! ## Values that come back by themselves -/

namespace DataType

/-- The types of fields.  A list is one only if its items are atoms. -/
def isMappable : DataType → Bool
  | list (atom _) => true
  | list _ => false
  | optional t => t.isMappable
  | _ => true

/-- Whether values of the type are timestamps, which may fail to come back. -/
def isTimed : DataType → Bool
  | datetime => true
  | optional t => t.isTimed
  | _ => false

/-- What comes back of a value: the value, unless it is an optional one and what is there is left
out on writing or has no tagged form. -/
def settled : (t : DataType) → t.Value → t.Value
  | optional t, some x => if t.isSuppressed x ∨ t.encodeAs true x = .null then none else some x
  | _, x => x

/-- What is not nothing decodes as an optional value as it decodes by itself. -/
theorem decode_optional {t : DataType} {v : Variant} (hv : v ≠ .null) :
    (optional t).decode v = (t.decode v).map some := by
  cases v with
  | null => exact absurd rfl hv
  | scalar s => rfl
  | array a => rfl

/-- A value with a tagged form comes back from it, if it is no timestamp. -/
theorem decode_encodeAs {t : DataType} (ht : t.isTimed = false) {isPresent : Bool} {x : t.Value}
    (hx : t.encodeAs isPresent x ≠ .null) : t.decode (t.encodeAs isPresent x) = .ok x := by
  induction t generalizing isPresent with
  | atom a => exact (faithful_atom a).back isPresent x
  | datetime => cases ht
  | variant => rfl
  | handle => rfl
  | optional t ih =>
    cases x with
    | none => exact absurd rfl hx
    | some x =>
      have hx' : t.encodeAs true x ≠ .null := hx
      show (optional t).decode (t.encodeAs true x) = _
      rw [decode_optional hx', ih ht hx']
      rfl
  | list t ih =>
    cases t with
    | atom a => exact (faithful_list a).back isPresent x
    | _ => exact absurd rfl hx

/-- A value that is worth writing and has a tagged form comes back as it is. -/
theorem settled_of_written {t : DataType} {x : t.Value} (hx : t.isSuppressed x = false)
    (htagged : t.encode x ≠ .null) : t.settled x = x := by
  cases t with
  | optional t =>
    cases x with
    | none => rfl
    | some x =>
      refine if_neg ?_
      rintro (hsuppressed | hnull)
      · exact absurd (hx.symm.trans hsuppressed) Bool.false_ne_true
      · exact htagged hnull
  | _ => rfl

/-- A value that is left out or has no tagged form comes back as nothing. -/
theorem decode_null_settled {t : DataType} (ht : t.isMappable = true) {x : t.Value}
    (htimed : t.isTimed = true → t.decode (t.encode x) = .ok x)
    (hx : t.isSuppressed x = true ∨ t.encode x = .null) :
    t.decode .null = .ok (t.settled x) := by
  cases t with
  | atom a =>
    rcases hx with hsuppressed | hnull
    · cases a with
      | text => rw [show x = "" from beq_iff_eq.mp hsuppressed]; rfl
      | _ => cases hsuppressed
    · cases hnull
  | datetime =>
    rcases hx with hsuppressed | hnull
    · cases hsuppressed
    · have hback := htimed rfl
      rw [hnull] at hback
      exact hback
  | variant =>
    rcases hx with hsuppressed | rfl
    · cases hsuppressed
    · rfl
  | handle => rcases hx with hsuppressed | hnull <;> contradiction
  | optional t =>
    cases x with
    | none => rfl
    | some x =>
      have hnone : (optional t).settled (some x) = none := if_pos hx
      rw [hnone]
      rfl
  | list t =>
    rcases hx with hsuppressed | hnull
    · cases hsuppressed
    · cases t with
      | atom a =>
        rcases encodeAs_list a false x with ⟨-, rfl, -⟩ | h
        · rfl
        · rw [encode, h] at hnull
          cases hnull
      | _ => cases ht

/-- The tagged form of one object is that of any other. -/
theorem decode_of_encodeAs_object {t : DataType} {x : t.Value} {isPresent : Bool} {h : Handle}
    (hx : t.encodeAs isPresent x = .object h) (h' : Handle) :
    ∃ y, t.decode (.object h') = .ok y ∧ t.encodeAs isPresent y = .object h' := by
  induction t generalizing isPresent with
  | atom a =>
    have htag := a.varType_encode x
    rw [Variant.scalar.inj hx] at htag
    cases a with
    | integer signed width => cases signed <;> cases width <;> cases htag
    | _ => cases htag
  | datetime =>
    rw [encodeAs] at hx
    cases hencoded : Time.Timestamp.encode x with
    | none => rw [hencoded] at hx; cases hx
    | some text => rw [hencoded] at hx; cases hx
  | variant => exact ⟨.object h', rfl, rfl⟩
  | handle => exact ⟨h', rfl, rfl⟩
  | optional t ih =>
    cases x with
    | none => cases hx
    | some x =>
      obtain ⟨y, hy, hback⟩ := ih (show t.encodeAs true x = .object h from hx)
      refine ⟨some y, ?_, hback⟩
      rw [decode_optional (by simp), hy]
      rfl
  | list t ih =>
    cases t with
    | atom a =>
      rcases encodeAs_list a isPresent x with ⟨-, -, h⟩ | h
      · rw [h] at hx
        cases hx
      · rw [h] at hx
        cases hx
    | _ => cases hx

/-- An object is never left out. -/
theorem not_isSuppressed_of_object {t : DataType} {x : t.Value} {isPresent : Bool} {h : Handle}
    (hx : t.encodeAs isPresent x = .object h) : t.isSuppressed x = false := by
  induction t generalizing isPresent with
  | atom a =>
    cases a with
    | text => cases hx
    | _ => rfl
  | optional t ih =>
    cases x with
    | none => cases hx
    | some x => exact ih (show t.encodeAs true x = .object h from hx)
  | _ => rfl

/-- What has become of a value that was written and read back: a copy, if it was an object, and
otherwise what comes back of it. -/
def Returned (before now : Broker) (t : DataType) (x y : t.Value) : Prop :=
  match t.encode x with
  | .object h => ∃ h', t.encode y = .object h' ∧ Broker.Kept before now (.object h) (.object h')
  | _ => y = t.settled x

theorem returned_settled {before now : Broker} {t : DataType} {x : t.Value}
    (hx : ∀ h, t.encode x ≠ .object h) : t.Returned before now x (t.settled x) := by
  unfold Returned
  split
  · rename_i h hobject
    exact absurd hobject (hx h)
  · rfl

theorem Returned.later {before now now' : Broker} {t : DataType} {x y : t.Value}
    (h : t.Returned before now x y) (hlive : now'.live = now.live) :
    t.Returned before now' x y := by
  unfold Returned at h ⊢
  split at h
  · obtain ⟨h', hy, hkept⟩ := h
    exact ⟨h', hy, hkept.later rfl fun _ _ _ ho => hlive ▸ ho⟩
  · exact h

/-- What is kept of a value that is worth writing reads back as what has become of it. -/
theorem returned_of_kept {before now : Broker} {t : DataType} (ht : t.isMappable = true)
    {x : t.Value} {v : Variant} (hx : t.isSuppressed x = false)
    (htimed : t.isTimed = true → t.decode (t.encode x) = .ok x)
    (hkept : Broker.Kept before now (t.encode x) v) :
    ∃ y, t.decode v = .ok y ∧ t.Returned before now x y := by
  generalize hencoded : t.encode x = sent at hkept
  cases hkept with
  | @copied h h' o ho ho' =>
    obtain ⟨y, hy, hobject⟩ := decode_of_encodeAs_object hencoded h'
    refine ⟨y, hy, ?_⟩
    rw [Returned, hencoded]
    exact ⟨h', hobject, .copied ho ho'⟩
  | plain hplain =>
    subst hencoded
    refine ⟨t.settled x, ?_, returned_settled hplain⟩
    by_cases hnull : t.encode x = .null
    · rw [hnull]
      exact decode_null_settled ht htimed (.inr hnull)
    · rw [settled_of_written hx hnull]
      cases htime : t.isTimed with
      | true => exact htimed htime
      | false => exact decode_encodeAs htime hnull

/-- A value that is not worth writing reads back from nothing as what comes back of it. -/
theorem returned_of_isSuppressed {before now : Broker} {t : DataType} (ht : t.isMappable = true)
    {x : t.Value} (hx : t.isSuppressed x = true)
    (htimed : t.isTimed = true → t.decode (t.encode x) = .ok x) :
    ∃ y, t.decode .null = .ok y ∧ t.Returned before now x y := by
  refine ⟨t.settled x, decode_null_settled ht htimed (.inl hx),
    returned_settled fun h hobject => ?_⟩
  exact absurd ((not_isSuppressed_of_object hobject).symm.trans hx) Bool.false_ne_true

end DataType

/-! ## Writing -/

variable {R : Type}

/-- What is put for a field, if anything is: its name and the tagged form of a value that is worth
writing, where the object has the property. -/
def Field.assignment? (f : Field R) (declared : PropertyBag) (r : R) : Option (String × Variant) :=
  if declared.contains f.name then (f.encode? r).map fun v => (f.name, v) else none

theorem Field.assignment?_eq_some {f : Field R} {declared : PropertyBag} {r : R} {name : String}
    {v : Variant} : f.assignment? declared r = some (name, v) ↔
      name = f.name ∧ declared.contains f.name = true ∧ f.encode? r = some v := by
  unfold assignment?
  cases declared.contains f.name with
  | false => simp
  | true =>
    cases f.encode? r with
    | none => simp
    | some w => simp [eq_comm]

/-- The fields are put in their order. -/
theorem ObjectAccess.putFields_cons {σ : Type} (access : ObjectAccess σ) (h : Handle)
    (declared : PropertyBag) (r : R) (f : Field R) (fields : List (Field R)) :
    access.putFields h declared r (f :: fields) = (do
      match f.assignment? declared r with
      | some (name, v) => access.put h name v
      | none => pure ()
      access.putFields h declared r fields) := by
  rw [putFields, Field.assignment?]
  cases declared.contains f.name with
  | false => rfl
  | true => cases f.encode? r <;> rfl

namespace Broker

open CimBroker.Action

/-- The instance under a handle bears what was put on it since a moment: of each value what is kept,
and nothing under any other name.  What was live at that moment is as it was. -/
structure Bears (b₀ : Broker) (h : Handle) (c : ClassDef) (sent : List (String × Variant))
    (b : Broker) : Prop where
  earlier : ∀ (i : Nat) (o : LiveObject), b₀.live[i]? = some o → b.live[i]? = some o
  there : ∃ values, b.live[h.id]? = some ⟨c, none, false, values⟩ ∧
    (∀ name v, (name, v) ∈ sent → ∃ v', values.get? name = some v' ∧ Kept b₀ b v v' ∧
      ∀ h', v' = .object h' → h'.id ≠ h.id) ∧
    ∀ name, name ∉ sent.map Prod.fst → values.get? name = none

variable {b₀ b : Broker} {h : Handle} {c : ClassDef} {sent : List (String × Variant)}

/-- One more value is put, under a name of its own. -/
theorem Bears.put (hb : Bears b₀ h c sent b) (hnew : b₀.live[h.id]? = none) {name : String}
    {v : Variant} (hname : name ∉ sent.map Prod.fst) (hown : isSystemName name = false)
    (hadmits : c.Admits name v) (hlive : ∀ h', v = .object h' → ∃ o, b₀.live[h'.id]? = some o) :
    ∃ b', (put h name v).run b = (.ok (), b') ∧ Bears b₀ h c (sent ++ [(name, v)]) b' := by
  obtain ⟨values, ho, hsent, hothers⟩ := hb.there
  have hok : ((Broker.put h name v).run b).1 = .ok () := by
    refine put_eq_ok_iff.mpr ⟨hown, ⟨_, ho, hadmits⟩, fun h' hv => ?_⟩
    obtain ⟨o, ho'⟩ := hlive h' hv
    exact ⟨o, hb.earlier _ _ ho'⟩
  obtain ⟨b', hrun⟩ : ∃ b', (Broker.put h name v).run b = (.ok (), b') := ⟨_, Prod.ext hok rfl⟩
  obtain ⟨o, v', ho', hw⟩ := written_of_put hrun
  obtain rfl := Option.some.inj (ho.symm.trans ho')
  have hearlier : ∀ (i : Nat) (o : LiveObject), b₀.live[i]? = some o → b'.live[i]? = some o := by
    intro i o ho
    refine hw.others i o ?_ (hb.earlier i o ho)
    rintro rfl
    rw [hnew] at ho
    cases ho
  refine ⟨b', hrun, hearlier, _, hw.there, ?_, ?_⟩
  · intro name' w hmem
    rcases List.mem_append.mp hmem with hbefore | hlast
    · -- what was put before stands under another name, and its copy, if it is one, is no instance
      obtain ⟨w', hw', hkept, hapart⟩ := hsent name' w hbefore
      refine ⟨w', ?_, hkept.later rfl fun h' hobject o ho => ?_, hapart⟩
      · rw [Table.get?_set, if_neg, hw']
        rintro rfl
        exact hname (List.mem_map.mpr ⟨_, hbefore, rfl⟩)
      · exact hw.others _ _ (hapart h' hobject) ho
    · obtain ⟨rfl, rfl⟩ := Prod.mk.inj (List.mem_singleton.mp hlast)
      refine ⟨v', by rw [Table.get?_set, if_pos rfl], ?_, hw.apart⟩
      cases hw.kept with
      | plain hplain => exact .plain hplain
      | @copied h₀ h' o ho ho' =>
        obtain ⟨o₀, ho₀⟩ := hlive h₀ rfl
        obtain rfl := Option.some.inj (ho.symm.trans (hb.earlier _ _ ho₀))
        exact .copied ho₀ ho'
  · intro name' hmem
    rw [List.map_append, List.mem_append, not_or] at hmem
    rw [Table.get?_set, if_neg, hothers name' hmem.1]
    rintro rfl
    exact hmem.2 (List.mem_singleton.mpr rfl)

/-- **A row of fields is put** (`Bears`), each under a name of its own, if the class admits what
is put. -/
theorem Bears.putFields {ω : Type} (own : ω) {declared : PropertyBag} {r : R}
    {fields : List (Field R)} (hb : Bears b₀ h c sent b) (hnew : b₀.live[h.id]? = none)
    (hnames : (sent.map Prod.fst ++ fields.map Field.name).Nodup)
    (hown : ∀ f ∈ fields, isSystemName f.name = false)
    (hadmits : ∀ f ∈ fields, ∀ name v, f.assignment? declared r = some (name, v) →
      c.Admits name v ∧ ∀ h', v = .object h' → ∃ o, b₀.live[h'.id]? = some o) :
    ∃ b', ((access.onFirst ω).putFields h declared r fields).run (b, own) = (.ok (), b', own) ∧
      Bears b₀ h c (sent ++ fields.filterMap fun f => f.assignment? declared r) b' := by
  induction fields generalizing b sent with
  | nil => exact ⟨b, rfl, by simpa using hb⟩
  | cons f fields ih =>
    obtain ⟨hownHead, hownRest⟩ := List.forall_mem_cons.mp hown
    obtain ⟨hadmitsHead, hadmitsRest⟩ := List.forall_mem_cons.mp hadmits
    have hf : f.name ∉ sent.map Prod.fst := fun hmem =>
      (List.nodup_append.mp hnames).2.2 _ hmem _ List.mem_cons_self rfl
    rw [ObjectAccess.putFields_cons]
    cases hsent : f.assignment? declared r with
    | none =>
      -- nothing is put, and the name is left alone
      have hrest : (sent.map Prod.fst ++ fields.map Field.name).Nodup :=
        hnames.sublist ((List.sublist_cons_self _ _).append_left _)
      obtain ⟨b', hrun, hb'⟩ := ih hb hrest hownRest hadmitsRest
      refine ⟨b', hrun, ?_⟩
      rwa [List.filterMap_cons, hsent]
    | some assignment =>
      obtain ⟨name, v⟩ := assignment
      obtain ⟨rfl, -, -⟩ := Field.assignment?_eq_some.mp hsent
      obtain ⟨hadmitted, hlive⟩ := hadmitsHead _ v hsent
      obtain ⟨b₁, hput, hb₁⟩ := hb.put hnew hf hownHead hadmitted hlive
      obtain ⟨b', hrun, hb'⟩ := ih hb₁ (by simpa using hnames) hownRest hadmitsRest
      refine ⟨b', ?_, ?_⟩
      · have hput' : ((access.onFirst ω).put h f.name v).run (b, own) = (.ok (), b₁, own) :=
          run_onFirst_of hput
        rw [run_bind_of_ok hput', hrun]
      · rwa [List.filterMap_cons, hsent, List.append_cons]

/-- The properties that are none of the system's are those that the class declares, each with its
value. -/
theorem bag_get? {o : LiveObject} {name : String} (hown : isSystemName name = false) :
    o.bag.get? name = (o.definition.declared? name).map fun _ => o.value name := by
  have hclass : classProperty ≠ name := by
    rintro rfl
    exact absurd hown (by decide)
  have hpath : pathProperty ≠ name := by
    rintro rfl
    exact absurd hown (by decide)
  unfold PropertyBag.get? PropertyBag.find? LiveObject.bag ClassDef.declared?
  rw [List.cons_append, List.cons_append, List.nil_append, List.find?_cons_of_neg (by simpa),
    List.find?_cons_of_neg (by simpa), List.find?_map, Option.map_map, Option.map_map]
  show Option.map _ (o.definition.properties.find? fun p => p.1 == name) = _
  cases hfound : o.definition.properties.find? fun p => p.1 == name with
  | none => rfl
  | some p =>
    have hname : p.1 = name := by simpa using List.find?_some hfound
    simp [hname]

/-- Looking at all properties changes nothing. -/
theorem run_properties {ω : Type} {own : ω} {o : LiveObject} (ho : b.live[h.id]? = some o) :
    ((access.onFirst ω).properties h).run (b, own) = (.ok o.bag, b, own) := by
  refine run_onFirst_of ?_
  show (liveObject h >>= fun o => pure o.bag).run b = _
  rw [run_bind_of_ok (liveObject_eq_ok.mpr ⟨ho, rfl⟩)]
  rfl

end Broker

/-- An instance that has nothing yet. -/
def LiveObject.blank (c : ClassDef) : LiveObject := ⟨c, none, false, .empty⟩

/-- Something is put for a field on a blank instance where its class declares the property. -/
theorem Field.assignment?_eq_some_of_blank {f : Field R} (hown : isSystemName f.name = false)
    {c : ClassDef} {r : R} {name : String} {v : Variant} :
    f.assignment? (LiveObject.blank c).bag r = some (name, v) ↔
      name = f.name ∧ c.declared? f.name ≠ none ∧ f.encode? r = some v := by
  have hfound := Broker.bag_get? (o := LiveObject.blank c) hown
  have hdeclared : (LiveObject.blank c).bag.contains f.name = true ↔ c.declared? f.name ≠ none := by
    rw [PropertyBag.contains, ← Option.isSome_map, ← PropertyBag.get?, hfound, Option.isSome_map,
      Option.isSome_iff_ne_none]
    rfl
  rw [Field.assignment?_eq_some, hdeclared]

/-! ## Reading -/

/-- **What is read from a bag**: each field that the bag has shows what its value decodes to, and
every other place of the record shows what it showed. -/
theorem ObjectAccess.readFields_eq_ok {bag : PropertyBag} {r : R} {fields : List (Field R)}
    (hkeeps : ∀ f ∈ fields, f.place.Keeps)
    (hapart : fields.Pairwise fun f g => f.place.Apart g.place)
    (hreads : ∀ f ∈ fields, ∀ v, bag.get? f.name = some v → ∃ y, f.type.decode v = .ok y) :
    ∃ r', readFields bag r fields = .ok r' ∧
      (∀ f ∈ fields, ∀ v, bag.get? f.name = some v → f.type.decode v = .ok (f.place.view r')) ∧
      (∀ f ∈ fields, bag.get? f.name = none → f.place.view r' = f.place.view r) ∧
      ∀ p : Place R, (∀ f ∈ fields, f.place.Apart p.2) → p.2.view r' = p.2.view r := by
  induction fields generalizing r with
  | nil => exact ⟨r, rfl, nofun, nofun, fun _ _ => rfl⟩
  | cons f fields ih =>
    obtain ⟨hkeepsHead, hkeepsRest⟩ := List.forall_mem_cons.mp hkeeps
    obtain ⟨hapartHead, hapartRest⟩ := List.pairwise_cons.mp hapart
    obtain ⟨hreadsHead, hreadsRest⟩ := List.forall_mem_cons.mp hreads
    have hlater : ∀ g ∈ fields, g.place.Apart f.place := fun g hg => (hapartHead g hg).symm
    cases hfound : bag.get? f.name with
    | none =>
      obtain ⟨r', hr', hdecoded, hothers, hrest⟩ := ih (r := r) hkeepsRest hapartRest hreadsRest
      refine ⟨r', by rw [readFields, hfound]; exact hr', ?_, ?_, ?_⟩
      · refine List.forall_mem_cons.mpr ⟨fun v hv => ?_, hdecoded⟩
        rw [hfound] at hv
        cases hv
      · exact List.forall_mem_cons.mpr ⟨fun _ => hrest ⟨_, f.place⟩ hlater, hothers⟩
      · exact fun p hp => hrest p fun g hg => hp g (List.mem_cons_of_mem f hg)
    | some v =>
      obtain ⟨y, hy⟩ := hreadsHead v hfound
      obtain ⟨r', hr', hdecoded, hothers, hrest⟩ :=
        ih (r := f.place.put y r) hkeepsRest hapartRest hreadsRest
      -- what was put for the field stays, since the later places are apart from its own
      have hview : f.place.view r' = y := (hrest ⟨_, f.place⟩ hlater).trans (hkeepsHead y r)
      refine ⟨r', ?_, ?_, ?_, ?_⟩
      · rw [readFields, hfound]
        show ((f.type.decode v).map fun x => f.place.put x r).bind _ = _
        rw [hy]
        exact hr'
      · refine List.forall_mem_cons.mpr ⟨fun v' hv' => ?_, hdecoded⟩
        rw [hfound] at hv'
        cases hv'
        rw [hview, hy]
      · refine List.forall_mem_cons.mpr ⟨fun hnone => ?_, fun g hg hnone => ?_⟩
        · rw [hfound] at hnone
          cases hnone
        · rw [hothers g hg hnone]
          exact (hapartHead g hg).left y r
      · intro p hp
        rw [hrest p fun g hg => hp g (List.mem_cons_of_mem f hg)]
        exact (hp f List.mem_cons_self).left y r

/-- What an identity receives. -/
def IdentityKind.choose (path className : String) : IdentityKind → String
  | .path => path
  | .className => className

/-- Identities that are set in a row: each shows what it received, and every other place of the
record shows what it showed. -/
theorem FieldTable.view_identify (path className : String) (r : R) (fields : List (Field R))
    {identities : List (Identity R)} (hkeeps : ∀ i ∈ identities, i.place.Keeps)
    (hapart : identities.Pairwise fun i j => i.place.Apart j.place) :
    (∀ i ∈ identities, i.place.view (FieldTable.identify ⟨fields, identities⟩ path className r) =
      i.kind.choose path className) ∧
      ∀ p : Place R, (∀ i ∈ identities, i.place.Apart p.2) →
        p.2.view (FieldTable.identify ⟨fields, identities⟩ path className r) = p.2.view r := by
  induction identities generalizing r with
  | nil => exact ⟨nofun, fun _ _ => rfl⟩
  | cons i identities ih =>
    obtain ⟨hkeepsHead, hkeepsRest⟩ := List.forall_mem_cons.mp hkeeps
    obtain ⟨hapartHead, hapartRest⟩ := List.pairwise_cons.mp hapart
    have hstep : FieldTable.identify ⟨fields, i :: identities⟩ path className r =
        FieldTable.identify ⟨fields, identities⟩ path className
          (i.place.put (i.kind.choose path className) r) := by
      cases hkind : i.kind <;> simp [identify, IdentityKind.choose, hkind]
    obtain ⟨hset, hrest⟩ := ih (i.place.put (i.kind.choose path className) r) hkeepsRest hapartRest
    rw [hstep]
    refine ⟨List.forall_mem_cons.mpr ⟨?_, hset⟩, fun p hp => ?_⟩
    · rw [hrest ⟨_, i.place⟩ fun j hj => (hapartHead j hj).symm]
      exact hkeepsHead _ _
    · rw [hrest p fun j hj => hp j (List.mem_cons_of_mem i hj)]
      exact (hp i List.mem_cons_self).left _ _

namespace Broker

open CimBroker.Action

variable {ω : Type} {own : ω} {b : Broker} {h : Handle}

/-- Reading a record is looking at the object, and asking for its path and class if the record has a
place for them. -/
theorem run_getAll [Record R] (own : ω) {o : LiveObject} (ho : b.live[h.id]? = some o) {r : R}
    (hread : ObjectAccess.readFields o.bag Record.blank (Record.table (R := R)).fields = .ok r) :
    ∃ b', ((access.onFirst ω).getAll R h).run (b, own) =
        (.ok ((Record.table (R := R)).identify (o.path.getD "") o.definition.name r), b', own) ∧
      b'.live = b.live := by
  have hfields : (Action.ofExcept (ObjectAccess.readFields o.bag Record.blank
      (Record.table (R := R)).fields)).run (b, own) = (.ok r, b, own) := by
    rw [hread, run_ofExcept]
  unfold ObjectAccess.getAll
  rw [run_bind_of_ok (run_properties ho), run_bind_of_ok hfields]
  cases hidentities : (Record.table (R := R)).identities with
  | nil =>
    refine ⟨b, ?_, rfl⟩
    rw [FieldTable.identify, hidentities]
    rfl
  | cons i identities =>
    have hpath : ((access.onFirst ω).path? h).run (b, own) =
        (.ok o.path, readFrom pathProperty b, own) := by
      unfold ObjectAccess.path?
      rw [run_getAs, readAt, ho, Option.elim_some, decode_path]
    refine ⟨readFrom classProperty (readFrom pathProperty b), ?_, rfl⟩
    show (((access.onFirst ω).path? h) >>= fun path => ((access.onFirst ω).className h) >>=
      fun className => pure ((Record.table (R := R)).identify (path.getD "") className r)).run
        (b, own) = _
    have hclass : ((access.onFirst ω).className h).run (readFrom pathProperty b, own) =
        (.ok o.definition.name, readFrom classProperty (readFrom pathProperty b), own) :=
      run_className ho
    rw [run_bind_of_ok hpath, run_bind_of_ok hclass]
    rfl

end Broker

/-! ## There and back -/

/-- A table that was built step by step and whose fields have names of their own, none of them the
system's. -/
structure FieldTable.Regular (t : FieldTable R) : Prop where
  built : t.Built
  distinct : t.names.Nodup
  own : ∀ name ∈ t.names, isSystemName name = false

theorem FieldTable.Regular.isOwn {t : FieldTable R} (h : t.Regular) {f : Field R}
    (hf : f ∈ t.fields) : isSystemName f.name = false :=
  h.own f.name (List.mem_map.mpr ⟨f, hf, rfl⟩)

/-- The record can be put on instances of the class: the class admits what is put for each field
that it declares, embedded objects are live, and the timestamps are such that come back. -/
structure Suits [Record R] (b : Broker) (c : ClassDef) (r : R) : Prop where
  mappable : ∀ f ∈ (Record.table (R := R)).fields, f.type.isMappable = true
  admitted : ∀ f ∈ (Record.table (R := R)).fields, ∀ t, c.declared? f.name = some t →
    ∀ v, f.encode? r = some v → t.accepts v = true
  embedded : ∀ f ∈ (Record.table (R := R)).fields, ∀ h, f.encode? r = some (.object h) →
    ∃ o, b.live[h.id]? = some o
  timed : ∀ f ∈ (Record.table (R := R)).fields, f.type.isTimed = true →
    f.type.decode (f.type.encode (f.place.view r)) = .ok (f.place.view r)

/-- What has become of a record that was written to a blank instance of the class and read back. -/
structure Restored [Record R] (before now : Broker) (c : ClassDef) (r r' : R) : Prop where
  declared : ∀ f ∈ (Record.table (R := R)).fields, c.declared? f.name ≠ none →
    f.type.Returned before now (f.place.view r) (f.place.view r')
  undeclared : ∀ f ∈ (Record.table (R := R)).fields, c.declared? f.name = none →
    f.place.view r' = f.place.view Record.blank
  identities : ∀ i ∈ (Record.table (R := R)).identities,
    i.place.view r' = i.kind.choose "" c.name

theorem Restored.later [Record R] {before now now' : Broker} {c : ClassDef} {r r' : R}
    (h : Restored before now c r r') (hlive : now'.live = now.live) :
    Restored before now' c r r' :=
  ⟨fun f hf hdeclared => (h.declared f hf hdeclared).later hlive, h.undeclared, h.identities⟩

namespace Broker

open CimBroker.Action

/-- What is put of a record on a blank instance of a class. -/
def assignments [Record R] (c : ClassDef) (r : R) : List (String × Variant) :=
  (Record.table (R := R)).fields.filterMap fun f => f.assignment? (LiveObject.blank c).bag r

/-- A blank instance is new. -/
theorem spawn_eq_ok {definition h : Handle} {b b' : Broker}
    (hrun : (spawn definition).run b = (.ok h, b')) :
    ∃ o, b.live[definition.id]? = some o ∧ h = ⟨b.live.size⟩ ∧
      b' = { b with live := b.live.push (.blank o.definition) } := by
  obtain ⟨o, between, hlive, hspawned⟩ := run_bind_eq_ok.mp hrun
  obtain ⟨ho, rfl⟩ := liveObject_eq_ok.mp hlive
  split at hspawned
  · cases hspawned
    exact ⟨o, ho, rfl, rfl⟩
  · cases hspawned

/-- Nothing was put on a blank instance. -/
theorem bears_spawned (b : Broker) (c : ClassDef) :
    Bears b ⟨b.live.size⟩ c [] { b with live := b.live.push (.blank c) } where
  earlier _ _ ho := live_push _ ho
  there := ⟨.empty, by simp [LiveObject.blank], nofun, fun _ _ => rfl⟩

variable {ω : Type} {own : ω} {b b₁ : Broker} {definition h : Handle} {o : LiveObject}

section There

variable [Record R] (htable : (Record.table (R := R)).Regular) {c : ClassDef} {r : R}
  (hr : Suits b c r)
include htable hr

/-- A record that suits the class is put on a blank instance. -/
theorem run_putAll (own : ω) {h : Handle} (hh : h = ⟨b.live.size⟩) :
    ∃ b₂, ((access.onFirst ω).putAll h r).run ({ b with live := b.live.push (.blank c) }, own) =
      (.ok (), b₂, own) ∧ Bears b h c (assignments c r) b₂ := by
  have hthere : ({ b with live := b.live.push (.blank c) } : Broker).live[h.id]? =
      some (.blank c) := by
    simp [hh]
  have hadmits : ∀ f ∈ (Record.table (R := R)).fields, ∀ name v,
      f.assignment? (LiveObject.blank c).bag r = some (name, v) →
      c.Admits name v ∧ ∀ h', v = .object h' → ∃ o, b.live[h'.id]? = some o := by
    intro f hf name v hassigned
    obtain ⟨rfl, hdeclared, hencoded⟩ :=
      (Field.assignment?_eq_some_of_blank (htable.isOwn hf)).mp hassigned
    obtain ⟨t, ht⟩ := Option.ne_none_iff_exists'.mp hdeclared
    exact ⟨⟨t, ht, hr.admitted f hf t ht v hencoded⟩,
      fun h' hv => hr.embedded f hf h' (hv ▸ hencoded)⟩
  obtain ⟨b₂, hrun, hb₂⟩ := (hh ▸ bears_spawned b c).putFields own (by simp [hh])
    htable.distinct (fun f hf => htable.isOwn hf) hadmits
  refine ⟨b₂, ?_, hb₂⟩
  unfold ObjectAccess.putAll
  rw [run_bind_of_ok (run_properties hthere)]
  exact hrun

/-- Once the record is put, what a declared field has decodes to what has become of its value. -/
theorem decode_of_sent {now : Broker} {values : Table Variant}
    (hsent : ∀ name v, (name, v) ∈ assignments c r → ∃ v', values.get? name = some v' ∧
      Kept b now v v' ∧ ∀ h', v' = .object h' → h'.id ≠ h.id)
    (hothers : ∀ name, name ∉ (assignments c r).map Prod.fst → values.get? name = none)
    {f : Field R} (hf : f ∈ (Record.table (R := R)).fields)
    (hdeclared : c.declared? f.name ≠ none) :
    ∃ y, f.type.decode ((values.get? f.name).getD .null) = .ok y ∧
      f.type.Returned b now (f.place.view r) y := by
  cases hsuppressed : f.type.isSuppressed (f.place.view r) with
  | true =>
    -- no other field has the name, so nothing was put under it
    have hnothing : values.get? f.name = none := by
      refine hothers f.name fun hmem => ?_
      obtain ⟨⟨_, v⟩, hassigned, rfl⟩ := List.mem_map.mp hmem
      obtain ⟨g, hg, hassigned⟩ := List.mem_filterMap.mp hassigned
      obtain ⟨hname, -, hencoded⟩ := Field.assignment?_eq_some.mp hassigned
      obtain rfl := List.inj_on_of_nodup_map htable.distinct hf hg hname
      rw [Field.encode?, if_pos hsuppressed] at hencoded
      cases hencoded
    rw [hnothing]
    exact DataType.returned_of_isSuppressed (hr.mappable f hf) hsuppressed (hr.timed f hf)
  | false =>
    have hencoded : f.encode? r = some (f.type.encode (f.place.view r)) := by
      rw [Field.encode?, hsuppressed]
      rfl
    have hassigned : f.assignment? (LiveObject.blank c).bag r = some (f.name, _) :=
      (Field.assignment?_eq_some_of_blank (htable.isOwn hf)).mpr ⟨rfl, hdeclared, hencoded⟩
    obtain ⟨v', hv', hkept, -⟩ := hsent _ _ (List.mem_filterMap.mpr ⟨f, hf, hassigned⟩)
    rw [hv']
    exact DataType.returned_of_kept (hr.mappable f hf) hsuppressed (hr.timed f hf) hkept

/-- What is read from the instance once the record is put. -/
theorem restored_of_sent {now : Broker} {values : Table Variant}
    (hsent : ∀ name v, (name, v) ∈ assignments c r → ∃ v', values.get? name = some v' ∧
      Kept b now v v' ∧ ∀ h', v' = .object h' → h'.id ≠ h.id)
    (hothers : ∀ name, name ∉ (assignments c r).map Prod.fst → values.get? name = none) :
    ∃ r', ObjectAccess.readFields (LiveObject.bag ⟨c, none, false, values⟩) Record.blank
        (Record.table (R := R)).fields = .ok r' ∧
      Restored b now c r ((Record.table (R := R)).identify "" c.name r') := by
  have horderly := htable.built.orderly
  obtain ⟨hfields, hidentities, hcross⟩ := List.pairwise_append.mp horderly.apart
  rw [FieldTable.fieldPlaces, List.pairwise_map] at hfields
  rw [FieldTable.identityPlaces, List.pairwise_map] at hidentities
  have hkeepsField : ∀ f ∈ (Record.table (R := R)).fields, f.place.Keeps := fun f hf =>
    horderly.keeps ⟨_, f.place⟩ (List.mem_append_left _ (List.mem_map.mpr ⟨f, hf, rfl⟩))
  have hkeepsIdentity : ∀ i ∈ (Record.table (R := R)).identities, i.place.Keeps := fun i hi =>
    horderly.keeps ⟨_, i.place⟩ (List.mem_append_right _ (List.mem_map.mpr ⟨i, hi, rfl⟩))
  have hfound : ∀ f ∈ (Record.table (R := R)).fields,
      (LiveObject.bag ⟨c, none, false, values⟩).get? f.name =
        (c.declared? f.name).map fun _ => (values.get? f.name).getD .null :=
    fun f hf => bag_get? (htable.isOwn hf)
  have hreads : ∀ f ∈ (Record.table (R := R)).fields, ∀ v,
      (LiveObject.bag ⟨c, none, false, values⟩).get? f.name = some v →
      ∃ y, f.type.decode v = .ok y ∧ f.type.Returned b now (f.place.view r) y := by
    intro f hf v hv
    rw [hfound f hf, Option.map_eq_some_iff] at hv
    obtain ⟨t, ht, rfl⟩ := hv
    exact decode_of_sent htable hr hsent hothers hf (by simp [ht])
  obtain ⟨r', hread, hdecoded, hblank, -⟩ := ObjectAccess.readFields_eq_ok (r := Record.blank)
    hkeepsField hfields fun f hf v hv => (hreads f hf v hv).imp fun _ hy => hy.1
  obtain ⟨hset, hrest⟩ := FieldTable.view_identify "" c.name r' (Record.table (R := R)).fields
    hkeepsIdentity hidentities
  -- the identities are apart from the fields, so setting them leaves the fields as they were read
  have hfield : ∀ f ∈ (Record.table (R := R)).fields,
      f.place.view ((Record.table (R := R)).identify "" c.name r') = f.place.view r' := by
    intro f hf
    refine hrest ⟨_, f.place⟩ fun i hi => ?_
    exact (hcross _ (List.mem_map.mpr ⟨f, hf, rfl⟩) _ (List.mem_map.mpr ⟨i, hi, rfl⟩)).symm
  refine ⟨r', hread, ?_, ?_, hset⟩
  · intro f hf hdeclared
    obtain ⟨t, ht⟩ := Option.ne_none_iff_exists'.mp hdeclared
    have hv := (hfound f hf).trans (congrArg _ ht)
    obtain ⟨y, hy, hreturned⟩ := hreads f hf _ hv
    obtain rfl := Except.ok.inj (hy.symm.trans (hdecoded f hf _ hv))
    rwa [hfield f hf]
  · intro f hf hundeclared
    rw [hfield f hf]
    exact hblank f hf ((hfound f hf).trans (congrArg _ hundeclared))

end There

/-- **A record comes back.**  `putAll` on a blank instance succeeds, and `getAll` on the same
instance returns a record, whatever part of it the class declares (`Restored`): each declared field
holds what `DataType.Returned` says of its value, that is, the value itself; nothing in the place of
an optional value whose content is suppressed or encodes to nothing (`DataType.settled`); and a copy
in the place of an object.  The fields that the class does not declare are as in `Record.blank`.  An
instance that was never stored has no path, and the class is the one that it was spawned from. -/
theorem record_comes_back [Record R] (own : ω) (htable : (Record.table (R := R)).Regular)
    (ho : b.live[definition.id]? = some o) (hspawn : (spawn definition).run b = (.ok h, b₁))
    {r : R} (hr : Suits b o.definition r) :
    ∃ b₂ b₃ r', ((access.onFirst ω).putAll h r).run (b₁, own) = (.ok (), b₂, own) ∧
      ((access.onFirst ω).getAll R h).run (b₂, own) = (.ok r', b₃, own) ∧
      Restored b b₃ o.definition r r' := by
  obtain ⟨o', ho', hh, rfl⟩ := spawn_eq_ok hspawn
  obtain rfl := Option.some.inj (ho.symm.trans ho')
  obtain ⟨b₂, hput, hbears⟩ := run_putAll htable hr own hh
  obtain ⟨values, hthere, hsent, hothers⟩ := hbears.there
  obtain ⟨r', hread, hrestored⟩ := restored_of_sent htable hr hsent hothers
  obtain ⟨b₃, hget, hsame⟩ := run_getAll own hthere hread
  exact ⟨b₂, b₃, _, hput, hget, hrestored.later hsame⟩

end Broker

/-! ## A disk -/

theorem regular_element : (Record.table (R := Element)).Regular where
  built := by
    refine .property (.property (.path .empty _ ?_ ?_) _ _ ?_ ?_) _ _ ?_ ?_
    all_goals first
      | exact fun _ _ => rfl
      | repeat refine List.forall_mem_cons.mpr ⟨⟨fun _ _ => rfl, fun _ _ => rfl⟩, ?_⟩
        exact List.forall_mem_nil _
  distinct := by decide
  own := by decide

theorem regular_disk : (Record.table (R := Disk)).Regular where
  built := by
    refine .property (.property (.property (.property (.property (.className
      (.embed .empty _ regular_element.built ?_ ?_) _ ?_ ?_) _ _ ?_ ?_) _ _ ?_ ?_) _ _ ?_ ?_)
      _ _ ?_ ?_) _ _ ?_ ?_
    all_goals first
      | exact fun _ _ => rfl
      | repeat refine List.forall_mem_cons.mpr ⟨⟨fun _ _ => rfl, fun _ _ => rfl⟩, ?_⟩
        exact List.forall_mem_nil _
  distinct := by decide
  own := by decide

/-- A class that declares all of a disk but `OnlyLocal`, and a property that no disk has. -/
def diskClass : ClassDef := .ofProperties "Msvm_Disk"
  [("InstanceID", .scalarOf .string), ("ElementName", .scalarOf .string),
    ("Size", .scalarOf (.integer false .w64)), ("Dedicated", .arrayOf (.integer false .w16)),
    ("Created", .scalarOf .dateTime), ("Owner", .scalarOf .string), ("Extra", .scalarOf .string)]

/-- A disk with an owner whose name is empty. -/
def ownedDisk : Disk :=
  { element := { path := "ignored", instanceId := "disk-1" }, className := "ignored", size := -1,
    dedicated := [2, 3], created := some ⟨1700000000, 0, 3600⟩, owner := some "", onlyLocal := 7 }

/-- The broker that has handed out the definition of the class of disks. -/
def diskBroker : Broker := { live := #[⟨diskClass, some diskClass.name, true, .empty⟩] }

theorem suits_ownedDisk : Suits diskBroker diskClass ownedDisk where
  mappable := by decide
  admitted := by
    have hadmitted : ∀ f ∈ (Record.table (R := Disk)).fields,
        ∀ t ∈ diskClass.declared? f.name, ∀ v ∈ f.encode? ownedDisk, t.accepts v = true := by
      decide +kernel
    exact fun f hf t ht v hv => hadmitted f hf t ht v hv
  embedded := by
    have hplain : ∀ f ∈ (Record.table (R := Disk)).fields,
        ∀ v ∈ f.encode? ownedDisk, v.varType? ≠ some .object := by
      decide +kernel
    exact fun f hf h hv => absurd rfl (hplain f hf _ hv)
  timed := by
    repeat'
      first
        | exact List.forall_mem_nil _
        | refine List.forall_mem_cons.mpr ⟨?_, ?_⟩
        | exact fun htimed => absurd htimed Bool.false_ne_true
        | exact fun _ => by decide +kernel

/-- The disk comes back without what is only local, and without the owner that has no name. -/
theorem owned_disk_comes_back : ∃ b₁ b₂ b₃,
    (Broker.spawn ⟨0⟩).run diskBroker = (.ok ⟨1⟩, b₁) ∧
      ((Broker.access.onFirst Unit).putAll ⟨1⟩ ownedDisk).run (b₁, ()) = (.ok (), b₂, ()) ∧
      ((Broker.access.onFirst Unit).getAll Disk ⟨1⟩).run (b₂, ()) =
        (.ok { ownedDisk with
          element := { path := "", instanceId := "disk-1" }
          className := "Msvm_Disk", owner := none, onlyLocal := 0 }, b₃, ()) := by
  have hspawn : (Broker.spawn ⟨0⟩).run diskBroker = (.ok ⟨1⟩, _) := rfl
  obtain ⟨b₂, b₃, r', hput, hget, hrestored⟩ := Broker.record_comes_back ()
    (o := ⟨diskClass, some diskClass.name, true, .empty⟩) regular_disk rfl hspawn suits_ownedDisk
  refine ⟨_, b₂, b₃, hspawn, hput, ?_⟩
  have hid : r'.element.instanceId = "disk-1" :=
    hrestored.declared ((Record.table (R := Disk)).fields[0]) (List.getElem_mem _) (by decide)
  have hname : r'.element.elementName = "" :=
    hrestored.declared ((Record.table (R := Disk)).fields[1]) (List.getElem_mem _) (by decide)
  have hsize : r'.size = -1 :=
    hrestored.declared ((Record.table (R := Disk)).fields[2]) (List.getElem_mem _) (by decide)
  have hdedicated : r'.dedicated = [2, 3] :=
    hrestored.declared ((Record.table (R := Disk)).fields[3]) (List.getElem_mem _) (by decide)
  have hcreated : r'.created = some ⟨1700000000, 0, 3600⟩ :=
    hrestored.declared ((Record.table (R := Disk)).fields[4]) (List.getElem_mem _) (by decide)
  have howner : r'.owner = none :=
    hrestored.declared ((Record.table (R := Disk)).fields[5]) (List.getElem_mem _) (by decide)
  have hlocal : r'.onlyLocal = 0 :=
    hrestored.undeclared ((Record.table (R := Disk)).fields[6]) (List.getElem_mem _) (by decide)
  have hpath : r'.element.path = "" :=
    hrestored.identities ((Record.table (R := Disk)).identities[0]) (List.getElem_mem _)
  have hclass : r'.className = "Msvm_Disk" :=
    hrestored.identities ((Record.table (R := Disk)).identities[1]) (List.getElem_mem _)
  have hrecord : r' = { ownedDisk with
      element := { path := "", instanceId := "disk-1" }
      className := "Msvm_Disk", owner := none, onlyLocal := 0 } := by
    rcases r' with ⟨⟨path, id, name⟩, className, size, dedicated, created, owner, onlyLocal⟩
    subst hid hname hsize hdedicated hcreated howner hlocal hpath hclass
    rfl
  rw [← hrecord]
  exact hget

/-! ## A memo -/

/-- A memo, in whose fields there can be nothing in more than one way. -/
structure Memo where
  limit : Option (Option (BitVec 32)) := none
  remark : Option Variant := none
  enclosure : Variant := .null

instance : Record Memo where
  blank := {}
  table := FieldTable.empty
    |>.property "Limit" "limit" (.optional (.optional .uint32))
      ⟨fun r => r.limit, fun x r => { r with limit := x }⟩
    |>.property "Remark" "remark" (.optional .variant)
      ⟨fun r => r.remark, fun x r => { r with remark := x }⟩
    |>.property "Enclosure" "enclosure" .variant
      ⟨fun r => r.enclosure, fun x r => { r with enclosure := x }⟩

theorem regular_memo : (Record.table (R := Memo)).Regular where
  built := by
    refine .property (.property (.property .empty _ _ ?_ ?_) _ _ ?_ ?_) _ _ ?_ ?_
    all_goals first
      | exact fun _ _ => rfl
      | repeat refine List.forall_mem_cons.mpr ⟨⟨fun _ _ => rfl, fun _ _ => rfl⟩, ?_⟩
        exact List.forall_mem_nil _
  distinct := by decide
  own := by decide

/-- The class of memos. -/
def memoClass : ClassDef := .ofProperties "Memo"
  [("Limit", .scalarOf (.integer false .w32)), ("Remark", .scalarOf .string),
    ("Enclosure", .scalarOf .object)]

/-- The broker that has handed out the definition of the class of memos, and a blank memo. -/
def memoBroker : Broker :=
  { live := #[⟨memoClass, some memoClass.name, true, .empty⟩, .blank memoClass] }

/-- A memo whose limit and remark are there but hold nothing, with the blank memo enclosed. -/
def hollowMemo : Memo := { limit := some none, remark := some .null, enclosure := .object ⟨1⟩ }

theorem suits_hollowMemo : Suits memoBroker memoClass hollowMemo where
  mappable := by decide
  admitted := by
    have hadmitted : ∀ f ∈ (Record.table (R := Memo)).fields,
        ∀ t ∈ memoClass.declared? f.name, ∀ v ∈ f.encode? hollowMemo, t.accepts v = true := by
      decide +kernel
    exact fun f hf t ht v hv => hadmitted f hf t ht v hv
  embedded := by
    intro f hf h hv
    have hsent : ∀ f ∈ (Record.table (R := Memo)).fields, ∀ v ∈ f.encode? hollowMemo,
        v = .null ∨ v = .object ⟨1⟩ := by
      decide +kernel
    rcases hsent f hf _ hv with hnull | hobject
    · cases hnull
    · cases hobject
      exact ⟨.blank memoClass, rfl⟩
  timed := by
    have htimed : ∀ f ∈ (Record.table (R := Memo)).fields, f.type.isTimed = false := by decide
    intro f hf h
    rw [htimed f hf] at h
    cases h

/-- A memo does not come back unchanged: what is there without holding anything is not there any
more, and what was enclosed is another object.  No field holds an empty text. -/
theorem hollow_memo_comes_back_changed :
    (Record.table (R := Memo)).Regular ∧ Suits memoBroker memoClass hollowMemo ∧
      ∃ b₁ b₂ b₃ memo, (Broker.spawn ⟨0⟩).run memoBroker = (.ok ⟨2⟩, b₁) ∧
        ((Broker.access.onFirst Unit).putAll ⟨2⟩ hollowMemo).run (b₁, ()) = (.ok (), b₂, ()) ∧
        ((Broker.access.onFirst Unit).getAll Memo ⟨2⟩).run (b₂, ()) = (.ok memo, b₃, ()) ∧
        memo.limit ≠ hollowMemo.limit ∧ memo.remark ≠ hollowMemo.remark ∧
        memo.enclosure ≠ hollowMemo.enclosure := by
  refine ⟨regular_memo, suits_hollowMemo, _, _, _, ⟨none, none, .object ⟨3⟩⟩, rfl, rfl, rfl,
    ?_, ?_, ?_⟩
  · exact nofun
  · exact nofun
  · decide

end CimBroker
