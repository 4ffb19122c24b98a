/-
# CimBroker.Proofs.ObjectText — what the exchange text of an object tells

The exchange text of an object has an element for each declared property that is not `null`, with
the name, the declared type and the text of the value.  Escaping leaves no quote and no bracket in
names and values, so the elements can be told apart, and two objects of a class have one text
exactly if each property shows the same (`LiveObject.writtenRow_eq_iff`).

A value that its declared type admits is told by its text as far as it has one: integers by their
digits, floating-point words by theirs (`Number.Binary.plain_eq_iff`), truth values by their truth.
Arrays and embedded objects have no text, and the element of such a property is empty, whatever it
holds.  So `Broker.object_texts_eq_iff` has these as the one exception.

`Broker.probes_are_told_by_name` and `Broker.arrays_leave_no_trace` show the two sides.  The objects
compared are typed (`LiveObject.IsTyped`), as those of the broker are as long as nothing is queued
that its class does not admit (`CimBroker.Proofs.BrokerRuns`).  Nothing is said here of reading such
a text.
-/
import CimBroker.Proofs.Cutting
import CimBroker.Proofs.ElementReading
import CimBroker.Proofs.Faithful
import CimBroker.Proofs.SelectedObjects
import CimBroker.Proofs.ShortestDecimals

namespace CimBroker

open Markup

/-! ## Values -/

theorem CimBase.eq_object_of_carrier? {base : CimBase} (h : base.carrier? = some .object) :
    base = .object := by
  cases base with
  | object => rfl
  | integer signed width => cases signed <;> cases width <;> cases h
  | _ => cases h

namespace Variant

/-- The value is a floating-point word that stands for no number. -/
def isNaN : Variant → Bool
  | .scalar (.single x) => x.isNaN
  | .scalar (.double x) => x.isNaN
  | _ => false

/-- Programs take the values for equal, or both are no number. -/
def Equal (v w : Variant) : Prop := v.same w = true ∨ v.isNaN = true ∧ w.isNaN = true

/-- What the text of an object shows of a value; it leaves out nothing but `null`. -/
def shownText? : Variant → Option String
  | .null => none
  | v => some <|
    match AtomType.decodeText v with
    | .ok shown => shown
    | .error _ => ""

/-- The ways in which two values are written alike. -/
inductive WrittenAlike : Variant → Variant → Prop where
  | identical (v : Variant) : WrittenAlike v v
  | truth {p q : BitVec 16} (h : Scalar.holds p = Scalar.holds q) :
      WrittenAlike (.bool p) (.bool q)
  | notNumber {v w : Variant} (hv : v.isNaN = true) (hw : w.isNaN = true) : WrittenAlike v w
  | composite {v w : Variant} (hv : v.IsComposite) (hw : w.IsComposite) : WrittenAlike v w

theorem shownText?_eq_none {v : Variant} : v.shownText? = none ↔ v = .null := by
  cases v <;> simp [shownText?]

theorem shownText?_of_ne_null {v : Variant} (hv : v ≠ .null) :
    v.shownText? = some (match AtomType.decodeText v with
      | .ok shown => shown
      | .error _ => "") := by
  cases v with
  | null => exact absurd rfl hv
  | _ => rfl

/-- An array or an embedded object is written as no text. -/
theorem shownText?_of_isComposite {v : Variant} (h : v.IsComposite) : v.shownText? = some "" := by
  rcases AtomType.decodeText_cases v with ⟨-, herror⟩ | ⟨hnot, -⟩
  · cases v with
    | null => exact h.elim
    | _ => simp [shownText?, herror]
  · exact absurd h hnot

theorem shownText?_of_isNaN {v : Variant} (h : v.isNaN = true) : v.shownText? = some "NaN" := by
  unfold isNaN at h
  split at h
  · next x => simp [shownText?, AtomType.decodeText, Number.Binary.plain, h]
  · next x => simp [shownText?, AtomType.decodeText, Number.Binary.plain, h]
  · cases h

theorem shownText?_eq_of_writtenAlike {v w : Variant} (h : WrittenAlike v w) :
    v.shownText? = w.shownText? := by
  cases h with
  | identical => rfl
  | truth h => simp [shownText?, AtomType.decodeText, h]
  | notNumber hv hw => rw [shownText?_of_isNaN hv, shownText?_of_isNaN hw]
  | composite hv hw => rw [shownText?_of_isComposite hv, shownText?_of_isComposite hw]

theorem boolText_injective : Function.Injective Scalar.boolText := by
  intro p q h
  cases p <;> cases q <;> revert h <;> decide

/-- A word of a width is told by the decimal digits of its number. -/
theorem eq_of_decimalInt {signed : Bool} {width : Number.Width} {x y : BitVec width.bits}
    (h : Number.decimalInt (Number.wordValue signed x) =
      Number.decimalInt (Number.wordValue signed y)) : x = y := by
  have hnumbers := congrArg Number.integer? h
  rw [Number.integer?_decimalInt (AtomType.natAbs_wordValue_lt signed width x),
    Number.integer?_decimalInt (AtomType.natAbs_wordValue_lt signed width y),
    Option.some.injEq] at hnumbers
  have hwords := congrArg (Number.word? signed width) hnumbers
  rwa [Number.word?_wordValue, Number.word?_wordValue, Option.some.injEq] at hwords

/-- Words of a format that are written alike are the same, or both no number. -/
theorem WrittenAlike.of_plain {f : Number.FloatFormat} (hf : f.Legible)
    (inject : Number.Binary f → Scalar) (hnan : ∀ x, (scalar (inject x)).isNaN = x.isNaN)
    {x y : Number.Binary f} (h : x.plain = y.plain) :
    WrittenAlike (.scalar (inject x)) (.scalar (inject y)) := by
  rcases (Number.Binary.plain_eq_iff hf).mp h with rfl | ⟨hx, hy⟩
  · exact .identical _
  · exact .notNumber ((hnan x).trans hx) ((hnan y).trans hy)

/-- The text of a scalar tells it among those with its tag, as far as texts go. -/
theorem WrittenAlike.of_scalars {s s' : Scalar} (htag : s'.varType = s.varType)
    (h : (scalar s).shownText? = (scalar s').shownText?) :
    WrittenAlike (.scalar s) (.scalar s') := by
  cases s with
  | bool p =>
    cases s' with
    | bool q =>
      exact .truth (boolText_injective (Option.some.inj h))
    | _ => cases htag
  | integer signed width x =>
    cases s' with
    | integer signed' width' y =>
      cases htag
      have hdigits := String.ofList_injective (Option.some.inj h)
      rw [eq_of_decimalInt hdigits]
      exact .identical _
    | _ => cases htag
  | single x =>
    cases s' with
    | single y =>
      have hplain : x.plain = y.plain := String.ofList_injective (Option.some.inj h)
      exact of_plain Number.FloatFormat.legible_single .single (fun _ => rfl) hplain
    | _ => cases htag
  | double x =>
    cases s' with
    | double y =>
      have hplain : x.plain = y.plain := String.ofList_injective (Option.some.inj h)
      exact of_plain Number.FloatFormat.legible_double .double (fun _ => rfl) hplain
    | _ => cases htag
  | text x =>
    cases s' with
    | text y =>
      rw [show x = y from Option.some.inj h]
      exact .identical _
    | _ => cases htag
  | object x =>
    cases s' with
    | object y => exact .composite trivial trivial
    | _ => cases htag

/-- **Which values of one declared type show the same text**: those that are `WrittenAlike`. -/
theorem shownText?_eq_iff {t : CimType} {v w : Variant} (hv : t.accepts v = true)
    (hw : t.accepts w = true) : v.shownText? = w.shownText? ↔ WrittenAlike v w := by
  refine ⟨fun h => ?_, shownText?_eq_of_writtenAlike⟩
  cases v with
  | null =>
    rw [shownText?_eq_none.mp (h.symm.trans (shownText?_eq_none.mpr rfl))]
    exact .identical _
  | scalar s =>
    cases w with
    | null => cases shownText?_eq_none.mp h
    | scalar s' =>
      simp only [CimType.accepts, Bool.and_eq_true, beq_iff_eq] at hv hw
      exact .of_scalars (Option.some.inj (hw.2.symm.trans hv.2)) h
    | array a =>
      simp only [CimType.accepts, Bool.and_eq_true, Bool.not_eq_true'] at hv hw
      cases hw.1.symm.trans hv.1
  | array a =>
    cases w with
    | null => cases shownText?_eq_none.mp h
    | scalar s' =>
      simp only [CimType.accepts, Bool.and_eq_true, Bool.not_eq_true'] at hv hw
      cases hv.1.symm.trans hw.1
    | array a' => exact .composite trivial trivial

/-- A value equals itself, unless it has no text. -/
theorem equal_self (v : Variant) : v.Equal v ∨ v.IsComposite := by
  have hnumber {f : Number.FloatFormat} (x : Number.Binary f) :
      x.sameNumber x = true ∨ x.isNaN = true := by
    cases hnan : x.isNaN <;> simp [Number.Binary.sameNumber, hnan]
  cases v with
  | null => exact .inl (.inl rfl)
  | array a => exact .inr trivial
  | scalar s =>
    cases s with
    | bool p => exact .inl (.inl (beq_self_eq_true _))
    | integer signed width x => exact .inl (.inl (beq_self_eq_true _))
    | single x => exact .inl ((hnumber x).imp id fun hnan => ⟨hnan, hnan⟩)
    | double x => exact .inl ((hnumber x).imp id fun hnan => ⟨hnan, hnan⟩)
    | text x => exact .inl (.inl (beq_self_eq_true _))
    | object x => exact .inr trivial

/-- Values that are written alike are equal, unless they have no text. -/
theorem WrittenAlike.equal {v w : Variant} (h : WrittenAlike v w) :
    v.Equal w ∨ v.IsComposite ∧ w.IsComposite := by
  cases h with
  | identical => exact (equal_self v).imp id fun h => ⟨h, h⟩
  | truth h => exact .inl (.inl (beq_iff_eq.mpr h))
  | notNumber hv hw => exact .inl (.inr ⟨hv, hw⟩)
  | composite hv hw => exact .inr ⟨hv, hw⟩

/-- A declaration of neither arrays nor objects admits values with texts only. -/
theorem not_isComposite_of_accepts {t : CimType} (harray : t.isArray = false)
    (hobject : t.isObject = false) {v : Variant} (h : t.accepts v = true) : ¬ v.IsComposite := by
  intro hcomposite
  cases v with
  | null => exact hcomposite
  | array a =>
    simp only [CimType.accepts, Bool.and_eq_true] at h
    exact absurd h.1 (Bool.eq_false_iff.mp harray)
  | scalar s =>
    cases s with
    | object x =>
      simp only [CimType.accepts, Bool.and_eq_true, beq_iff_eq] at h
      exact absurd (CimBase.eq_object_of_carrier? h.2) (beq_eq_false_iff_ne.mp hobject)
    | _ => exact hcomposite

end Variant

/-! ## Elements -/

/-- Texts without a mark are told apart by where the mark is. -/
theorem append_mark_inj {mark : Char} {text text' rest rest' : List Char} (h : mark ∉ text)
    (h' : mark ∉ text') :
    text ++ mark :: rest = text' ++ mark :: rest' ↔ text = text' ∧ rest = rest' := by
  refine ⟨fun heq => ?_, by rintro ⟨rfl, rfl⟩; rfl⟩
  have hcut := congrArg (Text.cutAtChar? mark) heq
  rw [Text.cutAtChar?_append rest h, Text.cutAtChar?_append rest' h', Option.some.injEq] at hcut
  exact Prod.mk.inj hcut

namespace LiveObject

/-- What stands between the name of a property and the text it shows. -/
def typeChars (p : String × CimType) : List Char :=
  " TYPE=\"".toList ++ (p.2.base.name.toLower.toList ++ "\"><VALUE>".toList)

/-- A property that shows a text, as it is written, and what follows it. -/
def writtenProperty (p : String × CimType) (shown : String) (rest : List Char) : List Char :=
  "<PROPERTY NAME=\"".toList ++ (escapeChars p.1.toList ++ '"' :: (typeChars p ++
    (escapeChars shown.toList ++ '<' :: ("/VALUE></PROPERTY>".toList ++ rest))))

/-- Properties that show texts or nothing, as they are written up to the end of the object. -/
def writtenRow (shown? : String → Option String) : Declarations → List Char
  | [] => "</INSTANCE>".toList
  | p :: declared => (shown? p.1).elim id (writtenProperty p) (writtenRow shown? declared)

theorem writtenRow_cons (shown? : String → Option String) (p : String × CimType)
    (declared : Declarations) : writtenRow shown? (p :: declared) =
      (shown? p.1).elim id (writtenProperty p) (writtenRow shown? declared) := rfl

theorem toList_propertyText (o : LiveObject) (p : String × CimType) (rest : List Char) :
    (o.propertyText p).toList ++ rest =
      (o.value p.1).shownText?.elim id (writtenProperty p) rest := by
  unfold propertyText
  split
  · next hnull =>
    rw [hnull]
    rfl
  · next v hne =>
    rw [Variant.shownText?_of_ne_null hne, Option.elim_some]
    unfold writtenProperty typeChars
    simp only [String.toList_append, toList_escape, List.append_assoc]
    rfl

theorem toList_text (o : LiveObject) :
    o.text.toList = "<INSTANCE CLASSNAME=\"".toList ++ (escapeChars o.definition.name.toList ++
      ("\">".toList ++
        writtenRow (fun name => (o.value name).shownText?) o.definition.properties)) := by
  have hrow (declared : Declarations) :
      (declared.map o.propertyText).flatMap String.toList ++ "</INSTANCE>".toList =
        writtenRow (fun name => (o.value name).shownText?) declared := by
    induction declared with
    | nil => rfl
    | cons p declared ih =>
      rw [List.map_cons, List.flatMap_cons, List.append_assoc, ih, toList_propertyText,
        writtenRow_cons]
  unfold text
  rw [← hrow]
  simp only [String.toList_append, String.toList_join, toList_escape, List.append_assoc]

variable {shown? other? : String → Option String} {p q : String × CimType} {declared : Declarations}
  {shown shown' : String} {rest rest' : List Char}

theorem name_eq_of_writtenProperty
    (h : writtenProperty p shown rest = writtenProperty q shown' rest') : p.1 = q.1 := by
  -- the names are told apart by the quotes that end them
  have hquote (name : String) : '"' ∉ escapeChars name.toList :=
    Markup.Token.not_mem_escapeChars (.inr (.inr rfl)) _
  have hnames := (append_mark_inj (hquote _) (hquote _)).mp (List.append_cancel_left h)
  exact String.toList_inj.mp (escapeChars_injective hnames.1)

theorem writtenProperty_eq_iff :
    writtenProperty p shown rest = writtenProperty p shown' rest' ↔
      shown = shown' ∧ rest = rest' := by
  have hangle (text : String) : '<' ∉ escapeChars text.toList :=
    Markup.Token.not_mem_escapeChars (.inl rfl) _
  unfold writtenProperty
  rw [List.append_right_inj, List.append_right_inj, List.cons_inj_right, List.append_right_inj,
    append_mark_inj (hangle _) (hangle _), List.append_right_inj, escapeChars_injective.eq_iff,
    String.toList_inj]

/-- A row that starts with a property shows the property. -/
theorem shown_of_writtenRow (h : writtenRow shown? declared = writtenProperty p shown rest) :
    shown? p.1 ≠ none := by
  induction declared with
  | nil =>
    have hsecond : some '/' = some 'P' := congrArg (fun row => row[1]?) h
    exact absurd hsecond (by decide)
  | cons q declared ih =>
    rw [writtenRow_cons] at h
    cases hq : shown? q.1 with
    | none =>
      rw [hq] at h
      exact ih h
    | some found =>
      rw [hq] at h
      rw [← name_eq_of_writtenProperty h, hq]
      nofun

/-- **Rows are told apart by what they show.** -/
theorem writtenRow_eq_iff : writtenRow shown? declared = writtenRow other? declared ↔
    ∀ p ∈ declared, shown? p.1 = other? p.1 := by
  induction declared with
  | nil => exact iff_of_true rfl (List.forall_mem_nil _)
  | cons p declared ih =>
    rw [List.forall_mem_cons, ← ih, writtenRow_cons, writtenRow_cons]
    cases hshown : shown? p.1 with
    | none =>
      cases hshown' : other? p.1 with
      | none => simp
      | some shown' =>
        -- nothing else in the row without the property is written like it
        exact iff_of_false (fun h => shown_of_writtenRow h hshown) fun h => absurd h.1 nofun
    | some shown =>
      cases hshown' : other? p.1 with
      | none =>
        exact iff_of_false (fun h => shown_of_writtenRow h.symm hshown') fun h => absurd h.1 nofun
      | some shown' =>
        rw [Option.elim_some, Option.elim_some, writtenProperty_eq_iff, Option.some.injEq]

/-- **Objects of one class are told apart by what they show.** -/
theorem text_eq_iff_shown {o o' : LiveObject} (hclass : o'.definition = o.definition) :
    o.text = o'.text ↔ ∀ p ∈ o.definition.properties,
      (o.value p.1).shownText? = (o'.value p.1).shownText? := by
  rw [← String.toList_inj, toList_text, toList_text, hclass, List.append_right_inj,
    List.append_right_inj, List.append_right_inj, writtenRow_eq_iff]

/-- Every property has a value that its declared type admits. -/
def IsTyped (o : LiveObject) : Prop :=
  ∀ p ∈ o.definition.properties, o.definition.Admits p.1 (o.value p.1)

/-- Where a class declares neither arrays nor objects, every value has a text. -/
theorem IsTyped.not_isComposite {o : LiveObject} (ho : o.IsTyped)
    (hscalar : ∀ q ∈ o.definition.properties, q.2.isArray = false ∧ q.2.isObject = false)
    {p : String × CimType} (hp : p ∈ o.definition.properties) : ¬ (o.value p.1).IsComposite := by
  obtain ⟨t, ht, haccepts⟩ := ho p hp
  obtain ⟨q, hq, rfl⟩ := Option.map_eq_some_iff.mp ht
  obtain ⟨harray, hobject⟩ := hscalar q (List.mem_of_find?_eq_some hq)
  exact Variant.not_isComposite_of_accepts harray hobject haccepts

theorem text_eq_iff {o o' : LiveObject} (hclass : o'.definition = o.definition) (ho : o.IsTyped)
    (ho' : o'.IsTyped) : o.text = o'.text ↔
      ∀ p ∈ o.definition.properties, (o.value p.1).WrittenAlike (o'.value p.1) := by
  rw [text_eq_iff_shown hclass]
  refine forall₂_congr fun p hp => ?_
  obtain ⟨t, ht, haccepts⟩ := ho p hp
  obtain ⟨t', ht', haccepts'⟩ := ho' p (hclass ▸ hp)
  rw [hclass, ht] at ht'
  cases ht'
  exact Variant.shownText?_eq_iff haccepts haccepts'

end LiveObject

/-! ## Objects of a broker -/

namespace Broker

open CimBroker.Action

variable {b b' : Broker} {h h' : Handle} {o o' : LiveObject}

theorem run_objectText (ho : b.live[h.id]? = some o) : (objectText h).run b = (.ok o.text, b) := by
  unfold objectText
  rw [run_bind_of_ok (liveObject_eq_ok.mpr ⟨ho, rfl⟩)]
  rfl

/-- **Which objects have one exchange text.** Every object has one (`objectText`).  Two typed
objects of a class (`LiveObject.IsTyped`) have the same text exactly if the values of each property
are written alike (`Variant.WrittenAlike`).  Then the values are equal, or both no number
(`Variant.Equal`), unless both are arrays or embedded objects (`Variant.IsComposite`): these are
written as no text, so that any two of them are written alike.  Where the class declares neither,
one text means equal values. -/
theorem object_texts_eq_iff (ho : b.live[h.id]? = some o) (ho' : b'.live[h'.id]? = some o')
    (hclass : o'.definition = o.definition) (htyped : o.IsTyped) (htyped' : o'.IsTyped) :
    ∃ text text', (objectText h).run b = (.ok text, b) ∧
      (objectText h').run b' = (.ok text', b') ∧
      (text = text' ↔
        ∀ p ∈ o.definition.properties, (o.value p.1).WrittenAlike (o'.value p.1)) ∧
      (text = text' → ∀ p ∈ o.definition.properties, (o.value p.1).Equal (o'.value p.1) ∨
        (o.value p.1).IsComposite ∧ (o'.value p.1).IsComposite) ∧
      ((∀ q ∈ o.definition.properties, q.2.isArray = false ∧ q.2.isObject = false) →
        text = text' → ∀ p ∈ o.definition.properties, (o.value p.1).Equal (o'.value p.1)) := by
  have hiff := LiveObject.text_eq_iff hclass htyped htyped'
  have hequal (htext : o.text = o'.text) (p : String × CimType)
      (hp : p ∈ o.definition.properties) : (o.value p.1).Equal (o'.value p.1) ∨
        (o.value p.1).IsComposite ∧ (o'.value p.1).IsComposite :=
    (hiff.mp htext p hp).equal
  refine ⟨_, _, run_objectText ho, run_objectText ho', hiff, hequal, fun hscalar htext p hp => ?_⟩
  exact (hequal htext p hp).resolve_right fun hcomposite =>
    htyped.not_isComposite hscalar hp hcomposite.1

/-- A class of probes. -/
def probeClass : ClassDef := .ofProperties "Probe"
  [("Name", .scalarOf .string), ("Level", .scalarOf .real32), ("Ready", .scalarOf .boolean),
    ("Note", .scalarOf .string)]

/-- A probe without a note. -/
def probe (name : String) (level : BitVec 32) (ready : BitVec 16) : LiveObject :=
  ⟨probeClass, none, false, .ofList
    [("Name", .text name), ("Level", .scalar (.single ⟨level⟩)), ("Ready", .bool ready)]⟩

theorem mem_probeClass {p : String × CimType} : p ∈ probeClass.properties ↔
    p = ("Name", .scalarOf .string) ∨ p = ("Level", .scalarOf .real32) ∨
      p = ("Ready", .scalarOf .boolean) ∨ p = ("Note", .scalarOf .string) := by
  simp [probeClass, ClassDef.ofProperties]

theorem value_probe (name : String) (level : BitVec 32) (ready : BitVec 16) :
    (probe name level ready).value "Name" = .text name ∧
      (probe name level ready).value "Level" = .scalar (.single ⟨level⟩) ∧
      (probe name level ready).value "Ready" = .bool ready ∧
      (probe name level ready).value "Note" = .null := by
  simp [LiveObject.value, probe, Table.get?_ofList]

theorem isTyped_probe (name : String) (level : BitVec 32) (ready : BitVec 16) :
    (probe name level ready).IsTyped := by
  intro p hp
  obtain ⟨hname, hlevel, hready, hnote⟩ := value_probe name level ready
  obtain rfl | rfl | rfl | rfl := mem_probeClass.mp hp
  · exact ⟨_, rfl, hname ▸ rfl⟩
  · exact ⟨_, rfl, hlevel ▸ rfl⟩
  · exact ⟨_, rfl, hready ▸ rfl⟩
  · exact ⟨_, rfl, hnote ▸ rfl⟩

/-- Probes behind handles: two that are ready at no level, and one of another name. -/
def probes : Broker :=
  { live := #[probe "<a>" 0x7fc00000 1, probe "<a>" 0x7fc00001 2, probe "&lt;a&gt;" 0x7fc00000 1] }

/-- The patterns of a truth value and of no number do not show in a text, and a name that looks like
an escaped one is told from it. -/
theorem probes_are_told_by_name :
    probes.live[0]? = some (probe "<a>" 0x7fc00000 1) ∧
      probes.live[1]? = some (probe "<a>" 0x7fc00001 2) ∧
      probes.live[2]? = some (probe "&lt;a&gt;" 0x7fc00000 1) ∧
      (∃ text, (objectText ⟨0⟩).run probes = (.ok text, probes) ∧
        (objectText ⟨1⟩).run probes = (.ok text, probes)) ∧
      ∃ text text', (objectText ⟨0⟩).run probes = (.ok text, probes) ∧
        (objectText ⟨2⟩).run probes = (.ok text', probes) ∧ text ≠ text' := by
  refine ⟨rfl, rfl, rfl, ?_, ?_⟩
  · obtain ⟨text, text', hrun, hrun', hiff, -⟩ := object_texts_eq_iff
      (show probes.live[(⟨0⟩ : Handle).id]? = some (probe "<a>" 0x7fc00000 1) from rfl)
      (show probes.live[(⟨1⟩ : Handle).id]? = some (probe "<a>" 0x7fc00001 2) from rfl)
      rfl (isTyped_probe _ _ _) (isTyped_probe _ _ _)
    have hsame : text = text' := by
      refine hiff.mpr fun p hp => ?_
      obtain rfl | rfl | rfl | rfl := mem_probeClass.mp hp
      · exact .identical _
      · exact .notNumber (by decide) (by decide)
      · exact .truth (by decide)
      · exact .identical _
    exact ⟨text, hrun, hsame ▸ hrun'⟩
  · obtain ⟨text, text', hrun, hrun', -, -, hequal⟩ := object_texts_eq_iff
      (show probes.live[(⟨0⟩ : Handle).id]? = some (probe "<a>" 0x7fc00000 1) from rfl)
      (show probes.live[(⟨2⟩ : Handle).id]? = some (probe "&lt;a&gt;" 0x7fc00000 1) from rfl)
      rfl (isTyped_probe _ _ _) (isTyped_probe _ _ _)
    refine ⟨text, text', hrun, hrun', fun hsame => ?_⟩
    rcases hequal (by decide) hsame ("Name", .scalarOf .string) (by decide) with hname | hnan
    · exact absurd hname (by decide)
    · exact absurd hnan.1 (by decide)

/-- An object with an array of texts. -/
def tagged (tags : List String) : LiveObject :=
  ⟨.ofProperties "Widget" [("Tags", .arrayOf .string)], none, false,
    .ofList [("Tags", .ofTexts tags)]⟩

/-- Two objects behind handles with different tags. -/
def taggedPair : Broker := { live := #[tagged ["red"], tagged ["green", "blue"]] }

/-- Two objects of one class with different arrays have the same text. -/
theorem arrays_leave_no_trace :
    let text := "<INSTANCE CLASSNAME=\"Widget\">" ++
      "<PROPERTY NAME=\"Tags\" TYPE=\"string\"><VALUE></VALUE></PROPERTY></INSTANCE>"
    taggedPair.live[0]? = some (tagged ["red"]) ∧
      taggedPair.live[1]? = some (tagged ["green", "blue"]) ∧
      (tagged ["green", "blue"]).definition = (tagged ["red"]).definition ∧
      (tagged ["red"]).IsTyped ∧ (tagged ["green", "blue"]).IsTyped ∧
      (objectText ⟨0⟩).run taggedPair = (.ok text, taggedPair) ∧
      (objectText ⟨1⟩).run taggedPair = (.ok text, taggedPair) ∧
      ("Tags", .arrayOf .string) ∈ (tagged ["red"]).definition.properties ∧
      ¬ ((tagged ["red"]).value "Tags").Equal ((tagged ["green", "blue"]).value "Tags") := by
  have htyped (tags : List String) : (tagged tags).IsTyped := by
    intro p hp
    obtain rfl := List.mem_singleton.mp hp
    exact ⟨_, rfl, rfl⟩
  refine ⟨rfl, rfl, rfl, htyped _, htyped _, ?_, ?_, by decide, ?_⟩
  · rw [run_objectText (show taggedPair.live[(⟨0⟩ : Handle).id]? = some (tagged ["red"]) from rfl)]
    congr 2
    decide +kernel
  · rw [run_objectText
      (show taggedPair.live[(⟨1⟩ : Handle).id]? = some (tagged ["green", "blue"]) from rfl)]
    congr 2
    decide +kernel
  · rintro (hsame | hnan)
    · exact absurd hsame (by decide)
    · exact absurd hnan.1 (by decide)

end Broker

end CimBroker
