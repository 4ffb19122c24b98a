/-
# CimBroker.Proofs.ArrayLayouts — every array that can be made has a layout

An array is made with a check of its items, without items, from texts, or by the codec, and only the
first of these ways looks at the tags.  All the same, every array holds only items under its element
tag (`VariantArray.Obtained.uniform`): the codec encodes the items of a list one by one under the
carrier of their type, and what it passes through was an array before.

The automation runtime is handed arrays through one extractor for each element tag.  An extractor
takes the scalars with its tag and no others (`AutomationArray.Extractor`), so an array has a layout
exactly if it is uniform and does not hold objects (`AutomationArray.ofArray_succeeds_iff`).

`arrays_are_laid_out` puts the two together: the layout is the one for the element tag, with an
entry for each item that shows it (`AutomationArray.Layout.Shows`), and arrays of objects fail with
the one error there is.  `signed_bytes_are_laid_out` is the case in which the entries are wider than
the items.  What the runtime does with a layout, and what the receiver makes of it, is not said
here.
-/
import CimBroker.Proofs.ExactWidening
import CimBroker.Proofs.Faithful
import CimBroker.Variant.Automation
import Mathlib.Data.List.Forall2

namespace CimBroker

/-! ## Rows that succeed -/

section Rows

variable {α β ε : Type}

/-- Two steps succeed with what the second makes of the first one's result. -/
theorem bind_eq_ok_iff {first : Except ε α} {next : α → Except ε β} {y : β} :
    (first >>= next) = .ok y ↔ ∃ x, first = .ok x ∧ next x = .ok y := by
  cases first with
  | error e => simp [bind, Except.bind]
  | ok x => simp [bind, Except.bind]

theorem map_eq_ok_iff {outcome : Except ε α} {f : α → β} {y : β} :
    f <$> outcome = .ok y ↔ ∃ x, outcome = .ok x ∧ f x = y := by
  cases outcome with
  | error e => simp [Functor.map, Except.map]
  | ok x => simp [Functor.map, Except.map]

/-- A row of steps succeeds with the results of its steps, in order. -/
theorem mapM_eq_ok_iff {f : α → Except ε β} {xs : List α} {ys : List β} :
    xs.mapM f = .ok ys ↔ List.Forall₂ (fun x y => f x = .ok y) xs ys := by
  induction xs generalizing ys with
  | nil =>
    rw [List.mapM_nil, List.forall₂_nil_left_iff]
    constructor
    · rintro ⟨⟩
      rfl
    · rintro rfl
      rfl
  | cons x xs ih =>
    simp only [List.mapM_cons, bind_eq_ok_iff, List.forall₂_cons_left_iff, ih]
    constructor
    · rintro ⟨y, hy, rest, hrest, ⟨⟩⟩
      exact ⟨y, rest, hy, hrest, rfl⟩
    · rintro ⟨y, rest, hy, hrest, rfl⟩
      exact ⟨y, hy, rest, hrest, rfl⟩

/-- A result of a row is the result of one of its steps. -/
theorem exists_step_of_mem {r : α → β → Prop} {xs : List α} {ys : List β}
    (h : List.Forall₂ r xs ys) {y : β} (hy : y ∈ ys) : ∃ x ∈ xs, r x y := by
  induction h with
  | nil => cases hy
  | @cons x y' xs ys hhead _ ih =>
    rcases List.mem_cons.mp hy with rfl | hy
    · exact ⟨x, List.mem_cons_self, hhead⟩
    · obtain ⟨x', hx', hr⟩ := ih hy
      exact ⟨x', List.mem_cons_of_mem _ hx', hr⟩

end Rows

/-! ## Uniform arrays -/

namespace VariantArray

/-- The items as tagged values. -/
def values (a : VariantArray) : List Variant := a.items.map .scalar

/-- Every item has the element tag; so none of them is nothing, and none is an array. -/
def Uniform (a : VariantArray) : Prop := ∀ v ∈ a.values, v.varType? = some a.element

theorem uniform_iff {a : VariantArray} : a.Uniform ↔ ∀ s ∈ a.items, s.varType = a.element := by
  simp [Uniform, values, Variant.varType?]

theorem scalarTagged_eq_ok {tag : VarType} {v : Variant} {s : Scalar} :
    v.scalarTagged tag = .ok s ↔ v = .scalar s ∧ s.varType = tag := by
  cases v with
  | scalar s' =>
    simp only [Variant.scalarTagged, Variant.scalar.injEq]
    split
    next h =>
      constructor
      · rintro ⟨⟩
        exact ⟨rfl, h⟩
      · rintro ⟨rfl, -⟩
        rfl
    next h =>
      constructor
      · rintro ⟨⟩
      · rintro ⟨rfl, h'⟩
        exact absurd h' h
  | null => simp [Variant.scalarTagged]
  | array a => simp [Variant.scalarTagged]

/-- The check lets an array of the given values through exactly if they all have the tag. -/
theorem ofVariants_eq_ok {element : VarType} {items : List Variant} {a : VariantArray} :
    ofVariants element items = .ok a ↔ a.element = element ∧ a.values = items ∧ a.Uniform := by
  have hrow (scalars : List Scalar) :
      items.mapM (Variant.scalarTagged element) = .ok scalars ↔
        scalars.map .scalar = items ∧ ∀ s ∈ scalars, s.varType = element := by
    simp only [mapM_eq_ok_iff, scalarTagged_eq_ok]
    constructor
    · intro h
      induction h with
      | nil => simp
      | cons hhead _ ih =>
        obtain ⟨rfl, hs⟩ := hhead
        exact ⟨congrArg _ ih.1, List.forall_mem_cons.mpr ⟨hs, ih.2⟩⟩
    · rintro ⟨rfl, h⟩
      rw [List.forall₂_map_left_iff, List.forall₂_same]
      exact fun s hs => ⟨rfl, h s hs⟩
  rw [uniform_iff, ofVariants]
  cases hscalars : items.mapM (Variant.scalarTagged element) with
  | ok scalars =>
    obtain ⟨hitems, htags⟩ := (hrow scalars).mp hscalars
    constructor
    · rintro ⟨⟩
      exact ⟨rfl, hitems, htags⟩
    · rintro ⟨rfl, hvalues, htags'⟩
      have hsame := (hrow a.items).mpr ⟨hvalues, htags'⟩
      obtain rfl := Except.ok.inj (hscalars.symm.trans hsame)
      rfl
  | error bad =>
    constructor
    · rintro ⟨⟩
    · rintro ⟨rfl, hvalues, htags⟩
      have hsame := (hrow a.items).mpr ⟨hvalues, htags⟩
      exact absurd (hscalars.symm.trans hsame) (by simp)

end VariantArray

/-! ## What arrays are made from -/

/-- The array that a tagged value is, if it is one. -/
def Variant.arrays : Variant → List VariantArray
  | .array a => [a]
  | _ => []

namespace DataType

/-- The arrays in a client's value that were made before: those among its tagged values. -/
def arrays : (t : DataType) → t.Value → List VariantArray
  | variant, v => v.arrays
  | optional _, none => []
  | optional t, some x => t.arrays x
  | list t, xs => xs.flatMap t.arrays
  | _, _ => []

/-- The values in an encoded list are those that its items are encoded as when they stand alone. -/
theorem values_of_encodeAs_list {b : AtomType} {isPresent : Bool} {xs : List b.Value}
    {a : VariantArray} (h : (list (atom b)).encodeAs isPresent xs = .array a) :
    a.element = b.carrier ∧ a.values = xs.map (atom b).encode := by
  rcases encodeAs_list b isPresent xs with ⟨-, -, hnull⟩ | harray
  · cases hnull.symm.trans h
  · obtain rfl := Variant.array.inj (harray.symm.trans h)
    exact ⟨rfl, List.map_map⟩

/-- An array that encoding makes is uniform, or it was in the value before. -/
theorem encodeAs_eq_array {t : DataType} {isPresent : Bool} {x : t.Value} {a : VariantArray}
    (h : t.encodeAs isPresent x = .array a) : a ∈ t.arrays x ∨ a.Uniform := by
  induction t generalizing isPresent with
  | atom b => cases h
  | datetime =>
    unfold encodeAs at h
    cases hx : x.encode <;> rw [hx] at h <;> cases h
  | variant =>
    obtain rfl : x = .array a := h
    exact .inl (List.mem_singleton_self a)
  | handle => cases h
  | optional t ih =>
    cases x with
    | none => cases h
    | some x => exact ih h
  | list t _ =>
    cases t with
    | atom b =>
      right
      obtain ⟨helement, hvalues⟩ := values_of_encodeAs_list h
      intro v hv
      rw [hvalues] at hv
      obtain ⟨y, -, rfl⟩ := List.mem_map.mp hv
      rw [helement]
      exact congrArg some (b.varType_encode y)
    | _ => cases h

/-- Decoding makes no array: one in the decoded value is the value that was decoded. -/
theorem eq_array_of_decode {t : DataType} {v : Variant} {x : t.Value} {a : VariantArray}
    (h : t.decode v = .ok x) (ha : a ∈ t.arrays x) : v = .array a := by
  induction t generalizing v with
  | atom b => cases ha
  | datetime => cases ha
  | handle => cases ha
  | variant =>
    obtain rfl : v = x := Except.ok.inj h
    cases v with
    | array b => rw [List.mem_singleton.mp ha]
    | _ => cases ha
  | optional t ih =>
    cases x with
    | none => cases ha
    | some x =>
      have hpresent (hmap : (t.decode v).map some = .ok (some x)) : t.decode v = .ok x := by
        cases hv : t.decode v with
        | error e =>
          rw [hv] at hmap
          cases hmap
        | ok y =>
          rw [hv] at hmap
          cases hmap
          rfl
      cases v with
      | null => cases h
      | scalar s => exact ih (hpresent h) ha
      | array b => exact ih (hpresent h) ha
  | list t ih =>
    cases v with
    | null =>
      obtain rfl : [] = x := Except.ok.inj h
      cases ha
    | scalar s => cases h
    | array b =>
      -- the items are scalars, so none of them decodes to a value with an array
      obtain ⟨y, hy, hay⟩ := List.mem_flatMap.mp ha
      obtain ⟨s, -, hs⟩ := exists_step_of_mem (mapM_eq_ok_iff.mp h) hy
      cases ih hs hay

end DataType

/-! ## Every array is uniform -/

namespace VariantArray

/-- The arrays that can be made: with a check of the items, without items, from texts, and by the
codec out of values whose own arrays were made so. -/
inductive Obtained : VariantArray → Prop
  | checked {element : VarType} {items : List Variant} {a : VariantArray}
      (h : ofVariants element items = .ok a) : Obtained a
  | empty (element : VarType) : Obtained (empty element)
  | texts (items : List String) {a : VariantArray} (h : Variant.ofTexts items = .array a) :
      Obtained a
  | encoded (t : DataType) (x : t.Value) (isPresent : Bool) {a : VariantArray}
      (held : ∀ b ∈ t.arrays x, Obtained b) (h : t.encodeAs isPresent x = .array a) : Obtained a
  | decoded (t : DataType) {v : Variant} {x : t.Value} {a : VariantArray}
      (held : ∀ b, v = .array b → Obtained b) (h : t.decode v = .ok x) (ha : a ∈ t.arrays x) :
      Obtained a

/-- **Every array that is `Obtained` is `Uniform`**, also those that are made without a look at
the tags. -/
theorem Obtained.uniform {a : VariantArray} (h : a.Obtained) : a.Uniform := by
  induction h with
  | checked h => exact (ofVariants_eq_ok.mp h).2.2
  | empty element => simp [uniform_iff, VariantArray.empty]
  | texts items h =>
    obtain rfl := Variant.array.inj h
    simp [uniform_iff, Scalar.varType]
  | encoded t x isPresent _ h ih =>
    rcases DataType.encodeAs_eq_array h with ha | ha
    · exact ih _ ha
    · exact ha
  | decoded t _ h ha ih => exact ih _ (DataType.eq_array_of_decode h ha)

end VariantArray

/-! ## Layouts -/

namespace AutomationArray

/-- The layouts that the runtime has. -/
inductive Layout where
  | texts
  | bools
  | bytes
  | integers (signed : Bool) (width : Number.Width)
  | doubles
  deriving DecidableEq, Repr

namespace Layout

/-- The entries of an array in a layout. -/
@[reducible] def Entry : Layout → Type
  | texts => String
  | bools => Bool
  | bytes => BitVec 8
  | integers _ width => BitVec width.bits
  | doubles => Number.Double

/-- The array with the given entries. -/
def array : (l : Layout) → List l.Entry → AutomationArray
  | texts, entries => .texts entries
  | bools, entries => .bools entries
  | bytes, entries => .bytes entries
  | integers signed width, entries => .integers signed width entries
  | doubles, entries => .doubles entries

@[simp] theorem size_array (l : Layout) (entries : List l.Entry) :
    (l.array entries).size = entries.length := by
  cases l <;> rfl

/-- The layout for an element tag. -/
def ofTag? : VarType → Option Layout
  | .text => some texts
  | .bool => some bools
  | .integer false .w8 => some bytes
  | .integer true .w8 => some (integers true .w16)
  | .integer signed width => some (integers signed width)
  | .single => some doubles
  | .double => some doubles
  | .object => none

/-- An entry is the item that it stands for: the same text, word or number, the truth of a pattern,
a signed byte's number in a wider word, a single's meaning in a wider format. -/
inductive Shows : (l : Layout) → Scalar → l.Entry → Prop
  | text (s : String) : Shows texts (.text s) s
  | bool (p : BitVec 16) (b : Bool) (h : b = true ↔ p ≠ 0) : Shows bools (.bool p) b
  | byte (word : BitVec 8) : Shows bytes (.integer false .w8 word) word
  | integer (signed : Bool) (width : Number.Width) (word : BitVec width.bits) :
      Shows (integers signed width) (.integer signed width word) word
  | signedByte (byte : BitVec 8) (word : BitVec 16)
      (h : Number.wordValue true word = Number.wordValue true byte) :
      Shows (integers true .w16) (.integer true .w8 byte) word
  | single (x : Number.Single) (y : Number.Double) (h : x.Agrees y) : Shows doubles (.single x) y
  | double (x : Number.Double) : Shows doubles (.double x) x

end Layout

/-! ## Extractors -/

/-- The extractor for a tag: arrays with the tag are laid out with it, it takes the scalars with the
tag and no others, and what it takes out of one is the entry that shows it. -/
structure Extractor (tag : VarType) (l : Layout) (pick : Scalar → Option l.Entry) : Prop where
  lays (items : List Scalar) : ofArray ⟨tag, items⟩ = l.array <$> collect pick ⟨tag, items⟩
  takes (s : Scalar) : (pick s).isSome ↔ s.varType = tag
  shows {s : Scalar} {entry : l.Entry} : pick s = some entry → l.Shows s entry

/-- The bits are taken out of the integers with the reading and the width. -/
theorem word?_eq_some {signed : Bool} {width : Number.Width} {s : Scalar}
    {word : BitVec width.bits} :
    word? signed width s = some word ↔ s = .integer signed width word := by
  unfold word?
  split
  next signed' width' word' =>
    constructor
    · intro h
      split at h
      next hwidth =>
        subst hwidth
        split at h
        next hsigned =>
          subst hsigned
          cases h
          rfl
        next => cases h
      next => cases h
    · rintro ⟨⟩
      simp
  next hnot =>
    constructor
    · rintro ⟨⟩
    · rintro rfl
      exact absurd rfl (hnot signed width word)

theorem isSome_word? (signed : Bool) (width : Number.Width) (s : Scalar) :
    (word? signed width s).isSome ↔ s.varType = .integer signed width := by
  rw [Option.isSome_iff_exists]
  constructor
  · rintro ⟨word, h⟩
    rw [word?_eq_some.mp h]
    rfl
  · intro h
    cases s with
    | integer signed' width' word =>
      cases h
      exact ⟨word, word?_eq_some.mpr rfl⟩
    | _ => cases h

/-- The extractor for integers that keep their width. -/
theorem integerExtractor {signed : Bool} {width : Number.Width}
    (h : ∀ items, ofArray ⟨.integer signed width, items⟩ =
      integers signed width <$> collect (word? signed width) ⟨.integer signed width, items⟩) :
    Extractor (.integer signed width) (.integers signed width) (word? signed width) where
  lays := h
  takes := isSome_word? signed width
  shows hword := by
    rw [word?_eq_some.mp hword]
    exact .integer signed width _

/-- The extractor for unsigned bytes. -/
theorem byteExtractor : Extractor (.integer false .w8) .bytes (word? false .w8) where
  lays _ := rfl
  takes := isSome_word? false .w8
  shows hword := by
    rw [word?_eq_some.mp hword]
    exact .byte _

/-- The extractor for signed bytes, which widens them. -/
theorem signedByteExtractor :
    Extractor (.integer true .w8) (.integers true .w16)
      fun s => (word? true .w8 s).map (BitVec.signExtend 16) where
  lays _ := rfl
  takes s := by
    rw [Option.isSome_map]
    exact isSome_word? true .w8 s
  shows hentry := by
    obtain ⟨byte, hbyte, rfl⟩ := Option.map_eq_some_iff.mp hentry
    rw [word?_eq_some.mp hbyte]
    exact .signedByte byte _ (AtomType.wordValue_signExtend byte)

theorem textExtractor :
    Extractor .text .texts fun | .text s => some s | _ => none where
  lays _ := rfl
  takes s := by cases s <;> simp [Scalar.varType]
  shows {s entry} h := by
    cases s <;> cases h
    exact .text entry

theorem boolExtractor :
    Extractor .bool .bools fun | .bool p => some (Scalar.holds p) | _ => none where
  lays _ := rfl
  takes s := by cases s <;> simp [Scalar.varType]
  shows {s entry} h := by
    cases s <;> cases h
    exact .bool _ _ bne_iff_ne

theorem singleExtractor :
    Extractor .single .doubles fun | .single x => some x.widen | _ => none where
  lays _ := rfl
  takes s := by cases s <;> simp [Scalar.varType]
  shows {s entry} h := by
    cases s <;> cases h
    exact .single _ _ (Number.Binary.widen_agrees _)

theorem doubleExtractor :
    Extractor .double .doubles fun | .double x => some x | _ => none where
  lays _ := rfl
  takes s := by cases s <;> simp [Scalar.varType]
  shows {s entry} h := by
    cases s <;> cases h
    exact .double entry

/-- There is one extractor for each tag but that of objects. -/
theorem exists_extractor {tag : VarType} (h : tag ≠ .object) :
    ∃ l pick, Layout.ofTag? tag = some l ∧ Extractor tag l pick := by
  cases tag with
  | bool => exact ⟨_, _, rfl, boolExtractor⟩
  | integer signed width =>
    -- bytes have a layout of their own where they are unsigned, and a wider one where not
    cases width with
    | w8 =>
      cases signed with
      | false => exact ⟨_, _, rfl, byteExtractor⟩
      | true => exact ⟨_, _, rfl, signedByteExtractor⟩
    | w16 => cases signed <;> exact ⟨_, _, rfl, integerExtractor fun _ => rfl⟩
    | w32 => cases signed <;> exact ⟨_, _, rfl, integerExtractor fun _ => rfl⟩
    | w64 => cases signed <;> exact ⟨_, _, rfl, integerExtractor fun _ => rfl⟩
  | single => exact ⟨_, _, rfl, singleExtractor⟩
  | double => exact ⟨_, _, rfl, doubleExtractor⟩
  | text => exact ⟨_, _, rfl, textExtractor⟩
  | object => exact absurd rfl h

theorem ofArray_object (items : List Scalar) :
    ofArray ⟨.object, items⟩ =
      .error (.typeConversion (VariantArray.typeName ⟨.object, items⟩) "automation array") :=
  rfl

/-! ## What has a layout -/

/-- All items are taken exactly if each of them is. -/
theorem collect_eq_ok {α : Type} {pick : Scalar → Option α} {a : VariantArray} {entries : List α} :
    collect pick a = .ok entries ↔
      List.Forall₂ (fun s entry => pick s = some entry) a.items entries := by
  have hstep (s : Scalar) (entry : α) :
      (pick s).elim (.error (.typeConversion s.varType.name "array element")) .ok =
        (.ok entry : Except Error α) ↔ pick s = some entry := by
    cases pick s <;> simp
  unfold collect
  rw [mapM_eq_ok_iff]
  simp only [hstep]

/-- An extractor lays out the arrays with its tag that are uniform. -/
theorem Extractor.lays_iff {tag : VarType} {l : Layout} {pick : Scalar → Option l.Entry}
    (h : Extractor tag l pick) (items : List Scalar) :
    (∃ out, ofArray ⟨tag, items⟩ = .ok out) ↔ VariantArray.Uniform ⟨tag, items⟩ := by
  simp only [h.lays, map_eq_ok_iff, collect_eq_ok, VariantArray.uniform_iff]
  constructor
  · rintro ⟨_, entries, hrow, -⟩
    induction hrow with
    | nil => simp
    | @cons s entry items entries hs _ ih =>
      have htag : s.varType = tag := (h.takes s).mp (Option.isSome_of_eq_some hs)
      exact List.forall_mem_cons.mpr ⟨htag, ih⟩
  · intro htags
    induction items with
    | nil => exact ⟨_, [], .nil, rfl⟩
    | cons s items ih =>
      obtain ⟨htag, hrest⟩ := List.forall_mem_cons.mp htags
      obtain ⟨entry, hentry⟩ := Option.isSome_iff_exists.mp ((h.takes s).mpr htag)
      obtain ⟨_, entries, hrow, -⟩ := ih hrest
      exact ⟨_, entry :: entries, .cons hentry hrow, rfl⟩

/-- **What `ofArray` gives a layout**: the `Uniform` arrays of anything but objects. -/
theorem ofArray_succeeds_iff (a : VariantArray) :
    (∃ out, ofArray a = .ok out) ↔ a.Uniform ∧ a.element ≠ .object := by
  obtain ⟨tag, items⟩ := a
  by_cases hobject : tag = .object
  · subst hobject
    simp [ofArray_object]
  · obtain ⟨l, pick, -, h⟩ := exists_extractor hobject
    rw [h.lays_iff items]
    simp [hobject]

/-- What is laid out is laid out by the tag, and each entry shows the item in its place. -/
theorem entries_of_ofArray {a : VariantArray} {out : AutomationArray} (h : ofArray a = .ok out) :
    ∃ l entries, Layout.ofTag? a.element = some l ∧ out = l.array entries ∧
      List.Forall₂ l.Shows a.items entries := by
  obtain ⟨-, hobject⟩ := (ofArray_succeeds_iff a).mp ⟨out, h⟩
  obtain ⟨tag, items⟩ := a
  obtain ⟨l, pick, hlayout, hextractor⟩ := exists_extractor hobject
  rw [hextractor.lays, map_eq_ok_iff] at h
  obtain ⟨entries, hentries, rfl⟩ := h
  refine ⟨l, entries, hlayout, rfl, ?_⟩
  exact (collect_eq_ok.mp hentries).imp fun _ _ => hextractor.shows

/-- **Arrays are laid out whole.** An array that can be made (`VariantArray.Obtained`) is uniform.
It has a layout exactly if it does not hold objects; the layout is that of its tag
(`Layout.ofTag?`), with one entry for each item, in the order of the items, and each entry shows its
item (`Layout.Shows`).  So no item is ever refused by `ofArray`: the only error is that of arrays of
objects. -/
theorem arrays_are_laid_out {a : VariantArray} (h : a.Obtained) :
    a.Uniform ∧
      ((∃ out, ofArray a = .ok out) ↔ a.element ≠ .object) ∧
      (∀ out, ofArray a = .ok out →
        ∃ l entries, Layout.ofTag? a.element = some l ∧ out = l.array entries ∧
          out.size = a.items.length ∧ List.Forall₂ l.Shows a.items entries) ∧
      ∀ e, ofArray a = .error e →
        a.element = .object ∧ e = .typeConversion "VT_ARRAY|VT_UNKNOWN" "automation array" := by
  have huniform := h.uniform
  have hsucceeds := ofArray_succeeds_iff a
  refine ⟨huniform, ?_, ?_, ?_⟩
  · rw [hsucceeds]
    exact and_iff_right huniform
  · intro out hout
    obtain ⟨l, entries, hlayout, rfl, hshows⟩ := entries_of_ofArray hout
    refine ⟨l, entries, hlayout, rfl, ?_, hshows⟩
    rw [Layout.size_array, hshows.length_eq]
  · intro e he
    obtain ⟨tag, items⟩ := a
    by_cases hobject : tag = .object
    · subst hobject
      rw [ofArray_object] at he
      exact ⟨rfl, (Except.error.inj he).symm⟩
    · obtain ⟨out, hout⟩ := hsucceeds.mpr ⟨huniform, hobject⟩
      cases hout.symm.trans he

/-- Two signed bytes, checked and widened. -/
theorem signed_bytes_are_laid_out :
    let byte (n : Int) : Scalar := .integer true .w8 (BitVec.ofInt 8 n)
    let a : VariantArray := ⟨.integer true .w8, [byte (-128), byte 5]⟩
    VariantArray.ofVariants a.element a.values = .ok a ∧ a.Obtained ∧ a.Uniform ∧
      ofArray a = .ok (.integers true .w16 [BitVec.ofInt 16 (-128), BitVec.ofInt 16 5]) := by
  intro byte a
  have hmade : VariantArray.ofVariants a.element a.values = .ok a := by decide
  have hobtained : a.Obtained := .checked hmade
  exact ⟨hmade, hobtained, (arrays_are_laid_out hobtained).1, by decide⟩

end AutomationArray

end CimBroker
