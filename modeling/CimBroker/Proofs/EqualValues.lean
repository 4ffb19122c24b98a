/-
# CimBroker.Proofs.EqualValues — equal values are not told apart

Programs take two tagged values for equal without comparing them bit for bit: every boolean pattern
but zero means true.  A value is *canonical* when each truth value in it has the pattern that it is
written with.  Whatever is made of a value, names, messages, decoded values, JSON, acceptance and
array layouts, is made of its canonical form, since a pattern is looked at through its truth alone.
Where no floating-point value is held, values are equal exactly if they have one canonical form
(`Variant.same_iff`), so nothing tells equal values apart.

Floating-point values have to be left out: the zeros of both signs are equal numbers, but they are
written differently.

`equal_values_are_not_told_apart` collects what is made of a value.  The exchange text of an object
is not among it; that is the matter of `CimBroker.Proofs.ObjectText`.
-/
import CimBroker.Object.Display
import CimBroker.Variant.Automation
import CimBroker.Variant.CimType
import CimBroker.Variant.Codec

namespace CimBroker

/-! ## Canonical values -/

theorem Number.Binary.sameNumber_comm {f : Number.FloatFormat} (x y : Number.Binary f) :
    x.sameNumber y = y.sameNumber x := by
  unfold sameNumber
  rw [Bool.and_comm (!x.isNaN), Bool.and_comm x.isZero, Bool.beq_comm]

namespace Scalar

/-- The scalar with the pattern that its truth is written with, if it is a truth value. -/
def canonical : Scalar → Scalar
  | bool p => bool (pattern (holds p))
  | s => s

/-- Whether a scalar is a floating-point value. -/
def isFloat : Scalar → Bool
  | single _ => true
  | double _ => true
  | _ => false

@[simp] theorem varType_canonical (s : Scalar) : s.canonical.varType = s.varType := by
  cases s <;> rfl

@[simp] theorem toJson_canonical (s : Scalar) : s.canonical.toJson = s.toJson := by
  cases s with
  | bool p => simp [canonical, toJson]
  | _ => rfl

@[simp] theorem inspect_canonical (s : Scalar) : s.canonical.inspect = s.inspect := by
  cases s with
  | bool p => simp [canonical, inspect]
  | _ => rfl

theorem canonical_bool_eq_iff {p q : BitVec 16} :
    (bool p).canonical = (bool q).canonical ↔ holds p = holds q := by
  constructor
  · intro h
    have hholds := congrArg holds (Scalar.bool.inj h)
    rwa [holds_pattern, holds_pattern] at hholds
  · intro h
    simp [canonical, h]

/-- Other scalars than floating-point values are equal exactly if they have one canonical form. -/
theorem same_iff {s s' : Scalar} (h : s.isFloat = false) :
    s.same s' = true ↔ s.canonical = s'.canonical := by
  cases s with
  | bool p =>
    cases s' with
    | bool q => rw [canonical_bool_eq_iff, same, beq_iff_eq]
    | _ => simp [same, canonical]
  | single x => cases h
  | double x => cases h
  | _ => cases s' <;> simp [same, canonical]

theorem same_comm (s s' : Scalar) : s.same s' = s'.same s := by
  have hbits : (s == s') = (s' == s) := Bool.beq_comm
  cases s with
  | bool p =>
    cases s' with
    | bool q => exact Bool.beq_comm
    | _ => exact hbits
  | single x =>
    cases s' with
    | single y => exact x.sameNumber_comm y
    | _ => exact hbits
  | double x =>
    cases s' with
    | double y => exact x.sameNumber_comm y
    | _ => exact hbits
  | _ => cases s' <;> exact hbits

end Scalar

namespace VariantArray

/-- The array of the canonical items. -/
def canonical (a : VariantArray) : VariantArray := ⟨a.element, a.items.map Scalar.canonical⟩

@[simp] theorem typeName_canonical (a : VariantArray) : a.canonical.typeName = a.typeName := rfl

@[simp] theorem inspect_canonical (a : VariantArray) : a.canonical.inspect = a.inspect := by
  simp [inspect, canonical, Function.comp_def]

theorem sameItems_iff {items items' : List Scalar} (h : ∀ s ∈ items, s.isFloat = false) :
    sameItems items items' = true ↔
      items.map Scalar.canonical = items'.map Scalar.canonical := by
  induction items generalizing items' with
  | nil => cases items' <;> simp [sameItems]
  | cons s items ih =>
    obtain ⟨hs, hitems⟩ := List.forall_mem_cons.mp h
    cases items' with
    | nil => simp [sameItems]
    | cons s' items' =>
      rw [sameItems, Bool.and_eq_true, Scalar.same_iff hs, ih hitems, List.map_cons, List.map_cons,
        List.cons.injEq]

theorem sameItems_comm (items items' : List Scalar) :
    sameItems items items' = sameItems items' items := by
  induction items generalizing items' with
  | nil => cases items' <;> rfl
  | cons s items ih =>
    cases items' with
    | nil => rfl
    | cons s' items' => rw [sameItems, sameItems, Scalar.same_comm, ih]

end VariantArray

namespace Variant

/-- The value with each truth value in it in canonical form. -/
def canonical : Variant → Variant
  | null => null
  | scalar s => scalar s.canonical
  | array a => array a.canonical

/-- Whether no floating-point value is held. -/
def isFloatFree : Variant → Bool
  | null => true
  | scalar s => !s.isFloat
  | array a => a.items.all fun s => !s.isFloat

/-- **Which values are equal**, where no floating-point value is held: those with one `canonical`
form. -/
theorem same_iff {v w : Variant} (h : v.isFloatFree = true) :
    v.same w = true ↔ v.canonical = w.canonical := by
  cases v with
  | null => cases w <;> simp [same, canonical]
  | scalar s =>
    cases w with
    | scalar s' =>
      rw [same, Scalar.same_iff (by simpa [isFloatFree] using h), canonical, canonical,
        scalar.injEq]
    | _ => simp [same, canonical]
  | array a =>
    cases w with
    | array b =>
      have hitems : ∀ s ∈ a.items, s.isFloat = false := by simpa [isFloatFree] using h
      rw [same, VariantArray.same, Bool.and_eq_true, beq_iff_eq, VariantArray.sameItems_iff hitems]
      simp [canonical, VariantArray.canonical]
    | _ => simp [same, canonical]

/-- Equality goes both ways, for floating-point values too. -/
theorem same_comm (v w : Variant) : v.same w = w.same v := by
  cases v with
  | null => cases w <;> rfl
  | scalar s =>
    cases w with
    | scalar s' => exact s.same_comm s'
    | _ => rfl
  | array a =>
    cases w with
    | array b =>
      rw [same, same, VariantArray.same, VariantArray.same, VariantArray.sameItems_comm,
        Bool.beq_comm]
    | _ => rfl

/-- Only truth values, and arrays of them, differ from their canonical form. -/
theorem canonical_cases (v : Variant) :
    v.canonical = v ∨ (∃ p, v = bool p ∧ v.canonical = bool (Scalar.pattern (Scalar.holds p))) ∨
      ∃ a, v = array a ∧ v.canonical = array a.canonical := by
  cases v with
  | null => exact .inl rfl
  | scalar s =>
    cases s with
    | bool p => exact .inr (.inl ⟨p, rfl, rfl⟩)
    | _ => exact .inl rfl
  | array a => exact .inr (.inr ⟨a, rfl, rfl⟩)

/-! ## What is made of a value -/

theorem typeName_canonical (v : Variant) : v.canonical.typeName = v.typeName := by
  cases v <;> simp [canonical, typeName]

theorem inspect_canonical (v : Variant) : v.canonical.inspect = v.inspect := by
  cases v <;> simp [canonical, inspect]

/-- JSON is made of the canonical form, if it is for each scalar. -/
theorem toJsonWith_canonical {σ : Type} {scalarJson : Scalar → Action σ Json}
    (h : ∀ s, scalarJson s.canonical = scalarJson s) (v : Variant) :
    v.canonical.toJsonWith scalarJson = v.toJsonWith scalarJson := by
  cases v with
  | null => rfl
  | scalar s => exact h s
  | array a =>
    have hitems : a.canonical.items.mapM scalarJson = a.items.mapM scalarJson := by
      rw [VariantArray.canonical, List.mapM_map]
      exact congrArg (a.items.mapM ·) (funext h)
    rw [canonical, toJsonWith, toJsonWith, hitems]

end Variant

theorem CimType.accepts_canonical (t : CimType) (v : Variant) :
    t.accepts v.canonical = t.accepts v := by
  cases v <;> simp [Variant.canonical, VariantArray.canonical, accepts]

/-- An object shows the same JSON wherever its handle is met, and other scalars by themselves. -/
theorem ObjectAccess.scalarJson_canonical {σ : Type} (access : ObjectAccess σ) (depth : Nat)
    (s : Scalar) : access.scalarJson depth s.canonical = access.scalarJson depth s := by
  cases s with
  | bool p =>
    have hjson := congrArg (pure : Json → Action σ Json) (Scalar.toJson_canonical (.bool p))
    cases depth <;> exact hjson
  | _ => rfl

/-- An atom is decoded by the truth of a pattern, and not at all of an array. -/
theorem AtomType.decode_canonical (a : AtomType) (v : Variant) :
    a.decode v.canonical = a.decode v := by
  rcases v.canonical_cases with hv | ⟨p, rfl, hv⟩ | ⟨array, rfl, hv⟩
  · rw [hv]
  · rw [hv]
    cases a with
    | bool => simp [decode]
    | text => simp [decode, decodeText]
    | _ => rfl
  · rw [hv]
    cases a <;> rfl

namespace DataType

/-- Whether values of the type are decoded, and not kept as they are tagged. -/
def isDecoded : DataType → Bool
  | variant => false
  | optional t => t.isDecoded
  | list t => t.isDecoded
  | _ => true

theorem decode_canonical {t : DataType} (ht : t.isDecoded = true) (v : Variant) :
    t.decode v.canonical = t.decode v := by
  induction t generalizing v with
  | atom a => exact a.decode_canonical v
  | variant => cases ht
  | optional t ih =>
    have hpresent := ih ht v
    cases v with
    | null => rfl
    | scalar s => exact congrArg (Except.map some) hpresent
    | array a => exact congrArg (Except.map some) hpresent
  | list t ih =>
    rcases v.canonical_cases with hv | ⟨p, rfl, hv⟩ | ⟨a, rfl, hv⟩
    · rw [hv]
    · rw [hv]
      rfl
    · -- the items are decoded one by one
      rw [hv, decode, decode, VariantArray.canonical, List.mapM_map]
      exact congrArg (a.items.mapM ·) (funext fun s => ih ht (.scalar s))
  | _ =>
    rcases v.canonical_cases with hv | ⟨p, rfl, hv⟩ | ⟨a, rfl, hv⟩ <;> rw [hv] <;> rfl

end DataType

/-! ## Layouts -/

namespace AutomationArray

theorem collect_canonical {α : Type} {pick : Scalar → Option α}
    (h : ∀ s : Scalar, pick s.canonical = pick s) (a : VariantArray) :
    collect pick a.canonical = collect pick a := by
  rw [collect, collect, VariantArray.canonical, List.mapM_map]
  simp [Function.comp_def, h]

/-- Whatever the element tag, arrays are laid out by the truth of the patterns in them. -/
theorem ofArray_canonical (a : VariantArray) : ofArray a.canonical = ofArray a := by
  have helement : a.canonical.element = a.element := rfl
  unfold ofArray
  rw [helement]
  split
  -- arrays of objects have no layout, and every other tag has items to be taken
  case h_8 => rfl
  all_goals
    rw [collect_canonical]
    intro s
    cases s <;> simp [Scalar.canonical, word?]

end AutomationArray

/-! ## Equal values -/

/-- **Equal values are not told apart.** Where no floating-point value is held
(`Variant.isFloatFree`), equality (`Variant.same`) goes both ways; equal values are decoded alike by
every type that is decoded (`DataType.isDecoded`), errors included, and they have the same name in
messages, the same diagnostic form, the same JSON at any depth, are admitted by the same
declarations, and arrays among them have one layout (`AutomationArray.ofArray`) or fail with one
error. -/
theorem equal_values_are_not_told_apart {v w : Variant} (h : v.same w = true)
    (hfloat : v.isFloatFree = true) :
    w.same v = true ∧ (∀ t : DataType, t.isDecoded = true → t.decode v = t.decode w) ∧
      v.typeName = w.typeName ∧ v.inspect = w.inspect ∧
      (∀ (σ : Type) (access : ObjectAccess σ) (depth : Nat),
        v.toJsonWith (access.scalarJson depth) = w.toJsonWith (access.scalarJson depth)) ∧
      (∀ t : CimType, t.accepts v = t.accepts w) ∧
      ∀ a, v = .array a →
        ∃ b, w = .array b ∧ AutomationArray.ofArray a = AutomationArray.ofArray b := by
  have hform : v.canonical = w.canonical := (Variant.same_iff hfloat).mp h
  refine ⟨by rw [Variant.same_comm, h], fun t ht => ?_, ?_, ?_, fun σ access depth => ?_,
    fun t => ?_, ?_⟩
  · rw [← t.decode_canonical ht v, hform, t.decode_canonical ht]
  · rw [← v.typeName_canonical, hform, w.typeName_canonical]
  · rw [← v.inspect_canonical, hform, w.inspect_canonical]
  · have hjson := access.scalarJson_canonical depth
    rw [← v.toJsonWith_canonical hjson, hform, w.toJsonWith_canonical hjson]
  · rw [← t.accepts_canonical v, hform, t.accepts_canonical]
  · rintro a rfl
    cases w with
    | array b =>
      refine ⟨b, rfl, ?_⟩
      have harray : a.canonical = b.canonical := Variant.array.inj hform
      rw [← AutomationArray.ofArray_canonical a, harray, AutomationArray.ofArray_canonical]
    | _ => cases h

/-- Arrays of true patterns. -/
theorem patterns_of_true_are_alike :
    let a : VariantArray := ⟨.bool, [.bool 1, .bool 0]⟩
    let b : VariantArray := ⟨.bool, [.bool (-1), .bool 0]⟩
    a ≠ b ∧ (Variant.array a).same (.array b) = true ∧ (Variant.array a).isFloatFree = true ∧
      (∀ t : DataType, t.isDecoded = true → t.decode (.array a) = t.decode (.array b)) ∧
      AutomationArray.ofArray a = AutomationArray.ofArray b := by
  intro a b
  have hequal : (Variant.array a).same (.array b) = true := by decide
  have hfloat : (Variant.array a).isFloatFree = true := by decide
  obtain ⟨-, hdecode, -, -, -, -, hlayout⟩ := equal_values_are_not_told_apart hequal hfloat
  obtain ⟨_, ⟨⟩, hsame⟩ := hlayout a rfl
  exact ⟨by decide, hequal, hfloat, hdecode, hsame⟩

/-- The zeros of both signs are equal, but not alike in text. -/
example : let zero : Number.Double := ⟨0⟩
    let minusZero : Number.Double := ⟨BitVec.ofNat 64 (2 ^ 63)⟩
    Variant.same (.scalar (.double zero)) (.scalar (.double minusZero)) = true ∧
      AtomType.decodeText (.scalar (.double zero)) = .ok "0" ∧
      AtomType.decodeText (.scalar (.double minusZero)) = .ok "-0" :=
  ⟨by decide, rfl, rfl⟩

end CimBroker
