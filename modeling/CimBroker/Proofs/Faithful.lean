/-
# CimBroker.Proofs.Faithful — values that come back as they were sent

A client's value is encoded under the carrier of its type and decoded by the type alone.  The two go
through different hands: narrow integers through wider words, unsigned 32-bit numbers through signed
ones, 64-bit numbers through decimal text, absent values and empty lists of texts through nothing.
A type travels faithfully when every value comes back in both forms, arrays are uniform, and the
declared type admits what was made of the value.

`DataType.Faithful` says this of a type, and `DataType.values_travel_faithfully` shows it of atoms,
lists and optional ones of both.  Optional values within optional ones, and lists of lists, are left
out: of the former not all come back (`CimBroker.Proofs.RecordRoundTrip`), and the latter have no
carrier.
-/
import CimBroker.Proofs.Numerals
import CimBroker.Variant.Codec

namespace CimBroker

/-! ## Integers -/

namespace AtomType

/-- An integer that stands in some carrier, other than a signed word of an unsigned type's own
width, is decoded by its number. -/
theorem decodeInteger_of_number {signed : Bool} {width : Number.Width} {s : Scalar}
    {x : BitVec width.bits}
    (hword : (if signed then none else signedWord? width (.scalar s)) = none)
    (hnumber : (Variant.scalar s).integer (integerName signed width) =
      .ok (Number.wordValue signed x)) :
    decodeInteger signed width (.scalar s) = .ok x := by
  unfold decodeInteger
  rw [if_neg (by simp [Variant.isNull]), hword, hnumber]
  show fitInteger signed width _ (Number.wordValue signed x) = _
  rw [fitInteger, Number.word?_wordValue]

/-- A signed word reads the same in any greater width. -/
theorem wordValue_signExtend (x : BitVec 8) :
    Number.wordValue true (x.signExtend 16) = Number.wordValue true x := by
  show (x.signExtend 16).toInt = x.toInt
  exact BitVec.toInt_signExtend_of_le (by omega)

/-- An unsigned word reads the same in a signed word of a greater width. -/
theorem wordValue_zeroExtend (x : BitVec 16) :
    Number.wordValue true (x.zeroExtend 32) = Number.wordValue false x := by
  show (x.zeroExtend 32).toInt = x.toNat
  have hx := x.isLt
  rw [BitVec.toInt_eq_toNat_of_lt, BitVec.toNat_setWidth]
  · congr 1
    exact Nat.mod_eq_of_lt (by omega)
  · rw [BitVec.toNat_setWidth]
    omega

/-- The number of a word is within reach of the reader. -/
theorem natAbs_wordValue_lt (signed : Bool) (width : Number.Width) (x : BitVec width.bits) :
    (Number.wordValue signed x).natAbs < 2 ^ 127 := by
  have hbits : 2 ^ width.bits ≤ 2 ^ 64 :=
    Nat.pow_le_pow_right (by decide) (by cases width <;> decide)
  have hunsigned := x.isLt
  have hsigned := x.toInt_eq_toNat_cond
  cases signed with
  | false =>
    show (x.toNat : Int).natAbs < _
    omega
  | true =>
    show x.toInt.natAbs < _
    split at hsigned <;> omega

/-- **An integer comes back from its carrier**, for each width and either reading. -/
theorem decodeInteger_encodeInteger (signed : Bool) (width : Number.Width)
    (x : BitVec width.bits) :
    decodeInteger signed width (.scalar (encodeInteger signed width x)) = .ok x := by
  -- signed bytes and unsigned shorts are widened, the other narrow words keep their bits
  cases width with
  | w8 =>
    cases signed with
    | true => exact decodeInteger_of_number rfl (congrArg Except.ok (wordValue_signExtend x))
    | false => exact decodeInteger_of_number rfl rfl
  | w16 =>
    cases signed with
    | true => exact decodeInteger_of_number rfl rfl
    | false => exact decodeInteger_of_number rfl (congrArg Except.ok (wordValue_zeroExtend x))
  | w32 =>
    cases signed with
    | true => exact decodeInteger_of_number rfl rfl
    | false => rfl
  | w64 =>
    -- the number is spelled out, and read back from its text
    have hread : Number.integer? (Number.decimalInt (Number.wordValue signed x)) =
        some (Number.wordValue signed x) :=
      Number.integer?_decimalInt (natAbs_wordValue_lt signed .w64 x)
    have hnumber : (Variant.text (String.ofList
        (Number.decimalInt (Number.wordValue signed x)))).integer (integerName signed .w64) =
          .ok (Number.wordValue signed x) := by
      rw [Variant.integer, String.toList_ofList, hread]
    have hencoded : encodeInteger signed .w64 x =
        .text (String.ofList (Number.decimalInt (Number.wordValue signed x))) := by
      cases signed <;> rfl
    rw [hencoded]
    exact decodeInteger_of_number (by cases signed <;> rfl) hnumber

/-! ## Atoms -/

/-- An atom comes back from its carrier. -/
theorem decode_encode (a : AtomType) (x : a.Value) : a.decode (.scalar (a.encode x)) = .ok x := by
  cases a with
  | bool =>
    show Except.ok (Scalar.holds (Scalar.pattern x)) = _
    rw [Scalar.holds_pattern]
  | integer signed width => exact decodeInteger_encodeInteger signed width x
  | single => rfl
  | double => rfl
  | text => rfl

/-- An atom is encoded under the carrier of its type. -/
theorem varType_encode (a : AtomType) (x : a.Value) : (a.encode x).varType = a.carrier := by
  cases a with
  | integer signed width => cases signed <;> cases width <;> rfl
  | _ => rfl

/-- Items that are decoded one by one come back in order. -/
theorem mapM_decode_encode (a : AtomType) (xs : List a.Value) :
    (xs.map a.encode).mapM (fun s => a.decode (.scalar s)) = .ok xs := by
  induction xs with
  | nil => rfl
  | cons x xs ih =>
    rw [List.map_cons, List.mapM_cons, decode_encode]
    show (do let rest ← (xs.map a.encode).mapM fun s => a.decode (.scalar s); .ok (x :: rest)) = _
    rw [ih]
    rfl

end AtomType

/-! ## Types that travel -/

namespace DataType

/-- Every value of the type comes back, whether it stands alone or is explicitly present; every
array made of one holds only items under its element tag; and the declared type admits them all. -/
structure Faithful (t : DataType) (declared : CimType) : Prop where
  back (isPresent : Bool) (x : t.Value) : t.decode (t.encodeAs isPresent x) = .ok x
  uniform (isPresent : Bool) (x : t.Value) (a : VariantArray) (s : Scalar)
    (ha : t.encodeAs isPresent x = .array a) (hs : s ∈ a.items) : s.varType = a.element
  accepted (isPresent : Bool) (x : t.Value) : declared.accepts (t.encodeAs isPresent x) = true

/-- The base type declared for an atom is carried as the atom is. -/
theorem carrier?_declared_beq (a : AtomType) :
    (a.declared.carrier? == some a.carrier) = true := by
  rw [a.carrier?_declared]
  exact beq_self_eq_true _

/-- Atoms travel. -/
theorem faithful_atom (a : AtomType) : Faithful (atom a) (.scalarOf a.declared) where
  back _ x := a.decode_encode x
  uniform _ x b s ha _ := absurd ha (by simp [encodeAs])
  accepted _ x := by
    show (CimType.scalarOf a.declared).accepts (.scalar (a.encode x)) = true
    rw [CimType.accepts, a.varType_encode, carrier?_declared_beq]
    rfl

/-- A list of atoms is encoded as an array of them; only the empty list of texts, where it stands
alone, is encoded as nothing. -/
theorem encodeAs_list (a : AtomType) (isPresent : Bool) (xs : List a.Value) :
    (isPresent = false ∧ xs = [] ∧ (list (atom a)).encodeAs isPresent xs = .null) ∨
      (list (atom a)).encodeAs isPresent xs = .array ⟨a.carrier, xs.map a.encode⟩ := by
  rw [encodeAs]
  by_cases h : a = .text ∧ xs.isEmpty = true ∧ (!isPresent) = true
  · left
    rw [if_pos h]
    exact ⟨by simpa using h.2.2, List.isEmpty_iff.mp h.2.1, rfl⟩
  · right
    rw [if_neg h]

/-- Lists of atoms travel. -/
theorem faithful_list (a : AtomType) : Faithful (list (atom a)) (.arrayOf a.declared) where
  back isPresent xs := by
    rcases encodeAs_list a isPresent xs with ⟨-, rfl, h⟩ | h
    · rw [h]
      rfl
    · rw [h]
      exact a.mapM_decode_encode xs
  uniform isPresent xs b s ha hs := by
    rcases encodeAs_list a isPresent xs with ⟨-, -, h⟩ | h
    · exact absurd (h.symm.trans ha) (by simp)
    · obtain rfl := Variant.array.inj (h.symm.trans ha)
      obtain ⟨x, -, rfl⟩ := List.mem_map.mp hs
      exact a.varType_encode x
  accepted isPresent xs := by
    rcases encodeAs_list a isPresent xs with ⟨-, -, h⟩ | h
    · rw [h]
      rfl
    · rw [h, CimType.accepts, carrier?_declared_beq]
      rfl

/-- Optional values travel where an explicitly present value is never nothing. -/
theorem faithful_optional {t : DataType} {declared : CimType} (h : t.Faithful declared)
    (hpresent : ∀ x : t.Value, t.encodeAs true x ≠ .null) : (optional t).Faithful declared where
  back isPresent x := by
    cases x with
    | none => rfl
    | some x =>
      -- what is there is encoded as explicitly present, whatever the form asked for
      have hback := h.back true x
      have hsome := hpresent x
      show (optional t).decode (t.encodeAs true x) = _
      cases hencoded : t.encodeAs true x with
      | null => exact absurd hencoded hsome
      | scalar s =>
        rw [hencoded] at hback
        show (t.decode (.scalar s)).map some = _
        rw [hback]
        rfl
      | array a =>
        rw [hencoded] at hback
        show (t.decode (.array a)).map some = _
        rw [hback]
        rfl
  uniform isPresent x a s ha hs := by
    cases x with
    | none => exact absurd ha (by simp [encodeAs])
    | some x => exact h.uniform true x a s ha hs
  accepted isPresent x := by
    cases x with
    | none => rfl
    | some x => exact h.accepted true x

/-- **Values come back as they were sent.** Atoms, lists of atoms, and optional ones of either
travel faithfully (`Faithful`) under the types that are declared for them (`AtomType.declared`). -/
theorem values_travel_faithfully (a : AtomType) :
    (atom a).Faithful (.scalarOf a.declared) ∧
      (list (atom a)).Faithful (.arrayOf a.declared) ∧
      (optional (atom a)).Faithful (.scalarOf a.declared) ∧
      (optional (list (atom a))).Faithful (.arrayOf a.declared) := by
  refine ⟨faithful_atom a, faithful_list a, faithful_optional (faithful_atom a) ?_,
    faithful_optional (faithful_list a) ?_⟩
  · intro x
    simp [encodeAs]
  · intro xs
    rcases encodeAs_list a true xs with ⟨h, -⟩ | h
    · exact absurd h (by decide)
    · rw [h]
      simp

end DataType

end CimBroker
