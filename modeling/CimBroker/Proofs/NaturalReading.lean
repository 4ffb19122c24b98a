/-
# CimBroker.Proofs.NaturalReading — two readers of natural numbers

A property can be read as an unsigned integer of some width, or as a natural number by a reader that
knows no widths (`ObjectAccess.getNat`).  The two treat signed words by different rules.  The first
takes the bits of a signed word only if the word has the wanted width, and the number of any other
word; the second takes the bits of every signed word.  They can part on negative numbers only, and
there the first reader fails: whatever it reads, the second reads as well
(`ObjectAccess.natural_of_decode`).

An unsigned number comes back from its own carrier under the first reader, so it does under the
second: what was put into a property of the number's declared type is what is read afterwards, until
the property is written again.

`natural_reading_agrees` has both parts: the first over every backend, the second over the broker in
memory and any row of deeds.  Where the first reader fails and the second does not, as it may on
negative numbers, nothing is said of what the second one reads.
-/
import CimBroker.Proofs.Faithful
import CimBroker.Proofs.Inputs
import CimBroker.Proofs.IntegerReading
import CimBroker.Proofs.Views

namespace CimBroker

open Number (wordValue)

namespace ObjectAccess

/-! ## Values -/

/-- The natural number that is read from a value: of a signed word the bits, and of everything else
what is decoded as an unsigned 64-bit integer. -/
def natural (v : Variant) : Except Error Nat :=
  match signedBits? v with
  | some n => .ok n
  | none => (DataType.uint64.decode v).map BitVec.toNat

theorem natural_signed {w : Number.Width} (word : BitVec w.bits) :
    natural (.scalar (.integer true w word)) = .ok word.toNat := rfl

/-- Other values are read as the number that they stand for, if 64 bits hold it. -/
theorem natural_of_stands {v : Variant} {n : Nat} (hsigned : signedBits? v = none)
    (hstands : Stands false .w64 v n) (hn : n < 2 ^ 64) : natural v = .ok n := by
  have hrange : Number.InRange false .w64 n := by
    simp only [Number.InRange, Number.leastWord, Number.greatestWord, Number.Width.bits,
      Bool.false_eq_true, if_false]
    omega
  obtain ⟨x, hx, hvalue⟩ := AtomType.decodeInteger_of_stands hstands hrange
  have hdecode : DataType.uint64.decode v = .ok x := hx
  have hnumber : x.toNat = n := by simpa [wordValue] using hvalue
  simp only [natural, hsigned, hdecode, Except.map, hnumber]

/-- A signed word whose number is not negative has this number in its bits. -/
theorem toNat_of_toInt {k n : Nat} {word : BitVec k} (h : word.toInt = n) : word.toNat = n := by
  have hbits := AtomType.toInt_emod_twoPow word
  have hhigh : 2 * word.toInt < 2 ^ k := BitVec.two_mul_toInt_lt
  rw [Int.emod_eq_of_lt (by omega) (by omega)] at hbits
  omega

/-- No width holds more than 64 bits do. -/
theorem toNat_lt {width : Number.Width} (x : BitVec width.bits) : x.toNat < 2 ^ 64 := by
  have hx := x.isLt
  cases width <;> simp only [Number.Width.bits] at hx <;> omega

/-- **What is decoded as an unsigned integer is read as the same `natural` number**, whatever the
width and whatever the value. -/
theorem natural_of_decode {width : Number.Width} {v : Variant} {x : BitVec width.bits}
    (h : AtomType.decodeInteger false width v = .ok x) : natural v = .ok x.toNat := by
  have hstands : Stands false width v (x.toNat : Int) := by
    rcases AtomType.decodeInteger_cases false width v with ⟨y, hy, hstands⟩ | ⟨wire, hwire⟩
    · obtain rfl := Except.ok.inj (hy.symm.trans h)
      simpa [wordValue] using hstands
    · cases hwire.symm.trans h
  -- by what the value stands for: only a signed word is not read as 64 bits are
  generalize hn : (x.toNat : Int) = n at hstands
  cases hstands with
  | nothing =>
    obtain hzero : x.toNat = 0 := by omega
    rw [hzero]
    rfl
  | bits _ word =>
    rw [AtomType.toInt_emod_twoPow] at hn
    rw [natural_signed, Int.ofNat_inj.mp hn]
  | @word s w hother word =>
    cases s with
    | true =>
      rw [natural_signed, toNat_of_toInt hn.symm]
    | false =>
      apply natural_of_stands rfl _ (toNat_lt x)
      rw [hn]
      exact .word (.inr (.inl rfl)) word
  | text hspells =>
    apply natural_of_stands rfl _ (toNat_lt x)
    rw [hn]
    exact .text hspells

/-- An unsigned number is read from its carrier. -/
theorem natural_encode (width : Number.Width) (x : BitVec width.bits) :
    natural ((DataType.atom (.integer false width)).encode x) = .ok x.toNat := by
  apply natural_of_decode
  exact AtomType.decodeInteger_encodeInteger false width x

/-! ## Properties -/

variable {σ : Type} (access : ObjectAccess σ)

/-- Reading a natural number is one look at the property. -/
theorem run_getNat (h : Handle) (name : String) (s : σ) :
    ((access.getNat h name).run s).1 = ((access.value h name).run s).1.bind natural := by
  unfold getNat
  rw [Action.run_bind]
  rcases (access.value h name).run s with ⟨outcome, s'⟩
  cases outcome with
  | error e => rfl
  | ok v =>
    show (Action.run (match signedBits? v with
      | some n => pure n
      | none => do return (← Action.ofExcept (DataType.uint64.decode v)).toNat) s').1 = natural v
    unfold natural
    cases signedBits? v with
    | some n => rfl
    | none => cases hdecode : DataType.uint64.decode v <;> simp [Except.map]

theorem run_getAs_value (h : Handle) (name : String) (t : DataType) (s : σ) :
    ((access.getAs h name t).run s).1 = ((access.value h name).run s).1.bind t.decode := by
  unfold getAs
  rw [Action.run_bind]
  rcases (access.value h name).run s with ⟨outcome, s'⟩
  cases outcome with
  | error e => rfl
  | ok v => simp [Except.bind]

end ObjectAccess

namespace Broker

open CimBroker.Action

/-- A declared property shows what the object holds under its name. -/
theorem run_value {b : Broker} {h : Handle} {o : LiveObject} {name : String} {t : CimType}
    (ho : b.live[h.id]? = some o) (hown : isSystemName name = false)
    (ht : o.definition.declared? name = some t) :
    ((access.value h name).run b).1 = .ok (o.value name) := by
  have hread : readAt h name b = .ok (o.value name, t) := by
    simp only [readAt, ho, Option.elim_some, LiveObject.read, systemValue?_of_own o hown, ht]
  have hget : (access.get h name).run b = (.ok (o.value name, t), readFrom name b) :=
    (run_get h name b).trans (by rw [hread])
  unfold ObjectAccess.value
  rw [run_bind_of_ok hget]
  rfl

/-- An unsigned number in its carrier is no object. -/
theorem encode_unsigned_ne_object (width : Number.Width) (x : BitVec width.bits) (h : Handle) :
    (DataType.atom (.integer false width)).encode x ≠ .object h := by
  cases width <;> simp [DataType.encode, DataType.encodeAs, AtomType.encode, AtomType.encodeInteger]

/-- A written number is what the property holds, until the property is written again. -/
theorem value_after_put {b b' : Broker} {h : Handle} {o : LiveObject} {name : String} {v : Variant}
    {t : CimType} (ho : b.live[h.id]? = some o) (ht : o.definition.declared? name = some t)
    (hv : ∀ h, v ≠ .object h) (hrun : (put h name v).run b = (.ok (), b')) (deeds : List Deed)
    (hunwritten : ¬ Happens (fun b d => d.Puts b h name) b' deeds) :
    ((access.value h name).run (course b' deeds)).1 = .ok v := by
  obtain ⟨o₁, v', ho₁, hw⟩ := written_of_put hrun
  obtain rfl := Option.some.inj (ho.symm.trans ho₁)
  obtain rfl : v' = v := by
    cases hw.kept with
    | plain => rfl
    | copied => exact absurd rfl (hv _)
  obtain ⟨o', ho', hresembles⟩ := resembles_course hw.there deeds
  rw [run_value ho' hw.own (hresembles.definition ▸ ht), hresembles.value name hunwritten]
  simp [LiveObject.value, Table.get?_set]

end Broker

open Broker in
/-- **Natural numbers are read alike by both readers.** Where a property that shows the same value
to both is read as an unsigned integer of some width (`ObjectAccess.getAs`), it is read as the same
natural number without a width (`ObjectAccess.getNat`); this holds over every backend.  And a number
that is put into a property declared for numbers of its width (`ObjectAccess.putAs`), which is
possible exactly if the name is not the system's, is the number that is read, from then on until the
property is written again through the same handle (`Deed.Puts`). -/
theorem natural_reading_agrees (width : Number.Width) :
    (∀ {σ : Type} (access : ObjectAccess σ) (h : Handle) (name : String) (s s' : σ)
        (x : BitVec width.bits),
      ((access.value h name).run s').1 = ((access.value h name).run s).1 →
      ((access.getAs h name (.atom (.integer false width))).run s).1 = .ok x →
      ((access.getNat h name).run s').1 = .ok x.toNat) ∧
    ∀ (b : Broker) (h : Handle) (o : LiveObject) (name : String) (x : BitVec width.bits),
      b.live[h.id]? = some o →
      o.definition.declared? name = some (.scalarOf (.integer false width)) →
      (((access.putAs h name (.atom (.integer false width)) x).run b).1 = .ok () ↔
        isSystemName name = false) ∧
      ∀ b', (access.putAs h name (.atom (.integer false width)) x).run b = (.ok (), b') →
        ∀ deeds, ¬ Happens (fun b d => d.Puts b h name) b' deeds →
          ((access.getNat h name).run (course b' deeds)).1 = .ok x.toNat := by
  constructor
  · intro σ access h name s s' x hsame hread
    rw [ObjectAccess.run_getAs_value] at hread
    rw [ObjectAccess.run_getNat, hsame]
    cases hvalue : ((access.value h name).run s).1 with
    | error e => rw [hvalue] at hread; cases hread
    | ok v =>
      rw [hvalue] at hread
      exact ObjectAccess.natural_of_decode hread
  · intro b h o name x ho ht
    have hplain := encode_unsigned_ne_object width x
    constructor
    · show ((put h name _).run b).1 = .ok () ↔ _
      rw [put_eq_ok_iff]
      constructor
      · intro hok
        exact hok.1
      · intro hown
        have haccepts := (DataType.faithful_atom (.integer false width)).accepted false x
        exact ⟨hown, ⟨o, ho, _, ht, haccepts⟩, fun h' hobject => absurd hobject (hplain h')⟩
    · intro b' hrun deeds hunwritten
      rw [ObjectAccess.run_getNat, value_after_put ho ht hplain hrun deeds hunwritten]
      exact ObjectAccess.natural_encode width x

namespace Broker

/-- Widgets that are counted. -/
def countedClass : ClassDef := .ofProperties "Widget" [("Count", .scalarOf (.integer false .w32))]

/-- A broker that has handed out a widget whose count has all bits set but the last. -/
def counting : Broker :=
  course .empty [.request (.defineClass countedClass),
    .request (.insert "Widget" [("Count", .scalar (.integer true .w32 (-2)))]),
    .request (.fetch (instancePath "Widget" 1))]

/-- A count of 2³² - 2 is read by both readers, and one of 2³² - 1 that is put in its place is read
after the widget was fetched again and another count was put through the new handle. -/
theorem greatest_counts_are_read :
    ((access.getAs ⟨0⟩ "Count" .uint32).run counting).1 = .ok 4294967294 ∧
    ((access.getNat ⟨0⟩ "Count").run counting).1 = .ok 4294967294 ∧
    counting.live[0]? = some ⟨countedClass, some (instancePath "Widget" 1), false,
      ⟨[("Count", .scalar (.integer true .w32 (-2)))]⟩⟩ ∧
    ∃ b', (access.putAs ⟨0⟩ "Count" .uint32 4294967295).run counting = (.ok (), b') ∧
      ((access.getNat ⟨0⟩ "Count").run (course b' [.request (.fetch (instancePath "Widget" 1)),
        .request (.put ⟨1⟩ "Count" (.int32 7))])).1 = .ok 4294967295 := by
  obtain ⟨hagree, hafter⟩ := natural_reading_agrees .w32
  have hread : ((access.getAs ⟨0⟩ "Count" .uint32).run counting).1 = .ok 4294967294 := rfl
  have ho : counting.live[(⟨0⟩ : Handle).id]? = some ⟨countedClass,
      some (instancePath "Widget" 1), false,
      ⟨[("Count", .scalar (.integer true .w32 (-2)))]⟩⟩ := rfl
  obtain ⟨hputs, hstays⟩ := hafter counting ⟨0⟩ _ "Count" 4294967295 ho rfl
  have hrun : (access.putAs ⟨0⟩ "Count" .uint32 4294967295).run counting = (.ok (), _) :=
    Prod.ext (hputs.mpr rfl) rfl
  refine ⟨hread, hagree access ⟨0⟩ "Count" counting counting 4294967294 rfl hread, ho, _, hrun,
    hstays _ hrun _ ?_⟩
  -- the only write goes through another handle
  rintro ⟨before, d, later, heq, v, rfl, -⟩
  have hmem := heq ▸ List.mem_append_right before (List.mem_cons_self (l := later))
  simp at hmem

end Broker
end CimBroker
