/-
# CimBroker.Proofs.Cycles — objects within objects

An object holds the objects that its values mention.  An object that is written under a name is
copied first, but the copy holds what the object held, and the items of an array are taken as they
are; so a write can put an object inside itself, and its JSON, which shows the objects within, would
then go on for ever.

`acyclic_iff_nothing_closes` says when that happens: exactly when a write *closes* a cycle, since
what is inside the written value leads to the object that it is written to.  As long as nothing
does, JSON is complete at a depth that the broker knows beforehand.

Single writes are settled by `acyclic_put_iff`, and runs by `acyclic_course_iff`.
`array_closes_cycle` is a run that does close a cycle, with an array and the handle of a live
object, and `nested_is_acyclic` one that embeds objects in objects and does not.  Handles that were
never given out are left out (`Deed.Genuine`): what they will name later is up to what is handed out
next.
-/
import CimBroker.Object.Display
import CimBroker.Proofs.StoreDeeds
import Mathlib.Data.Finset.Card
import Mathlib.Data.Finset.Range
import Mathlib.Logic.Relation

namespace CimBroker

open Relation

/-- The value is an object, or has it as an item. -/
inductive Variant.Mentions : Variant → Handle → Prop
  | object (h : Handle) : Mentions (.object h) h
  | item {a : VariantArray} {h : Handle} (hitem : Scalar.object h ∈ a.items) : Mentions (.array a) h

/-! ## Graphs -/

section Graphs

variable {α : Type} {R R' : α → α → Prop} {a : α}

/-- Something leads back to itself. -/
def Circular (R : α → α → Prop) : Prop := ∃ i, TransGen R i i

/-- Where a path can go with more ways out of one place: as before, or over that place. -/
theorem transGen_of_more {N : α → Prop} (hR' : ∀ i j, R' i j → R i j ∨ (i = a ∧ N j)) {i k : α}
    (h : TransGen R' i k) :
    TransGen R i k ∨ (ReflTransGen R i a ∧ ∃ j, N j ∧ ReflTransGen R j k) := by
  induction h with
  | single hstep =>
    rcases hR' _ _ hstep with hold | ⟨rfl, hnew⟩
    · exact .inl (.single hold)
    · exact .inr ⟨.refl, _, hnew, .refl⟩
  | tail _ hstep ih =>
    rcases hR' _ _ hstep with hold | ⟨rfl, hnew⟩
    · rcases ih with hpath | ⟨hto, j, hj, hfrom⟩
      · exact .inl (hpath.tail hold)
      · exact .inr ⟨hto, j, hj, hfrom.tail hold⟩
    · refine .inr ⟨?_, _, hnew, .refl⟩
      exact ih.elim TransGen.to_reflTransGen fun h => h.1

/-- More ways out of one place close no circle if none of them leads back there. -/
theorem not_circular_of_more {N : α → Prop} (hR' : ∀ i j, R' i j → R i j ∨ (i = a ∧ N j))
    (hcircular : ¬ Circular R) (hback : ∀ j, N j → ¬ ReflTransGen R j a) : ¬ Circular R' := by
  rintro ⟨i, hi⟩
  rcases transGen_of_more hR' hi with hpath | ⟨hto, j, hj, hfrom⟩
  · exact hcircular ⟨i, hpath⟩
  · exact hback j hj (hfrom.trans hto)

/-- A path to a place can be cut short where it first comes there. -/
theorem reflTransGen_until {j : α} (h : ReflTransGen R j a) :
    ReflTransGen (fun i k => i ≠ a ∧ R i k) j a := by
  induction h using ReflTransGen.head_induction_on with
  | refl => exact .refl
  | @head i k hstep _ ih =>
    by_cases hi : i = a
    · exact hi ▸ .refl
    · exact .head ⟨hi, hstep⟩ ih

/-- From an old place a path goes as before, if every way leads to old places. -/
theorem reflTransGen_of_old {old : α → Prop} (hold : ∀ i j, R' i j → old i → R i j)
    (htarget : ∀ i j, R' i j → old j) {i k : α} (h : ReflTransGen R' i k) (hi : old i) :
    ReflTransGen R i k := by
  induction h using ReflTransGen.head_induction_on with
  | refl => exact .refl
  | head hstep _ ih => exact .head (hold _ _ hstep hi) (ih (htarget _ _ hstep))

/-- New places whose ways lead to old ones are on no circle. -/
theorem not_circular_of_old {old : α → Prop} (hold : ∀ i j, R' i j → old i → R i j)
    (htarget : ∀ i j, R' i j → old j) (hcircular : ¬ Circular R) : ¬ Circular R' := by
  rintro ⟨i, hi⟩
  obtain ⟨j, hfirst, hrest⟩ := TransGen.head'_iff.mp hi
  obtain ⟨k, -, hlast⟩ := TransGen.tail'_iff.mp hi
  -- the place is the end of a way, so it is an old one
  have hi' : old i := htarget _ _ hlast
  refine hcircular ⟨i, .head' (hold _ _ hfirst hi') ?_⟩
  exact reflTransGen_of_old hold htarget hrest (htarget _ _ hfirst)

end Graphs

namespace Broker

open CimBroker.Action

/-! ## What objects hold -/

/-- A live object has a value that mentions another one. -/
def Holds (b : Broker) (i j : Nat) : Prop :=
  ∃ o name v, b.live[i]? = some o ∧ o.values.get? name = some v ∧ v.Mentions ⟨j⟩

/-- No object can be reached from itself through the objects that it holds. -/
def Acyclic (b : Broker) : Prop := ¬ Circular b.Holds

/-- Everything that is mentioned in the broker is live. -/
def Contained (b : Broker) : Prop :=
  ∀ v, b.Occurs v → ∀ h, v.Mentions h → h.id < b.live.size

/-- The deed passes no handles but those of live objects. -/
def Deed.Genuine (b : Broker) (d : Deed) : Prop :=
  ∀ v, d.Gives v → ∀ h, v.Mentions h → h.id < b.live.size

/-- What a written value brings along: the items of an array as they are, and of an object, which is
copied, what it holds. -/
def Inside (b : Broker) : Variant → Nat → Prop
  | .object h, j => b.Holds h.id j
  | v, j => v.Mentions ⟨j⟩

/-- The deed is a write that succeeds, of a value with something inside that leads to the object
that is written to. -/
def Deed.Closes (b : Broker) (d : Deed) : Prop :=
  ∃ h name v j, d = .request (.put h name v) ∧ ((put h name v).run b).1 = .ok () ∧
    b.Inside v j ∧ ReflTransGen b.Holds j h.id

variable {b b' : Broker}

theorem lt_size_of_live {i : Nat} {o : LiveObject} (ho : b.live[i]? = some o) :
    i < b.live.size :=
  (Array.getElem?_eq_some_iff.mp ho).1

theorem live_of_lt_size {i : Nat} (hi : i < b.live.size) : ∃ o, b.live[i]? = some o :=
  ⟨b.live[i], Array.getElem?_eq_getElem hi⟩

theorem Contained.lt_size (h : b.Contained) {i j : Nat} (hij : b.Holds i j) : j < b.live.size := by
  obtain ⟨o, name, v, ho, hv, hmentions⟩ := hij
  exact h v (.live ho hv) ⟨j⟩ hmentions

/-! ## Deeds that write nothing -/

/-- Growth with values that mention live objects keeps everything in the broker. -/
theorem Grows.contained (h : Grows (fun v => ∀ h, v.Mentions h → h.id < b.live.size) b b')
    (hb : b.Contained) : b'.Contained := by
  intro v hv h' hmentions
  have hlt : h'.id < b.live.size := h.known_of_occurs hb hv h' hmentions
  obtain ⟨o, ho⟩ := live_of_lt_size hlt
  exact lt_size_of_live (h.live _ o ho)

/-- What is new holds old objects only, and old objects hold what they held. -/
theorem Grows.acyclic (h : Grows (fun v => ∀ h, v.Mentions h → h.id < b.live.size) b b')
    (hb : b.Contained) (hacyclic : b.Acyclic) : b'.Acyclic := by
  have hold (i j : Nat) (hij : b'.Holds i j) (hi : i < b.live.size) : b.Holds i j := by
    obtain ⟨o, name, v, ho, hv, hmentions⟩ := hij
    obtain ⟨o', ho'⟩ := live_of_lt_size hi
    obtain rfl := Option.some.inj (ho.symm.trans (h.live i o' ho'))
    exact ⟨o, name, v, ho', hv, hmentions⟩
  have htarget (i j : Nat) (hij : b'.Holds i j) : j < b.live.size := by
    obtain ⟨o, name, v, ho, hv, hmentions⟩ := hij
    exact h.known_of_occurs hb (.live ho hv) ⟨j⟩ hmentions
  exact not_circular_of_old hold htarget hacyclic

/-! ## Writing -/

section Writing

variable {a : Nat} {o : LiveObject} {name : String} {v : Variant}

/-- The object has another value under a name, and everything else is the same. -/
def HasSet (b b' : Broker) (a : Nat) (o : LiveObject) (name : String) (v : Variant) : Prop :=
  b.live[a]? = some o ∧
    b'.live = b.live.modify a fun o' => { o' with values := o.values.set name v }

theorem HasSet.there (h : HasSet b b' a o name v) :
    b'.live[a]? = some { o with values := o.values.set name v } := by
  rw [h.2, Array.getElem?_modify, if_pos rfl, h.1]
  rfl

theorem HasSet.others (h : HasSet b b' a o name v) {i : Nat} (hi : i ≠ a) :
    b'.live[i]? = b.live[i]? := by
  rw [h.2, Array.getElem?_modify, if_neg hi.symm]

theorem HasSet.holds (h : HasSet b b' a o name v) {i j : Nat} (hij : b'.Holds i j) :
    b.Holds i j ∨ (i = a ∧ v.Mentions ⟨j⟩) := by
  obtain ⟨o', name', v', ho', hv', hmentions⟩ := hij
  by_cases hi : i = a
  · subst hi
    obtain rfl := Option.some.inj (h.there.symm.trans ho')
    rw [Table.get?_set] at hv'
    split at hv'
    · cases hv'
      exact .inr ⟨rfl, hmentions⟩
    · exact .inl ⟨o, name', v', h.1, hv', hmentions⟩
  · exact .inl ⟨o', name', v', (h.others hi).symm.trans ho', hv', hmentions⟩

/-- What the value mentions closes a circle exactly if it leads to the object. -/
theorem HasSet.acyclic_iff (h : HasSet b b' a o name v) (hb : b.Acyclic) :
    b'.Acyclic ↔ ∀ j, v.Mentions ⟨j⟩ → ¬ ReflTransGen b.Holds j a := by
  constructor
  · intro hacyclic j hmentions hpath
    -- the way back does not need the object, so it is still there
    have hkept : ReflTransGen b'.Holds j a := by
      refine ReflTransGen.mono ?_ _ _ (reflTransGen_until hpath)
      rintro i k ⟨hi, o', name', v', ho', hv', hmentions'⟩
      exact ⟨o', name', v', (h.others hi).trans ho', hv', hmentions'⟩
    refine hacyclic ⟨a, .head' ⟨_, name, v, h.there, ?_, hmentions⟩ hkept⟩
    exact (Table.get?_set ..).trans (if_pos rfl)
  · exact not_circular_of_more (fun i j hij => h.holds hij) hb

theorem HasSet.contained (h : HasSet b b' a o name v) (hobjects : b'.objects = b.objects)
    (hb : b.Contained) (hv : ∀ h, v.Mentions h → h.id < b.live.size) : b'.Contained := by
  have hsize : b'.live.size = b.live.size := by
    rw [h.2, Array.size_modify]
  intro w hw h' hmentions
  rw [hsize]
  cases hw with
  | @live i o' name' _ ho' hw =>
    by_cases hi : i = a
    · subst hi
      obtain rfl := Option.some.inj (h.there.symm.trans ho')
      rw [Table.get?_set] at hw
      split at hw
      · cases hw
        exact hv h' hmentions
      · exact hb w (.live h.1 hw) h' hmentions
    · exact hb w (.live ((h.others hi).symm.trans ho') hw) h' hmentions
  | stored ho hw => exact hb w (.stored (hobjects ▸ ho) hw) h' hmentions
  | queued ho hw => exact hb w (.queued (hobjects ▸ ho) hw) h' hmentions

end Writing

/-- A copy at the end holds what the object holds, and nothing holds the copy yet. -/
theorem holds_push {o : LiveObject} {k i j : Nat} (ho : b.live[k]? = some o) :
    ({ b with live := b.live.push o } : Broker).Holds i j ↔
      b.Holds i j ∨ (i = b.live.size ∧ b.Holds k j) := by
  constructor
  · rintro ⟨o', name, v, ho', hv, hmentions⟩
    rw [show ({ b with live := b.live.push o } : Broker).live = b.live.push o from rfl,
      Array.getElem?_push] at ho'
    split at ho'
    · cases ho'
      exact .inr ⟨‹_›, o, name, v, ho, hv, hmentions⟩
    · exact .inl ⟨o', name, v, ho', hv, hmentions⟩
  · rintro (⟨o', name, v, ho', hv, hmentions⟩ | ⟨rfl, o', name, v, ho', hv, hmentions⟩)
    · exact ⟨o', name, v, live_push o ho', hv, hmentions⟩
    · obtain rfl := Option.some.inj (ho.symm.trans ho')
      exact ⟨o, name, v, Array.getElem?_push_size, hv, hmentions⟩

/-- **When a write closes a cycle**: exactly if what is `Inside` the value leads to the object
that is written to, by `Holds`. -/
theorem acyclic_put_iff {h : Handle} {name : String} {v : Variant} (hb : b.Acyclic)
    (hcontained : b.Contained) (hrun : (put h name v).run b = (.ok (), b')) :
    b'.Acyclic ↔ ∀ j, b.Inside v j → ¬ ReflTransGen b.Holds j h.id := by
  obtain ⟨o, ho, ⟨hplain, hlive⟩ | ⟨h₁, o₁, rfl, ho₁, hlive⟩⟩ := live_of_put hrun
  · have hset : HasSet b b' h.id o name v := ⟨ho, hlive⟩
    have hinside (j : Nat) : b.Inside v j ↔ v.Mentions ⟨j⟩ := by
      unfold Inside
      split
      · exact absurd rfl (hplain _)
      · rfl
    rw [hset.acyclic_iff hb]
    exact forall_congr' fun j => by rw [hinside]
  · -- the copy is made first, and then it is the copy that is written
    let copied : Broker := { b with live := b.live.push o₁ }
    have hset : HasSet copied b' h.id o name (.object ⟨b.live.size⟩) := ⟨live_push o₁ ho, hlive⟩
    have hfresh : h.id ≠ b.live.size := Nat.ne_of_lt (lt_size_of_live ho)
    have hold (i j : Nat) (hij : copied.Holds i j) (hi : i < b.live.size) : b.Holds i j :=
      ((holds_push ho₁).mp hij).resolve_right fun hnew => Nat.ne_of_lt hi hnew.1
    have htarget (i j : Nat) (hij : copied.Holds i j) : j < b.live.size := by
      rcases (holds_push ho₁).mp hij with hij | ⟨-, hij⟩
      · exact hcontained.lt_size hij
      · exact hcontained.lt_size hij
    have hcopied : copied.Acyclic := not_circular_of_old hold htarget hb
    rw [hset.acyclic_iff hcopied]
    constructor
    · intro hback j hinside hpath
      refine hback b.live.size (.object _) (.head ((holds_push ho₁).mpr (.inr ⟨rfl, hinside⟩)) ?_)
      exact ReflTransGen.mono (fun i k hik => (holds_push ho₁).mpr (.inl hik)) _ _ hpath
    · rintro hinside _ ⟨⟩ hpath
      rcases ReflTransGen.cases_head hpath with heq | ⟨j, hfirst, hrest⟩
      · exact hfresh heq.symm
      · rcases (holds_push ho₁).mp hfirst with hij | ⟨-, hij⟩
        · obtain ⟨o', -, -, ho', -⟩ := hij
          exact absurd (lt_size_of_live ho') (Nat.lt_irrefl _)
        · exact hinside j hij (reflTransGen_of_old hold htarget hrest (hcontained.lt_size hij))

/-- A write keeps everything in the broker, if what is written is there. -/
theorem contained_put {h : Handle} {name : String} {v : Variant} (hcontained : b.Contained)
    (hv : ∀ h, v.Mentions h → h.id < b.live.size) (hrun : (put h name v).run b = (.ok (), b')) :
    b'.Contained := by
  obtain ⟨_, _, -, hw⟩ := written_of_put hrun
  obtain ⟨o, ho, ⟨hplain, hlive⟩ | ⟨h₁, o₁, rfl, ho₁, hlive⟩⟩ := live_of_put hrun
  · exact HasSet.contained ⟨ho, hlive⟩ hw.objects hcontained hv
  · let copied : Broker := { b with live := b.live.push o₁ }
    have hcopied : copied.Contained :=
      ((Grows.refl hcontained).push fun _ v hv => hcontained v (.live ho₁ hv)).contained hcontained
    refine HasSet.contained (b := copied) ⟨live_push o₁ ho, hlive⟩ hw.objects hcopied ?_
    rintro _ ⟨⟩
    show b.live.size < (b.live.push o₁).size
    rw [Array.size_push]
    exact Nat.lt_succ_self _

/-! ## Runs -/

theorem contained_empty : Broker.empty.Contained := by
  rintro v hv
  cases hv with
  | live ho => simp [Broker.empty] at ho
  | stored ho => cases ho
  | queued ho => cases ho

theorem acyclic_empty : Broker.empty.Acyclic := by
  rintro ⟨i, hi⟩
  obtain ⟨j, ⟨o, name, v, ho, -⟩, -⟩ := TransGen.head'_iff.mp hi
  simp [Broker.empty] at ho

/-- One deed keeps everything in the broker. -/
theorem Contained.after (hb : b.Contained) {d : Deed} (hd : d.Genuine b) :
    (d.after b).Contained := by
  by_cases hwrite : ∃ h name v, d = .request (.put h name v) ∧ ((put h name v).run b).1 = .ok ()
  · obtain ⟨h, name, v, rfl, hok⟩ := hwrite
    exact contained_put hb (hd v rfl) (Prod.ext hok rfl)
  · refine ((Grows.refl hb).deed hb hd fun h name v heq hok => hwrite ⟨h, name, v, heq, hok⟩)
      |>.contained hb

/-- One deed closes a cycle, or there is none after it either. -/
theorem acyclic_after_iff (hb : b.Acyclic) (hcontained : b.Contained) {d : Deed}
    (hd : d.Genuine b) : (d.after b).Acyclic ↔ ¬ d.Closes b := by
  by_cases hwrite : ∃ h name v, d = .request (.put h name v) ∧ ((put h name v).run b).1 = .ok ()
  · obtain ⟨h, name, v, rfl, hok⟩ := hwrite
    have hput := acyclic_put_iff hb hcontained (Prod.ext hok rfl)
    constructor
    · rintro hacyclic ⟨h', name', v', j, ⟨⟩, -, hinside, hpath⟩
      exact hput.mp hacyclic j hinside hpath
    · intro hcloses
      exact hput.mpr fun j hinside hpath => hcloses ⟨h, name, v, j, rfl, hok, hinside, hpath⟩
  · refine iff_of_true ?_ ?_
    · refine ((Grows.refl hcontained).deed hcontained hd fun h name v heq hok =>
        hwrite ⟨h, name, v, heq, hok⟩).acyclic hcontained hb
    · rintro ⟨h, name, v, j, heq, hok, -⟩
      exact hwrite ⟨h, name, v, heq, hok⟩

/-- A run stays without cycles exactly if none of its deeds closes one. -/
theorem acyclic_course_iff (hb : b.Acyclic) (hcontained : b.Contained) {deeds : List Deed}
    (hgenuine : Along (fun b d => d.Genuine b) b deeds) :
    (∀ n, (course b (deeds.take n)).Acyclic) ↔ ¬ Happens (fun b d => d.Closes b) b deeds := by
  rw [hgenuine.throughout_iff (fun _ _ hb hd => Contained.after hb hd)
    (fun _ _ hcontained hd hb => acyclic_after_iff hb hcontained hd) hcontained]
  exact and_iff_right hb

/-! ## Showing objects within objects -/

/-- At this broker the two actions do the same, which is to look at it. -/
structure ReadAlike {α : Type} (b : Broker) (action action' : Action Broker α) : Prop where
  same : action.run b = action'.run b
  keeps : (action'.run b).2 = b

namespace ReadAlike

variable {α β : Type}

theorem pure (x : α) : ReadAlike b (Pure.pure x) (Pure.pure x) := ⟨rfl, rfl⟩

theorem bind {action action' : Action Broker α} {next next' : α → Action Broker β}
    (h : ReadAlike b action action')
    (hnext : ∀ x, (action'.run b).1 = .ok x → ReadAlike b (next x) (next' x)) :
    ReadAlike b (action >>= next) (action' >>= next') := by
  obtain ⟨hsame, hkeeps⟩ := h
  rcases hrun : action'.run b with ⟨outcome, b'⟩
  obtain rfl : b' = b := by rw [hrun] at hkeeps; exact hkeeps
  cases outcome with
  | error e =>
    rw [hrun] at hsame
    exact ⟨(run_bind_of_error hsame).trans (run_bind_of_error hrun).symm,
      by rw [run_bind_of_error hrun]⟩
  | ok x =>
    obtain ⟨hsame', hkeeps'⟩ := hnext x (by rw [hrun])
    rw [hrun] at hsame
    exact ⟨(run_bind_of_ok hsame).trans (hsame'.trans (run_bind_of_ok hrun).symm),
      by rw [run_bind_of_ok hrun, hkeeps']⟩

theorem mapM {xs : List α} {f g : α → Action Broker β}
    (hfg : ∀ x ∈ xs, ReadAlike b (f x) (g x)) : ReadAlike b (xs.mapM f) (xs.mapM g) := by
  induction xs with
  | nil => exact pure []
  | cons x xs ih =>
    obtain ⟨hhead, hrest⟩ := List.forall_mem_cons.mp hfg
    rw [List.mapM_cons, List.mapM_cons]
    exact hhead.bind fun y _ => (ih hrest).bind fun ys _ => pure (y :: ys)

end ReadAlike

/-- The scalars of a value. -/
def scalarsOf : Variant → List Scalar
  | .null => []
  | .scalar s => [s]
  | .array a => a.items

theorem mentions_of_mem {v : Variant} {h : Handle} (hmem : Scalar.object h ∈ scalarsOf v) :
    v.Mentions h := by
  cases v with
  | null => cases hmem
  | scalar s =>
    cases List.mem_singleton.mp hmem
    exact .object h
  | array a => exact .item hmem

section Showing

variable {f g : Scalar → Action Broker Json}

theorem readAlike_value {v : Variant} (hfg : ∀ s ∈ scalarsOf v, ReadAlike b (f s) (g s)) :
    ReadAlike b (v.toJsonWith f) (v.toJsonWith g) := by
  cases v with
  | null => exact .pure _
  | scalar s => exact hfg s List.mem_cons_self
  | array a => exact (ReadAlike.mapM hfg).bind fun _ _ => .pure _

/-- The JSON of a bag looks at the scalars in its values, and at nothing else. -/
theorem readAlike_bag {bag : PropertyBag}
    (hfg : ∀ p ∈ bag.properties, ∀ s ∈ scalarsOf p.value, ReadAlike b (f s) (g s)) :
    ReadAlike b (bag.toJsonWith f) (bag.toJsonWith g) := by
  refine ReadAlike.bind (ReadAlike.mapM fun p hp => ?_) fun members _ => .pure _
  exact (readAlike_value (hfg p (List.mem_filter.mp hp).1)).bind fun _ _ => .pure _

end Showing

open Classical in
/-- What the object at a place leads to, itself included. -/
noncomputable def reach (b : Broker) (i : Nat) : Finset Nat :=
  (Finset.range b.live.size).filter fun j => ReflTransGen b.Holds i j

theorem mem_reach {i j : Nat} : j ∈ reach b i ↔ j < b.live.size ∧ ReflTransGen b.Holds i j := by
  classical rw [reach, Finset.mem_filter, Finset.mem_range]

theorem card_reach_le (i : Nat) : (reach b i).card ≤ b.live.size := by
  classical exact (Finset.card_filter_le _ _).trans (Finset.card_range _).le

/-- An object within another leads to less. -/
theorem card_reach_lt (hb : b.Acyclic) {i j : Nat} (hij : b.Holds i j) :
    (reach b j).card < (reach b i).card := by
  have hi : i < b.live.size := by
    obtain ⟨o, -, -, ho, -⟩ := hij
    exact lt_size_of_live ho
  refine Finset.card_lt_card (Finset.ssubset_iff_of_subset ?_ |>.mpr ⟨i, ?_, ?_⟩)
  · intro k hk
    obtain ⟨hk, hpath⟩ := mem_reach.mp hk
    exact mem_reach.mpr ⟨hk, .head hij hpath⟩
  · exact mem_reach.mpr ⟨hi, .refl⟩
  · intro hback
    exact hb ⟨i, .head' hij (mem_reach.mp hback).2⟩

/-- What a bag shows is held. -/
theorem holds_of_mem_bag {i : Nat} {o : LiveObject} (ho : b.live[i]? = some o) {p : Property}
    (hp : p ∈ o.bag.properties) {h : Handle} (hmem : Scalar.object h ∈ scalarsOf p.value) :
    b.Holds i h.id := by
  have hmentions := mentions_of_mem hmem
  rcases List.mem_append.mp hp with hsystem | hdeclared
  · -- class and path are texts
    rw [List.mem_cons, List.mem_singleton] at hsystem
    rcases hsystem with rfl | rfl
    · cases hmentions
    · cases hpath : o.path <;> simp [hpath, scalarsOf] at hmem
  · obtain ⟨q, -, rfl⟩ := List.mem_map.mp hdeclared
    cases hvalue : o.values.get? q.1 with
    | none =>
      simp [LiveObject.value, hvalue, scalarsOf] at hmem
    | some v =>
      refine ⟨o, q.1, v, ho, hvalue, ?_⟩
      simpa [LiveObject.value, hvalue] using hmentions

theorem scalarJson_plain {s : Scalar} (hs : ∀ h, s ≠ .object h) (depth : Nat) :
    access.scalarJson depth s = pure s.toJson := by
  cases s with
  | object h => exact absurd rfl (hs h)
  | _ => cases depth <;> rfl

/-- An object that is not there shows as `null` at every depth. -/
theorem run_scalarJson_of_missing {h : Handle} (hmissing : b.live[h.id]? = none) (depth : Nat) :
    (access.scalarJson depth (.object h)).run b = (.ok .null, b) := by
  cases depth with
  | zero => rfl
  | succ depth =>
    have hproperties : (properties h).run b = (.error (.notFound "object"), b) := by
      unfold properties liveObject
      simp [run_bind, state, require, hmissing]
    have hattempt : (access.properties h).attempt.run b =
        (.ok (.error (.notFound "object")), b) := by
      rw [run_attempt]
      show (Except.ok ((properties h).run b).1, ((properties h).run b).2) = _
      rw [hproperties]
    rw [ObjectAccess.scalarJson, run_bind_of_ok hattempt]
    rfl

/-- **Without cycles a scalar shows the same** (`ReadAlike`) at every depth from the number of
objects that it leads to. -/
theorem readAlike_scalar (hb : b.Acyclic) {k : Nat} {s : Scalar}
    (hs : ∀ h, s = .object h → (reach b h.id).card ≤ k) {depth : Nat} (hdepth : k ≤ depth) :
    ReadAlike b (access.scalarJson depth s) (access.scalarJson k s) := by
  induction k generalizing s depth with
  | zero =>
    by_cases hobject : ∃ h, s = .object h
    · obtain ⟨h, rfl⟩ := hobject
      -- it leads to nothing, not even to itself
      have hmissing : b.live[h.id]? = none := by
        by_contra hthere
        obtain ⟨o, ho⟩ := Option.ne_none_iff_exists'.mp hthere
        have hmem : h.id ∈ reach b h.id := mem_reach.mpr ⟨lt_size_of_live ho, .refl⟩
        exact absurd (Finset.card_pos.mpr ⟨_, hmem⟩) (Nat.not_lt.mpr (hs h rfl))
      have hmiss := run_scalarJson_of_missing hmissing
      exact ⟨(hmiss _).trans (hmiss _).symm, by rw [hmiss]⟩
    · have hplain : ∀ h, s ≠ .object h := fun h heq => hobject ⟨h, heq⟩
      rw [scalarJson_plain hplain, scalarJson_plain hplain]
      exact .pure _
  | succ k ih =>
    obtain ⟨depth, rfl⟩ : ∃ less, depth = less + 1 := ⟨depth - 1, by omega⟩
    by_cases hobject : ∃ h, s = .object h
    · obtain ⟨h, rfl⟩ := hobject
      cases ho : b.live[h.id]? with
      | none =>
        exact ⟨(run_scalarJson_of_missing ho _).trans (run_scalarJson_of_missing ho _).symm,
          by rw [run_scalarJson_of_missing ho]⟩
      | some o =>
        have hproperties : (access.properties h).run b = (.ok o.bag, b) := by
          show (liveObject h >>= fun o => pure o.bag).run b = _
          rw [run_bind_of_ok (liveObject_eq_ok.mpr ⟨ho, rfl⟩)]
          rfl
        rw [ObjectAccess.scalarJson, ObjectAccess.scalarJson]
        refine ReadAlike.bind ⟨rfl, ?_⟩ fun found hfound => ?_
        · rw [run_attempt, hproperties]
        · rw [run_attempt, hproperties] at hfound
          cases hfound
          -- what is within leads to less
          refine readAlike_bag fun p hp s hmem =>
            ih (fun h' heq => ?_) (Nat.le_of_succ_le_succ hdepth)
          have hlt := card_reach_lt hb (holds_of_mem_bag ho hp (heq ▸ hmem))
          exact Nat.le_of_lt_succ (hlt.trans_le (hs h rfl))
    · have hplain : ∀ h, s ≠ .object h := fun h heq => hobject ⟨h, heq⟩
      rw [scalarJson_plain hplain, scalarJson_plain hplain]
      exact .pure _

/-- The JSON of what a handle shows, with objects within objects down to a depth. -/
def jsonAt (h : Handle) (depth : Nat) : Action Broker Json := do
  (← properties h).toJsonWith (access.scalarJson depth)

/-- Without cycles the depth that the broker knows beforehand is enough for everything. -/
theorem run_jsonAt (hb : b.Acyclic) (h : Handle) {depth : Nat} (hdepth : b.live.size ≤ depth) :
    (jsonAt h depth).run b = (properties h >>= access.bagJson).run b := by
  have hbag (bag : PropertyBag) : ReadAlike b (bag.toJsonWith (access.scalarJson depth))
      (bag.toJsonWith (access.scalarJson b.live.size)) :=
    readAlike_bag fun p _ s _ => readAlike_scalar hb (fun h _ => card_reach_le h.id) hdepth
  have hread : (properties h).Keeps fun b : Broker => b :=
    Keeps.bind (keeps_lookup _ fun b => b.live[h.id]?) fun o => Keeps.pure _
  rw [jsonAt, run_bind, run_bind]
  have hkeeps := hread b
  revert hkeeps
  rcases (properties h).run b with ⟨outcome, b'⟩
  rintro rfl
  cases outcome with
  | error e => rfl
  | ok bag => exact (hbag bag).same

/-- **When objects hold themselves.** Take a run from the empty broker in which only handles of live
objects are passed (`Deed.Genuine`).  There is no cycle at any moment of it (`Acyclic`) exactly if
none of its deeds closes one (`Deed.Closes`): a write, to an object, of a value with something
inside that leads to the object.  What is inside an array are its items, and what is inside an
object, of which a copy is kept, is what it holds.  And as long as there is no cycle, the JSON of
every handle (`jsonAt`) is complete at the depth that is taken for it. -/
theorem acyclic_iff_nothing_closes {deeds : List Deed}
    (hgenuine : Along (fun b d => d.Genuine b) .empty deeds) :
    ((∀ n, (course .empty (deeds.take n)).Acyclic) ↔
      ¬ Happens (fun b d => d.Closes b) .empty deeds) ∧
    ((course .empty deeds).Acyclic → ∀ h depth, (course .empty deeds).live.size ≤ depth →
      (jsonAt h depth).run (course .empty deeds) =
        (properties h >>= access.bagJson).run (course .empty deeds)) :=
  ⟨acyclic_course_iff acyclic_empty contained_empty hgenuine,
    fun hacyclic h _ hdepth => run_jsonAt hacyclic h hdepth⟩

/-- A class of objects that hold others. -/
def knotClass : ClassDef :=
  .ofProperties "Knot" [("Items", .arrayOf .object), ("Next", .scalarOf .object)]

/-- An array with one object. -/
def bundle (h : Handle) : Variant := .array ⟨.object, [.object h]⟩

/-- Two instances of the class, behind the handles 1 and 2. -/
def strands : List Deed := [.request (.defineClass knotClass), .request (.classObject "Knot"),
  .request (.spawn ⟨0⟩), .request (.spawn ⟨0⟩)]

/-- The second is put into the first, and a copy of the second into itself. -/
def nested : List Deed :=
  strands ++ [.request (.put ⟨1⟩ "Items" (bundle ⟨2⟩)), .request (.put ⟨2⟩ "Next" (.object ⟨2⟩))]

/-- Objects can be put into objects without a cycle. -/
theorem nested_is_acyclic : Along (fun b d => d.Genuine b) .empty nested ∧
    ∀ n, (course .empty (nested.take n)).Acyclic := by
  have hgenuine : Along (fun b d => d.Genuine b) .empty nested := by
    refine ⟨nofun, nofun, nofun, nofun, ?_, ?_, trivial⟩
    · rintro _ rfl h (_ | hitem)
      cases List.mem_singleton.mp hitem
      decide
    · rintro _ rfl _ ⟨⟩
      decide
  refine ⟨hgenuine, (acyclic_iff_nothing_closes hgenuine).1.mpr ?_⟩
  -- before the writes nothing holds anything
  have hempty (i j : Nat) : ¬ (course .empty strands).Holds i j := by
    rintro ⟨o, name, v, ho, hv, -⟩
    have hmem : o ∈ (course .empty strands).live := Array.mem_of_getElem? ho
    have hall : ∀ o ∈ (course .empty strands).live, o.values = .empty := by decide
    rw [hall o hmem] at hv
    cases hv
  simp only [nested, strands, List.cons_append, List.nil_append, Happens.cons_iff, not_or]
  refine ⟨nofun, nofun, nofun, nofun, ?_, ?_, ?_⟩
  · rintro ⟨_, _, _, j, ⟨⟩, -, hinside, hpath⟩
    rcases ReflTransGen.cases_head hpath with rfl | ⟨k, hstep, -⟩
    · rcases hinside with _ | hitem
      cases List.mem_singleton.mp hitem
    · exact hempty j k hstep
  · -- the second still holds nothing
    rintro ⟨_, _, _, j, ⟨⟩, -, ⟨o, name, v, ho, hv, -⟩, -⟩
    cases (show some ⟨knotClass, none, false, .empty⟩ = some o from ho)
    cases hv
  · rintro ⟨before, d, later, heq, -⟩
    simp at heq

/-- An object that was put into itself. -/
def knotted : Broker :=
  course .empty (strands ++ [.request (.put ⟨1⟩ "Items" (bundle ⟨1⟩))])

/-- The object within itself, so many times. -/
def coil : Nat → Json
  | 0 => .ofMembers [("Items", .array [.null]), ("Next", .null)]
  | depth + 1 => .ofMembers [("Items", .array [coil depth]), ("Next", .null)]

theorem coil_succ_ne (depth : Nat) : coil (depth + 1) ≠ coil depth := by
  induction depth with
  | zero => simp [coil, Json.ofMembers]
  | succ depth ih =>
    intro heq
    refine ih ?_
    simpa [coil, Json.ofMembers] using heq

/-- The JSON of a bag with one object in an array, and nothing else. -/
theorem run_toJsonWith_bundle {f : Scalar → Action Broker Json} {x : Json}
    (hf : (f (.object ⟨1⟩)).run b = (.ok x, b)) :
    ((⟨knotClass, none, false, ⟨[("Items", bundle ⟨1⟩)]⟩⟩ : LiveObject).bag.toJsonWith f).run b =
      (.ok (.ofMembers [("Items", .array [x]), ("Next", .null)]), b) := by
  have hitem : (Variant.toJsonWith f (bundle ⟨1⟩)).run b = (.ok (.array [x]), b) := by
    simp [bundle, Variant.toJsonWith, hf, Except.map]
  have hshown :
      (LiveObject.bag ⟨knotClass, none, false, ⟨[("Items", bundle ⟨1⟩)]⟩⟩).properties.filter
      (fun p => !isSystemName p.name) = [⟨"Items", bundle ⟨1⟩, .arrayOf .object⟩,
        ⟨"Next", .null, .scalarOf .object⟩] := rfl
  have hnext : (Variant.toJsonWith f .null).run b = (.ok .null, b) := rfl
  unfold PropertyBag.toJsonWith
  rw [hshown]
  have horder : earlier "Next" "Items" = false := by decide
  simp [run_bind, hitem, hnext, Except.map, Table.ofList, Table.empty, Table.set, Table.place,
    horder]

/-- **An object can be put inside itself**, in an array, with nothing but the handle of a live
object; and however deep one looks, there is more of it. -/
theorem array_closes_cycle : Along (fun b d => d.Genuine b) .empty
      (strands ++ [.request (.put ⟨1⟩ "Items" (bundle ⟨1⟩))]) ∧ ¬ knotted.Acyclic ∧
    ∀ depth, ((jsonAt ⟨1⟩ (depth + 1)).run knotted).1 ≠ ((jsonAt ⟨1⟩ depth).run knotted).1 := by
  refine ⟨?_, ?_, ?_⟩
  · refine ⟨nofun, nofun, nofun, nofun, ?_, trivial⟩
    rintro _ rfl h (_ | hitem)
    cases List.mem_singleton.mp hitem
    decide
  · refine fun hacyclic => hacyclic ⟨1, .single ⟨_, "Items", bundle ⟨1⟩, rfl, rfl, ?_⟩⟩
    exact .item List.mem_cons_self
  · have hproperties : (properties ⟨1⟩).run knotted = (.ok (LiveObject.bag
        ⟨knotClass, none, false, ⟨[("Items", bundle ⟨1⟩)]⟩⟩), knotted) := rfl
    have hcoil (depth : Nat) : (jsonAt ⟨1⟩ depth).run knotted = (.ok (coil depth), knotted) := by
      rw [jsonAt, run_bind_of_ok hproperties]
      induction depth with
      | zero => exact run_toJsonWith_bundle rfl
      | succ depth ih => exact run_toJsonWith_bundle ih
    intro depth heq
    rw [hcoil, hcoil] at heq
    exact coil_succ_ne depth (Except.ok.inj heq)

end Broker
end CimBroker
