/-
# CimBroker.Proofs.Sharing — what an object and its copy have in common

An object that is written under a name is copied first, and an object can be cloned.  Either copy
has the values that the object has at that moment.  A value that is an object, or has objects as its
items, is not copied again: the object and its copy have what is embedded in common, and a write to
it changes the *content* of both, which is what one sees of them when everything embedded is looked
into.

Objects and their properties are the places of a graph (`Spot`).  `altered_put_iff` says what a
write does to the content of a place: it is changed exactly if the place leads to the property that
is written, and what that one shows is changed.  `apart_after_iff` says what a deed does to two
places that lead to nothing in common.  Together they tell when a copy stays what it is
(`contents_stay_iff`).

`blank_node_is_copied` and `inner_part_is_shared` show the two sides.  Whether a copy that shares
something is what its maker wanted is not asked: the statement says when the sharing can be seen.
-/
import CimBroker.Proofs.Cycles
import CimBroker.Proofs.Views

namespace CimBroker

open Relation

/-- What is seen of a value when the objects in it are looked into. -/
inductive Content where
  | nothing
  | plain (s : Scalar)
  | row (element : VarType) (items : List Content)
  | object (className : String) (path : Option String)
      (properties : List (String × CimType × Content))
  /-- An object that is not there. -/
  | missing
  /-- An object that lies too deep. -/
  | deeper

/-- The content of a value, given that of its scalars. -/
def Variant.contentWith (f : Scalar → Content) : Variant → Content
  | .null => .nothing
  | .scalar s => f s
  | .array a => .row a.element (a.items.map f)

/-- The content of an object, given that of the scalars in its values. -/
def LiveObject.contentWith (f : Scalar → Content) (o : LiveObject) : Content :=
  .object o.definition.name o.path
    (o.definition.properties.map fun p => (p.1, p.2, (o.value p.1).contentWith f))

/-- An object behind a handle, or one of its properties. -/
inductive Spot where
  | object (i : Nat)
  | property (i : Nat) (name : String)

/-- The object at a place. -/
def Spot.owner : Spot → Nat
  | object i => i
  | property i _ => i

/-! ## Graphs -/

section Graphs

variable {α : Type} {R R' : α → α → Prop} {p x y z : α}

/-- Two places lead to nothing in common. -/
def Separate (R : α → α → Prop) (x y : α) : Prop :=
  ∀ z, ReflTransGen R x z → ¬ ReflTransGen R y z

theorem Separate.symm (h : Separate R x y) : Separate R y x := fun z hy hx => h z hx hy

/-- If only the ways out of one place differ, paths are the same up to there. -/
theorem reflTransGen_or_over (hsame : ∀ x y, x ≠ p → R x y → R' x y) (h : ReflTransGen R x z) :
    ReflTransGen R' x z ∨ (ReflTransGen R x p ∧ ReflTransGen R p z) := by
  induction h using ReflTransGen.head_induction_on with
  | refl => exact .inl .refl
  | @head x y hstep hrest ih =>
    by_cases hx : x = p
    · subst hx
      exact .inr ⟨.refl, .head hstep hrest⟩
    · exact ih.imp (.head (hsame x y hx hstep)) (And.imp_left (.head hstep))

theorem reflTransGen_there (hsame : ∀ x y, x ≠ p → R x y → R' x y) (h : ReflTransGen R x p) :
    ReflTransGen R' x p :=
  ReflTransGen.mono (fun _ _ hstep => hsame _ _ hstep.1 hstep.2) _ _ (reflTransGen_until h)

/-- With new ways out of one place a path goes as before, or over that place and from there along
one of the new ways. -/
theorem reflTransGen_of_rerouted (hsame : ∀ x y, x ≠ p → R' x y → R x y)
    (h : ReflTransGen R' x z) : ReflTransGen R x z ∨
      (ReflTransGen R x p ∧ ∃ t, R' p t ∧ ReflTransGen R t z) := by
  rcases reflTransGen_iff_eq_or_transGen.mp h with rfl | hpath
  · exact .inl .refl
  · have hmore : ∀ i j, R' i j → R i j ∨ (i = p ∧ R' p j) := by
      intro i j hij
      by_cases hi : i = p
      · exact .inr ⟨hi, hi ▸ hij⟩
      · exact .inl (hsame i j hi hij)
    exact (transGen_of_more hmore hpath).imp_left TransGen.to_reflTransGen

/-- A place that leads to the one with the new ways has everything in common with others that the
new ways lead to. -/
theorem Separate.rerouted (hsame : ∀ x y, x ≠ p → (R' x y ↔ R x y)) (hsep : Separate R x y)
    (hsep' : Separate R' x y) (hx : ReflTransGen R x p) {t : α} (ht : R' p t) : Separate R t y := by
  intro z htz hyz
  have hkept (i j : α) (hi : i ≠ p) : R i j → R' i j := (hsame i j hi).mpr
  have hy : ReflTransGen R' y z :=
    (reflTransGen_or_over hkept hyz).resolve_right fun hover => hsep p hx hover.1
  rcases reflTransGen_or_over hkept htz with htz' | ⟨-, hpz⟩
  · exact hsep' z ((reflTransGen_there hkept hx).trans (.head ht htz')) hy
  · exact hsep z (hx.trans hpz) hyz

/-- **New ways out of one place** keep two places separate exactly if, where one of the two leads to
that place, the new ways lead to nothing that the other leads to. -/
theorem separate_rerouted_iff (hsame : ∀ x y, x ≠ p → (R' x y ↔ R x y)) (hsep : Separate R x y) :
    Separate R' x y ↔ (ReflTransGen R x p → ∀ t, R' p t → Separate R t y) ∧
      (ReflTransGen R y p → ∀ t, R' p t → Separate R t x) := by
  constructor
  · intro hsep'
    exact ⟨fun hx t ht => hsep.rerouted hsame hsep' hx ht,
      fun hy t ht => hsep.symm.rerouted hsame hsep'.symm hy ht⟩
  · rintro ⟨hx, hy⟩ z hxz hyz
    have hback (i j : α) (hi : i ≠ p) : R' i j → R i j := (hsame i j hi).mp
    rcases reflTransGen_of_rerouted hback hxz with hxz | ⟨hxp, t, ht, htz⟩ <;>
      rcases reflTransGen_of_rerouted hback hyz with hyz | ⟨hyp, t', ht', htz'⟩
    · exact hsep z hxz hyz
    · exact hy hyp t' ht' z htz' hxz
    · exact hx hxp t ht z htz hyz
    · exact hsep p hxp hyp

/-- From old places one comes to old places, and there as before. -/
theorem reflTransGen_iff_of_old {old : α → Prop} (hold : ∀ x y, old x → (R' x y ↔ R x y))
    (htarget : ∀ x y, old x → R x y → old y) (hx : old x) :
    ReflTransGen R' x z ↔ ReflTransGen R x z := by
  constructor
  · intro h
    induction h using ReflTransGen.head_induction_on with
    | refl => exact .refl
    | @head x y hstep _ ih =>
      have hstep := (hold x y hx).mp hstep
      exact .head hstep (ih (htarget x y hx hstep))
  · intro h
    induction h using ReflTransGen.head_induction_on with
    | refl => exact .refl
    | @head x y hstep _ ih => exact .head ((hold x y hx).mpr hstep) (ih (htarget x y hx hstep))

theorem separate_iff_of_old {old : α → Prop} (hold : ∀ x y, old x → (R' x y ↔ R x y))
    (htarget : ∀ x y, old x → R x y → old y) (hx : old x) (hy : old y) :
    Separate R' x y ↔ Separate R x y := by
  unfold Separate
  refine forall_congr' fun z => ?_
  rw [reflTransGen_iff_of_old hold htarget hx, reflTransGen_iff_of_old hold htarget hy]

end Graphs

namespace Broker

open CimBroker.Action

/-! ## Places and their contents -/

/-- The content of a scalar, with embedded objects down to a depth. -/
def scalarContent (b : Broker) : (depth : Nat) → Scalar → Content
  | depth + 1, .object h =>
    b.live[h.id]?.elim .missing fun o => o.contentWith (b.scalarContent depth)
  | 0, .object _ => .deeper
  | _, s => .plain s

/-- The content of a place, with embedded objects down to a depth. -/
def content (b : Broker) (depth : Nat) : Spot → Content
  | .object i => b.scalarContent depth (.object ⟨i⟩)
  | .property i name =>
    b.live[i]?.elim .missing fun o => (o.value name).contentWith (b.scalarContent depth)

/-- Another content is seen at a place, if one looks deep enough. -/
def Altered (b b' : Broker) (x : Spot) : Prop := ∃ depth, b'.content depth x ≠ b.content depth x

/-- An object unfolds into the properties that its definition declares, and a property into the
objects that its value mentions. -/
inductive Unfolds (b : Broker) : Spot → Spot → Prop
  | property {i : Nat} {o : LiveObject} {name : String} {t : CimType} (ho : b.live[i]? = some o)
      (hdeclared : (name, t) ∈ o.definition.properties) : Unfolds b (.object i) (.property i name)
  | value {i : Nat} {o : LiveObject} {name : String} {j : Nat} (ho : b.live[i]? = some o)
      (hmentions : (o.value name).Mentions ⟨j⟩) : Unfolds b (.property i name) (.object j)

/-- The second place can be reached from the first. -/
def Leads (b : Broker) : Spot → Spot → Prop := ReflTransGen b.Unfolds

/-- Nothing can be reached from both places. -/
def Apart (b : Broker) : Spot → Spot → Prop := Separate b.Unfolds

/-- The object is the value of a property of another, or an item of it. -/
def Embeds (b : Broker) (i j : Nat) : Prop :=
  ∃ name, b.Unfolds (.object i) (.property i name) ∧ b.Unfolds (.property i name) (.object j)

/-- What a written value brings along: the items of an array as they are, and of an object, which is
copied, what is embedded in it. -/
def Brings (b : Broker) : Variant → Nat → Prop
  | .object h, j => b.Embeds h.id j
  | v, j => v.Mentions ⟨j⟩

/-- The deed is a write that succeeds, through an object that the first place leads to, and after it
another content is seen at the second. -/
def Deed.Disturbs (b : Broker) (x y : Spot) (d : Deed) : Prop :=
  ∃ h name v, d = .request (.put h name v) ∧ ((put h name v).run b).1 = .ok () ∧
    b.Leads x (.object h.id) ∧ Altered b (d.after b) y

/-- The deed is a write that succeeds, through an object that both places lead to, and changes what
is seen there. -/
def Deed.AltersCommon (b : Broker) (x y : Spot) (d : Deed) : Prop :=
  ∃ h name v, d = .request (.put h name v) ∧ ((put h name v).run b).1 = .ok () ∧
    b.Leads x (.object h.id) ∧ b.Leads y (.property h.id name) ∧
    Altered b (d.after b) (.property h.id name)

/-- The deed is a write that succeeds, to something that one of the places leads to, of a value that
brings along what leads where the other leads. -/
def Deed.Ties (b : Broker) (x y : Spot) (d : Deed) : Prop :=
  ∃ h name v j, d = .request (.put h name v) ∧ ((put h name v).run b).1 = .ok () ∧ b.Brings v j ∧
    ((b.Leads x (.property h.id name) ∧ ¬ b.Apart (.object j) y) ∨
      (b.Leads y (.property h.id name) ∧ ¬ b.Apart (.object j) x))

variable {b b' : Broker} {x y : Spot} {d : Deed}

theorem contentWith_eq_iff {f g : Scalar → Content} {v : Variant} :
    v.contentWith f = v.contentWith g ↔ ∀ s ∈ scalarsOf v, f s = g s := by
  cases v with
  | null => exact iff_of_true rfl nofun
  | scalar s => simp [Variant.contentWith, scalarsOf]
  | array a =>
    show Content.row a.element (a.items.map f) = .row a.element (a.items.map g) ↔ _
    rw [Content.row.injEq, eq_self, true_and, List.map_inj_left]
    rfl

theorem scalarContent_plain {s : Scalar} (hs : ∀ h, s ≠ .object h) (depth : Nat) :
    b.scalarContent depth s = .plain s := by
  cases s with
  | object h => exact absurd rfl (hs h)
  | _ => cases depth <;> rfl

theorem mem_scalarsOf {v : Variant} {h : Handle} :
    Scalar.object h ∈ scalarsOf v ↔ v.Mentions h := by
  refine ⟨mentions_of_mem, ?_⟩
  rintro (_ | hitem)
  · exact List.mem_singleton_self _
  · exact hitem

/-- A value shows the same exactly if every object in it does. -/
theorem contentWith_scalarContent_eq_iff {depth : Nat} {v : Variant} :
    v.contentWith (b'.scalarContent depth) = v.contentWith (b.scalarContent depth) ↔
      ∀ j, v.Mentions ⟨j⟩ → b'.content depth (.object j) = b.content depth (.object j) := by
  rw [contentWith_eq_iff]
  constructor
  · exact fun hall j hmentions => hall _ (mem_scalarsOf.mpr hmentions)
  · intro hall s hs
    by_cases hobject : ∃ h, s = .object h
    · obtain ⟨h, rfl⟩ := hobject
      exact hall h.id (mem_scalarsOf.mp hs)
    · have hplain : ∀ h, s ≠ .object h := fun h heq => hobject ⟨h, heq⟩
      rw [scalarContent_plain hplain, scalarContent_plain hplain]

theorem content_property {i : Nat} {o : LiveObject} (ho : b.live[i]? = some o) (depth : Nat)
    (name : String) : b.content depth (.property i name) =
      (o.value name).contentWith (b.scalarContent depth) := by
  rw [content, ho]
  rfl

theorem content_object {i : Nat} {o : LiveObject} (ho : b.live[i]? = some o) (depth : Nat) :
    b.content (depth + 1) (.object i) = .object o.definition.name o.path
      (o.definition.properties.map fun p => (p.1, p.2, b.content depth (.property i p.1))) := by
  simp only [content, scalarContent, ho]
  rfl

theorem unfolds_value_iff {i : Nat} {o : LiveObject} (ho : b.live[i]? = some o) {name : String}
    {j : Nat} : b.Unfolds (.property i name) (.object j) ↔ (o.value name).Mentions ⟨j⟩ := by
  constructor
  · rintro (_ | ⟨ho', hmentions⟩)
    obtain rfl := Option.some.inj (ho.symm.trans ho')
    exact hmentions
  · exact .value ho

theorem unfolds_property_iff {i : Nat} {o : LiveObject} (ho : b.live[i]? = some o) {name : String} :
    b.Unfolds (.object i) (.property i name) ↔ ∃ t, (name, t) ∈ o.definition.properties := by
  constructor
  · rintro (⟨ho', hdeclared⟩ | _)
    obtain rfl := Option.some.inj (ho.symm.trans ho')
    exact ⟨_, hdeclared⟩
  · rintro ⟨t, hdeclared⟩
    exact .property ho hdeclared

/-- Looking at a live object, one sees its declared properties. -/
theorem content_object_eq_iff {i : Nat} {o o' : LiveObject} (ho : b.live[i]? = some o)
    (ho' : b'.live[i]? = some o') (hdefinition : o'.definition = o.definition)
    (hpath : o'.path = o.path) {depth : Nat} :
    b'.content (depth + 1) (.object i) = b.content (depth + 1) (.object i) ↔
      ∀ name, b.Unfolds (.object i) (.property i name) →
        b'.content depth (.property i name) = b.content depth (.property i name) := by
  rw [content_object ho, content_object ho', hdefinition, hpath, Content.object.injEq, eq_self,
    eq_self, true_and, true_and, List.map_inj_left]
  constructor
  · intro hall name hunfolds
    obtain ⟨t, hdeclared⟩ := (unfolds_property_iff ho).mp hunfolds
    exact (Prod.mk.inj (Prod.mk.inj (hall (name, t) hdeclared)).2).2
  · rintro hall ⟨name, t⟩ hdeclared
    rw [hall name (.property ho hdeclared)]

/-- What can be reached from an object: the object, its properties, and what is to be found behind
the objects in these. -/
theorem leads_object_iff {i : Nat} : b.Leads (.object i) x ↔
    x = .object i ∨ (∃ name, x = .property i name ∧ b.Unfolds (.object i) x) ∨
      ∃ j, b.Embeds i j ∧ b.Leads (.object j) x := by
  constructor
  · intro hpath
    rcases ReflTransGen.cases_head hpath with rfl | ⟨between, hfirst, hrest⟩
    · exact .inl rfl
    · cases hfirst with
      | @property _ _ name _ ho hdeclared =>
        rcases ReflTransGen.cases_head hrest with rfl | ⟨between, hsecond, hrest⟩
        · exact .inr (.inl ⟨name, rfl, .property ho hdeclared⟩)
        · cases hsecond with
          | @value _ _ _ j ho' hmentions =>
            exact .inr (.inr ⟨j, ⟨name, .property ho hdeclared, .value ho' hmentions⟩, hrest⟩)
  · rintro (rfl | ⟨name, rfl, hunfolds⟩ | ⟨j, ⟨name, hfirst, hsecond⟩, hrest⟩)
    · exact .refl
    · exact .single hunfolds
    · exact .head hfirst (.head hsecond hrest)

/-- What is embedded in an object depends on the object alone. -/
theorem embeds_congr {i i' : Nat} {o : LiveObject} (ho : b.live[i]? = some o)
    (ho' : b'.live[i']? = some o) {j : Nat} : b'.Embeds i' j ↔ b.Embeds i j := by
  unfold Embeds
  simp only [unfolds_property_iff ho, unfolds_property_iff ho', unfolds_value_iff ho,
    unfolds_value_iff ho']

/-! ## More live objects -/

section Growing

variable (hgrown : ∀ (i : Nat) (o : LiveObject), b.live[i]? = some o → b'.live[i]? = some o)

theorem Contained.unfolded (hb : b.Contained) (hxy : b.Unfolds x y) :
    y.owner < b.live.size := by
  cases hxy with
  | property ho hdeclared => exact lt_size_of_live ho
  | @value i o name j ho hmentions =>
    cases hvalue : o.values.get? name with
    | none =>
      rw [LiveObject.value, hvalue] at hmentions
      cases hmentions
    | some v =>
      rw [LiveObject.value, hvalue] at hmentions
      exact hb v (.live ho hvalue) ⟨j⟩ hmentions

include hgrown

theorem unfolds_iff_of_grown (hx : x.owner < b.live.size) : b'.Unfolds x y ↔ b.Unfolds x y := by
  obtain ⟨o, ho⟩ := live_of_lt_size hx
  have ho' := hgrown _ o ho
  constructor
  · rintro (⟨ho'', hdeclared⟩ | ⟨ho'', hmentions⟩)
    · obtain rfl := Option.some.inj (ho'.symm.trans ho'')
      exact .property ho hdeclared
    · obtain rfl := Option.some.inj (ho'.symm.trans ho'')
      exact .value ho hmentions
  · rintro (⟨ho'', hdeclared⟩ | ⟨ho'', hmentions⟩)
    · exact .property (hgrown _ _ ho'') hdeclared
    · exact .value (hgrown _ _ ho'') hmentions

theorem leads_iff_of_grown (hb : b.Contained) (hx : x.owner < b.live.size) :
    b'.Leads x y ↔ b.Leads x y :=
  reflTransGen_iff_of_old
    (fun x _ (hx : x.owner < b.live.size) => unfolds_iff_of_grown hgrown hx)
    (fun _ _ _ hxy => hb.unfolded hxy) hx

theorem apart_iff_of_grown (hb : b.Contained) (hx : x.owner < b.live.size)
    (hy : y.owner < b.live.size) : b'.Apart x y ↔ b.Apart x y :=
  separate_iff_of_old
    (fun x _ (hx : x.owner < b.live.size) => unfolds_iff_of_grown hgrown hx)
    (fun _ _ _ hxy => hb.unfolded hxy) hx hy

/-- What was live shows what it showed. -/
theorem content_of_grown (hb : b.Contained) (hx : x.owner < b.live.size) (depth : Nat) :
    b'.content depth x = b.content depth x := by
  have hproperty (depth : Nat) (hobjects : ∀ i < b.live.size,
      b'.content depth (.object i) = b.content depth (.object i)) (i : Nat) (name : String)
      (hi : i < b.live.size) :
      b'.content depth (.property i name) = b.content depth (.property i name) := by
    obtain ⟨o, ho⟩ := live_of_lt_size hi
    rw [content_property ho, content_property (hgrown i o ho), contentWith_scalarContent_eq_iff]
    exact fun j hmentions => hobjects j (hb.unfolded (.value ho hmentions))
  have hobject (i : Nat) (hi : i < b.live.size) :
      b'.content depth (.object i) = b.content depth (.object i) := by
    induction depth generalizing i with
    | zero => rfl
    | succ depth ih =>
      obtain ⟨o, ho⟩ := live_of_lt_size hi
      rw [content_object_eq_iff ho (hgrown i o ho) rfl rfl]
      exact fun name _ => hproperty depth ih i name hi
  cases x with
  | object i => exact hobject i hx
  | property i name => exact hproperty depth hobject i name hx

end Growing

/-! ## Writing -/

section Writing

variable {a : Nat} {o : LiveObject} {name : String} {v : Variant}

/-- An object is what it was, but for one value. -/
theorem HasSet.resembles (h : HasSet b b' a o name v) {i : Nat} {o' : LiveObject}
    (ho' : b.live[i]? = some o') : ∃ o'', b'.live[i]? = some o'' ∧
      Resembles (fun other => Spot.property i other = .property a name) o' o'' := by
  by_cases hi : i = a
  · subst hi
    obtain rfl := Option.some.inj (h.1.symm.trans ho')
    refine ⟨_, h.there, rfl, rfl, rfl, fun other hother => ?_⟩
    have hne : name ≠ other := by
      rintro rfl
      exact hother rfl
    show ((o.values.set name v).get? other).getD .null = _
    rw [Table.get?_set, if_neg hne]
    rfl
  · exact ⟨o', (h.others hi).trans ho', rfl, rfl, rfl, fun _ _ => rfl⟩

/-- Nothing appears where nothing was. -/
theorem HasSet.resembled (h : HasSet b b' a o name v) {i : Nat} {o'' : LiveObject}
    (ho'' : b'.live[i]? = some o'') : ∃ o', b.live[i]? = some o' ∧
      Resembles (fun other => Spot.property i other = .property a name) o' o'' := by
  cases ho' : b.live[i]? with
  | none =>
    have hi : i ≠ a := by
      rintro rfl
      cases h.1.symm.trans ho'
    cases ho'.symm.trans ((h.others hi).symm.trans ho'')
  | some o' =>
    obtain ⟨o₁, ho₁, hresembles⟩ := h.resembles ho'
    obtain rfl := Option.some.inj (ho₁.symm.trans ho'')
    exact ⟨o', rfl, hresembles⟩

theorem HasSet.unfolds_iff (h : HasSet b b' a o name v) (hx : x ≠ .property a name) :
    b'.Unfolds x y ↔ b.Unfolds x y := by
  constructor
  · rintro (⟨ho'', hdeclared⟩ | ⟨ho'', hmentions⟩)
    · obtain ⟨o', ho', hresembles⟩ := h.resembled ho''
      exact .property ho' (hresembles.definition ▸ hdeclared)
    · obtain ⟨o', ho', hresembles⟩ := h.resembled ho''
      exact .value ho' (hresembles.value _ hx ▸ hmentions)
  · rintro (⟨ho', hdeclared⟩ | ⟨ho', hmentions⟩)
    · obtain ⟨o'', ho'', hresembles⟩ := h.resembles ho'
      exact .property ho'' (hresembles.definition.symm ▸ hdeclared)
    · obtain ⟨o'', ho'', hresembles⟩ := h.resembles ho'
      exact .value ho'' ((hresembles.value _ hx).symm ▸ hmentions)

theorem HasSet.unfolds_there_iff (h : HasSet b b' a o name v) :
    b'.Unfolds (.property a name) y ↔ ∃ j, y = .object j ∧ v.Mentions ⟨j⟩ := by
  have hvalue : LiveObject.value { o with values := o.values.set name v } name = v := by
    rw [LiveObject.value, Table.get?_set, if_pos rfl]
    rfl
  constructor
  · rintro (_ | @⟨_, o', _, j, ho', hmentions⟩)
    obtain rfl := Option.some.inj (h.there.symm.trans ho')
    exact ⟨j, rfl, hvalue ▸ hmentions⟩
  · rintro ⟨j, rfl, hmentions⟩
    exact .value h.there (hvalue.symm ▸ hmentions)

/-- An object shows the same exactly if its properties do. -/
theorem HasSet.content_object_eq_iff (h : HasSet b b' a o name v) {i depth : Nat} :
    b'.content (depth + 1) (.object i) = b.content (depth + 1) (.object i) ↔
      ∀ other, b.Unfolds (.object i) (.property i other) →
        b'.content depth (.property i other) = b.content depth (.property i other) := by
  cases ho' : b.live[i]? with
  | some o' =>
    obtain ⟨o'', ho'', hresembles⟩ := h.resembles ho'
    exact Broker.content_object_eq_iff ho' ho'' hresembles.definition hresembles.path
  | none =>
    refine iff_of_true ?_ ?_
    · cases ho'' : b'.live[i]? with
      | none =>
        rw [content, content, scalarContent, scalarContent, ho', ho'']
        rfl
      | some o'' =>
        obtain ⟨o', ho, -⟩ := h.resembled ho''
        cases ho'.symm.trans ho
    · rintro other (⟨ho, -⟩ | _)
      cases ho'.symm.trans ho

/-- Another property than the one that is written shows the same exactly if the objects in its value
do. -/
theorem HasSet.content_property_eq_iff (h : HasSet b b' a o name v) {i depth : Nat}
    {other : String} (hother : Spot.property i other ≠ .property a name) :
    b'.content depth (.property i other) = b.content depth (.property i other) ↔
      ∀ j, b.Unfolds (.property i other) (.object j) →
        b'.content depth (.object j) = b.content depth (.object j) := by
  cases ho' : b.live[i]? with
  | some o' =>
    obtain ⟨o'', ho'', hresembles⟩ := h.resembles ho'
    rw [content_property ho', content_property ho'', hresembles.value _ hother,
      contentWith_scalarContent_eq_iff]
    exact forall_congr' fun j => by rw [unfolds_value_iff ho']
  | none =>
    refine iff_of_true ?_ ?_
    · cases ho'' : b'.live[i]? with
      | none =>
        rw [content, content, ho', ho'']
        rfl
      | some o'' =>
        obtain ⟨o', ho, -⟩ := h.resembled ho''
        cases ho'.symm.trans ho
    · rintro j (_ | ⟨ho, -⟩)
      cases ho'.symm.trans ho

/-- A place shows what it showed, unless it leads to the property that is written, and that one
shows something else. -/
theorem HasSet.content_eq (h : HasSet b b' a o name v)
    (hx : b.Leads x (.property a name) → ¬ Altered b b' (.property a name)) (depth : Nat) :
    b'.content depth x = b.content depth x := by
  have hproperty (depth : Nat) (hobjects : ∀ i,
      (b.Leads (.object i) (.property a name) → ¬ Altered b b' (.property a name)) →
        b'.content depth (.object i) = b.content depth (.object i)) (i : Nat) (other : String)
      (hx : b.Leads (.property i other) (.property a name) →
        ¬ Altered b b' (.property a name)) :
      b'.content depth (.property i other) = b.content depth (.property i other) := by
    by_cases hother : Spot.property i other = .property a name
    · rw [hother] at hx ⊢
      by_contra hne
      exact hx .refl ⟨depth, hne⟩
    · rw [h.content_property_eq_iff hother]
      exact fun j hunfolds => hobjects j fun hleads => hx (.head hunfolds hleads)
  have hobject (i : Nat)
      (hx : b.Leads (.object i) (.property a name) → ¬ Altered b b' (.property a name)) :
      b'.content depth (.object i) = b.content depth (.object i) := by
    induction depth generalizing i with
    | zero => rfl
    | succ depth ih =>
      rw [h.content_object_eq_iff]
      exact fun other hunfolds =>
        hproperty depth ih i other fun hleads => hx (.head hunfolds hleads)
  cases x with
  | object i => exact hobject i hx
  | property i other => exact hproperty depth hobject i other hx

/-- **What a write changes**: exactly the places that lead to the property that is written, if that
one shows something else. -/
theorem HasSet.altered_iff (h : HasSet b b' a o name v) :
    Altered b b' x ↔ b.Leads x (.property a name) ∧ Altered b b' (.property a name) := by
  constructor
  · rintro ⟨depth, hne⟩
    by_contra hnot
    exact hne (h.content_eq (fun hleads haltered => hnot ⟨hleads, haltered⟩) depth)
  · rintro ⟨hleads, haltered⟩
    induction hleads using ReflTransGen.head_induction_on with
    | refl => exact haltered
    | @head x y hstep _ ih =>
      by_cases hx : x = .property a name
      · exact hx ▸ haltered
      · obtain ⟨depth, hne⟩ := ih
        cases hstep with
        | property ho hdeclared =>
          exact ⟨depth + 1, fun heq =>
            hne (h.content_object_eq_iff.mp heq _ (.property ho hdeclared))⟩
        | value ho hmentions =>
          exact ⟨depth, fun heq =>
            hne ((h.content_property_eq_iff hx).mp heq _ (.value ho hmentions))⟩

end Writing

/-- A write in two steps: an object that is written is copied first, and then the value that is kept
is put in its place. -/
theorem steps_of_put {h : Handle} {name : String} {v : Variant}
    (hrun : (put h name v).run b = (.ok (), b')) :
    ∃ o b₁ v', (∀ (i : Nat) (o : LiveObject), b.live[i]? = some o → b₁.live[i]? = some o) ∧
      h.id < b.live.size ∧ HasSet b₁ b' h.id o name v' ∧
      (((∀ g, v ≠ .object g) ∧ b₁ = b ∧ v' = v) ∨
        ∃ g o₁, v = .object g ∧ b.live[g.id]? = some o₁ ∧ v' = .object ⟨b.live.size⟩ ∧
          b₁ = { b with live := b.live.push o₁ }) := by
  obtain ⟨o, ho, ⟨hplain, hlive⟩ | ⟨g, o₁, rfl, ho₁, hlive⟩⟩ := live_of_put hrun
  · exact ⟨o, b, v, fun _ _ ho => ho, lt_size_of_live ho, ⟨ho, hlive⟩, .inl ⟨hplain, rfl, rfl⟩⟩
  · exact ⟨o, { b with live := b.live.push o₁ }, .object ⟨b.live.size⟩,
      fun _ _ ho => live_push o₁ ho, lt_size_of_live ho, ⟨live_push o₁ ho, hlive⟩,
      .inr ⟨g, o₁, rfl, ho₁, rfl, rfl⟩⟩

/-- What a copy has in common with an old place is what is embedded in the object. -/
theorem apart_copy_iff {g : Nat} {o : LiveObject} (hb : b.Contained) (ho : b.live[g]? = some o)
    (hy : y.owner < b.live.size) :
    ({ b with live := b.live.push o } : Broker).Apart (.object b.live.size) y ↔
      ∀ j, b.Embeds g j → b.Apart (.object j) y := by
  let copied : Broker := { b with live := b.live.push o }
  have hgrown : ∀ (i : Nat) (o' : LiveObject), b.live[i]? = some o' → copied.live[i]? = some o' :=
    fun _ _ ho' => live_push o ho'
  have hembeds (j : Nat) : copied.Embeds b.live.size j ↔ b.Embeds g j :=
    embeds_congr ho Array.getElem?_push_size
  have hlive {j : Nat} (hj : b.Embeds g j) : j < b.live.size := by
    obtain ⟨name, -, hunfolds⟩ := hj
    exact hb.unfolded hunfolds
  -- what can be reached from an old place is old
  have hold {z : Spot} (hz : copied.Leads y z) : z.owner < b.live.size := by
    have hpath : b.Leads y z := (leads_iff_of_grown hgrown hb hy).mp hz
    rcases ReflTransGen.cases_tail hpath with rfl | ⟨w, -, hlast⟩
    · exact hy
    · exact hb.unfolded hlast
  constructor
  · intro hapart j hj z hjz hyz
    refine hapart z ?_ ((leads_iff_of_grown hgrown hb hy).mpr hyz)
    refine leads_object_iff.mpr (.inr (.inr ⟨j, (hembeds j).mpr hj, ?_⟩))
    exact (leads_iff_of_grown (x := .object j) hgrown hb (hlive hj)).mpr hjz
  · intro hall z hz hyz
    rcases leads_object_iff.mp hz with rfl | ⟨name, rfl, -⟩ | ⟨j, hj, hjz⟩
    · exact Nat.lt_irrefl _ (hold hyz)
    · exact Nat.lt_irrefl _ (hold hyz)
    · have hj := (hembeds j).mp hj
      exact hall j hj z ((leads_iff_of_grown (x := .object j) hgrown hb (hlive hj)).mp hjz)
        ((leads_iff_of_grown hgrown hb hy).mp hyz)

section Putting

variable {h : Handle} {name : String} {v : Variant} (hb : b.Contained)
  (hrun : (put h name v).run b = (.ok (), b'))

include hb hrun

/-- **What a write changes**: of what was live, exactly the places that lead to the property that is
written, if that one shows something else. -/
theorem altered_put_iff (hx : x.owner < b.live.size) :
    Altered b b' x ↔ b.Leads x (.property h.id name) ∧ Altered b b' (.property h.id name) := by
  obtain ⟨o, b₁, v', hgrown, hlive, hset, -⟩ := steps_of_put hrun
  have hsame {x : Spot} (hx : x.owner < b.live.size) : Altered b b' x ↔ Altered b₁ b' x := by
    unfold Altered
    simp only [content_of_grown hgrown hb hx]
  rw [hsame hx, hsame (x := .property h.id name) hlive, hset.altered_iff,
    leads_iff_of_grown hgrown hb hx]

/-- **What a write ties together.**  Two places that lead to nothing in common still do so after it,
exactly if what the value brings along leads to nothing that the one place leads to, where the other
leads to the property that is written. -/
theorem apart_put_iff (hx : x.owner < b.live.size) (hy : y.owner < b.live.size)
    (hapart : b.Apart x y) : b'.Apart x y ↔
      (b.Leads x (.property h.id name) → ∀ j, b.Brings v j → b.Apart (.object j) y) ∧
      (b.Leads y (.property h.id name) → ∀ j, b.Brings v j → b.Apart (.object j) x) := by
  obtain ⟨o, b₁, v', hgrown, hlive, hset, hkept⟩ := steps_of_put hrun
  have hbrought {y : Spot} (hy : y.owner < b.live.size) :
      (∀ t, b'.Unfolds (.property h.id name) t → b₁.Apart t y) ↔
        ∀ j, b.Brings v j → b.Apart (.object j) y := by
    simp only [hset.unfolds_there_iff]
    rcases hkept with ⟨hplain, rfl, rfl⟩ | ⟨g, o₁, rfl, ho₁, rfl, rfl⟩
    · have hbrings (j : Nat) : b₁.Brings v' j ↔ v'.Mentions ⟨j⟩ := by
        unfold Brings
        split
        · exact absurd rfl (hplain _)
        · rfl
      constructor
      · exact fun hall j hj => hall _ ⟨j, rfl, (hbrings j).mp hj⟩
      · rintro hall _ ⟨j, rfl, hmentions⟩
        exact hall j ((hbrings j).mpr hmentions)
    · refine Iff.trans ?_ (apart_copy_iff hb ho₁ hy)
      constructor
      · exact fun hall => hall _ ⟨_, rfl, .object _⟩
      · rintro hapart _ ⟨_, rfl, ⟨⟩⟩
        exact hapart
  have hbefore : b₁.Apart x y := (apart_iff_of_grown hgrown hb hx hy).mpr hapart
  refine (separate_rerouted_iff (fun _ _ hne => hset.unfolds_iff hne) hbefore).trans ?_
  refine and_congr (imp_congr ?_ (hbrought hy)) (imp_congr ?_ (hbrought hx))
  · exact leads_iff_of_grown hgrown hb hx
  · exact leads_iff_of_grown hgrown hb hy

end Putting

/-- **A clone has in common with its object** what is embedded in the object. -/
theorem apart_clone_iff {g c : Handle} (hb : b.Contained)
    (hrun : (clone g).run b = (.ok c, b')) :
    b'.Apart (.object g.id) (.object c.id) ↔ ∀ j, ¬ b.Embeds g.id j := by
  obtain ⟨o, b₁, hlive, hbring⟩ := run_bind_eq_ok.mp hrun
  obtain ⟨ho, rfl⟩ := liveObject_eq_ok.mp hlive
  cases hbring
  refine Iff.trans ⟨Separate.symm, Separate.symm⟩ ?_
  refine (apart_copy_iff (y := .object g.id) hb ho (lt_size_of_live ho)).trans ?_
  refine forall_congr' fun j => ⟨fun hapart hj => ?_, fun hnot hj => absurd hj hnot⟩
  -- what is embedded in the object can be reached from it
  exact hapart hj (.object j) .refl (leads_object_iff.mpr (.inr (.inr ⟨j, hj, .refl⟩)))

/-- A property that can be written is declared. -/
theorem unfolds_of_put {h : Handle} {name : String} {v : Variant}
    (hok : ((put h name v).run b).1 = .ok ()) :
    b.Unfolds (.object h.id) (.property h.id name) := by
  obtain ⟨-, ⟨o, ho, t, hdeclared, -⟩, -⟩ := put_eq_ok_iff.mp hok
  obtain ⟨p, hp, rfl⟩ := Option.map_eq_some_iff.mp hdeclared
  have hname : p.1 = name := by simpa using List.find?_some hp
  exact hname ▸ Unfolds.property ho (List.mem_of_find?_eq_some hp)

/-- **A written object has in common with the property that it is written to** what is embedded in
the object; or the property is its own. -/
theorem apart_written_iff {a g : Handle} {name : String}
    (hrun : (put a name (.object g)).run b = (.ok (), b')) :
    b'.Apart (.object g.id) (.property a.id name) ↔ g ≠ a ∧ ∀ j, ¬ b.Embeds g.id j := by
  have hdeclared := unfolds_of_put (congrArg Prod.fst hrun)
  obtain ⟨o, b₁, v', hgrown, hlive, hset, ⟨hplain, -⟩ | ⟨g', o₁, ⟨⟩, ho₁, rfl, rfl⟩⟩ :=
    steps_of_put hrun
  · exact absurd rfl (hplain g)
  have hcopy : b'.live[b.live.size]? = some o₁ :=
    (hset.others (Nat.ne_of_gt hlive)).trans Array.getElem?_push_size
  have hkept (z : Spot) : b'.Unfolds (.property a.id name) z ↔ z = .object b.live.size := by
    rw [hset.unfolds_there_iff]
    constructor
    · rintro ⟨_, rfl, ⟨⟩⟩
      rfl
    · rintro rfl
      exact ⟨_, rfl, .object _⟩
  have hwritten (hne : g ≠ a) : b'.live[g.id]? = some o₁ :=
    (hset.others fun heq => hne (congrArg Handle.mk heq)).trans (live_push o₁ ho₁)
  constructor
  · intro hapart
    have hne : g ≠ a := by
      rintro rfl
      refine hapart _ (.single ?_) .refl
      refine (hset.unfolds_iff Spot.noConfusion).mpr ?_
      exact (unfolds_iff_of_grown (x := .object g.id) hgrown hlive).mpr hdeclared
    refine ⟨hne, fun j hj => hapart (.object j) ?_ ?_⟩
    · exact leads_object_iff.mpr (.inr (.inr ⟨j, (embeds_congr ho₁ (hwritten hne)).mpr hj, .refl⟩))
    · refine .head ((hkept _).mpr rfl) ?_
      exact leads_object_iff.mpr (.inr (.inr ⟨j, (embeds_congr ho₁ hcopy).mpr hj, .refl⟩))
  · rintro ⟨hne, hnone⟩ z hgz hpz
    -- the object leads to itself and its properties only, and so does the copy
    have hown : z.owner = g.id ∧ z ≠ .property a.id name := by
      rcases leads_object_iff.mp hgz with rfl | ⟨other, rfl, -⟩ | ⟨j, hj, -⟩
      · exact ⟨rfl, nofun⟩
      · refine ⟨rfl, fun heq => hne ?_⟩
        rw [Spot.property.injEq] at heq
        exact congrArg Handle.mk heq.1
      · exact absurd ((embeds_congr ho₁ (hwritten hne)).mp hj) (hnone j)
    have hfresh : g.id ≠ b.live.size := Nat.ne_of_lt (lt_size_of_live ho₁)
    rcases ReflTransGen.cases_head hpz with heq | ⟨between, hfirst, hrest⟩
    · exact hown.2 heq.symm
    · obtain rfl := (hkept between).mp hfirst
      rcases leads_object_iff.mp hrest with rfl | ⟨other, rfl, -⟩ | ⟨j, hj, -⟩
      · exact hfresh hown.1.symm
      · exact hfresh hown.1.symm
      · exact hnone j ((embeds_congr ho₁ hcopy).mp hj)

/-! ## Runs -/

/-- The broker contains everything that is mentioned in it, and both places are in it. -/
structure Surveys (b : Broker) (x y : Spot) : Prop where
  contained : b.Contained
  first : x.owner < b.live.size
  second : y.owner < b.live.size

/-- What is live stays live. -/
theorem lt_size_after {i : Nat} (hi : i < b.live.size) (d : Deed) : i < (d.after b).live.size := by
  obtain ⟨o, ho⟩ := live_of_lt_size hi
  obtain ⟨o', ho', -⟩ := resembles_after (h := ⟨i⟩) ho d
  exact lt_size_of_live ho'

theorem Surveys.after (hb : b.Surveys x y) (hd : d.Genuine b) : (d.after b).Surveys x y :=
  ⟨hb.contained.after hd, lt_size_after hb.first d, lt_size_after hb.second d⟩

/-- A disturbance is a change of something in common. -/
theorem disturbs_iff (hb : b.Contained) (hy : y.owner < b.live.size) :
    d.Disturbs b x y ↔ d.AltersCommon b x y := by
  constructor
  · rintro ⟨h, name, v, rfl, hok, hleads, haltered⟩
    obtain ⟨hto, hthere⟩ := (altered_put_iff hb (Prod.ext hok rfl) hy).mp haltered
    exact ⟨h, name, v, rfl, hok, hleads, hto, hthere⟩
  · rintro ⟨h, name, v, rfl, hok, hleads, hto, hthere⟩
    exact ⟨h, name, v, rfl, hok, hleads,
      (altered_put_iff hb (Prod.ext hok rfl) hy).mpr ⟨hto, hthere⟩⟩

/-- Where there is nothing in common, nothing disturbs. -/
theorem not_disturbs_of_apart (hb : b.Contained) (hy : y.owner < b.live.size)
    (hapart : b.Apart x y) : ¬ d.Disturbs b x y := by
  rw [disturbs_iff hb hy]
  rintro ⟨h, name, v, rfl, hok, hleads, hto, -⟩
  exact hapart _ (hleads.tail (unfolds_of_put hok)) hto

/-- **One deed** ties two places together, or they lead to nothing in common after it either. -/
theorem apart_after_iff (hb : b.Surveys x y) (hd : d.Genuine b) (hapart : b.Apart x y) :
    (d.after b).Apart x y ↔ ¬ d.Ties b x y := by
  by_cases hwrite : ∃ h name v, d = .request (.put h name v) ∧ ((put h name v).run b).1 = .ok ()
  · obtain ⟨h, name, v, rfl, hok⟩ := hwrite
    refine (apart_put_iff hb.contained (Prod.ext hok rfl) hb.first hb.second hapart).trans ?_
    constructor
    · rintro ⟨hx, hy⟩ ⟨h', name', v', j, ⟨⟩, -, hbrings, ⟨hto, hshared⟩ | ⟨hto, hshared⟩⟩
      · exact hshared (hx hto j hbrings)
      · exact hshared (hy hto j hbrings)
    · refine fun hties => ⟨fun hto j hbrings => ?_, fun hto j hbrings => ?_⟩
      · by_contra hshared
        exact hties ⟨h, name, v, j, rfl, hok, hbrings, .inl ⟨hto, hshared⟩⟩
      · by_contra hshared
        exact hties ⟨h, name, v, j, rfl, hok, hbrings, .inr ⟨hto, hshared⟩⟩
  · have hgrows := (Grows.refl hb.contained).deed hb.contained hd fun h name v heq hok =>
      hwrite ⟨h, name, v, heq, hok⟩
    refine iff_of_true ?_ ?_
    · exact (apart_iff_of_grown hgrows.live hb.contained hb.first hb.second).mpr hapart
    · rintro ⟨h, name, v, j, heq, hok, -⟩
      exact hwrite ⟨h, name, v, heq, hok⟩

section Courses

variable {deeds : List Deed} (hb : b.Surveys x y)
  (hgenuine : Along (fun b d => d.Genuine b) b deeds)

include hb hgenuine

theorem disturbs_course_iff : Happens (fun b d => d.Disturbs b x y) b deeds ↔
    Happens (fun b d => d.AltersCommon b x y) b deeds :=
  hgenuine.happens_congr (C := fun b => b.Surveys x y) (fun _ _ hb hd => hb.after hd)
    (fun _ _ hb _ => disturbs_iff hb.contained hb.second) hb

theorem apart_course_iff : (∀ n, (course b (deeds.take n)).Apart x y) ↔
    b.Apart x y ∧ ¬ Happens (fun b d => d.Ties b x y) b deeds :=
  hgenuine.throughout_iff (C := fun b => b.Surveys x y) (fun _ _ hb hd => hb.after hd)
    (fun _ _ hb hd hapart => apart_after_iff hb hd hapart) hb

/-- Two places that lead to nothing in common throughout a run are not disturbed in it. -/
theorem not_disturbs_of_apart_course (hapart : ∀ n, (course b (deeds.take n)).Apart x y) :
    ¬ Happens (fun b d => d.Disturbs b x y) b deeds := by
  induction deeds generalizing b with
  | nil => exact not_happens_nil
  | cons d deeds ih =>
    rw [Happens.cons_iff, not_or]
    refine ⟨not_disturbs_of_apart hb.contained hb.second (hapart 0), ?_⟩
    exact ih (hb.after hgenuine.1) hgenuine.2 fun n => hapart (n + 1)

end Courses

/-- **When copies stay what they are.** Take a run from the empty broker in which only handles of
live objects are passed (`Deed.Genuine`).  After an object was written under a name, a write through
anything that is reached from the object changes the content that is shown under the name
(`Deed.Disturbs`) exactly if it goes through something that is reached from there as well, and
changes what is seen of that (`Deed.AltersCommon`).  At no moment is there such a thing (`Apart`)
exactly if the object was written to another one and had nothing embedded in it (`Embeds`), and no
later write ties the two together: one that brings into the one what the other leads to
(`Deed.Ties`).  As long as there is none, no write through what is reached from the object can be
seen under the name.  The same holds of an object and its `clone`, for writes through either. -/
theorem contents_stay_iff {before : List Deed}
    (hbefore : Along (fun b d => d.Genuine b) .empty before) :
    (∀ a name g b', (put a name (.object g)).run (course .empty before) = (.ok (), b') →
      ∀ later, Along (fun b d => d.Genuine b) b' later →
        (Happens (fun b d => d.Disturbs b (.object g.id) (.property a.id name)) b' later ↔
          Happens (fun b d => d.AltersCommon b (.object g.id) (.property a.id name)) b' later) ∧
        ((∀ n, (course b' (later.take n)).Apart (.object g.id) (.property a.id name)) ↔
          (g ≠ a ∧ ∀ j, ¬ (course .empty before).Embeds g.id j) ∧
            ¬ Happens (fun b d => d.Ties b (.object g.id) (.property a.id name)) b' later) ∧
        ((∀ n, (course b' (later.take n)).Apart (.object g.id) (.property a.id name)) →
          ¬ Happens (fun b d => d.Disturbs b (.object g.id) (.property a.id name)) b' later)) ∧
    (∀ g c b', (clone g).run (course .empty before) = (.ok c, b') →
      ∀ later, Along (fun b d => d.Genuine b) b' later →
        (Happens (fun b d => d.Disturbs b (.object g.id) (.object c.id)) b' later ↔
          Happens (fun b d => d.AltersCommon b (.object g.id) (.object c.id)) b' later) ∧
        (Happens (fun b d => d.Disturbs b (.object c.id) (.object g.id)) b' later ↔
          Happens (fun b d => d.AltersCommon b (.object c.id) (.object g.id)) b' later) ∧
        ((∀ n, (course b' (later.take n)).Apart (.object g.id) (.object c.id)) ↔
          (∀ j, ¬ (course .empty before).Embeds g.id j) ∧
            ¬ Happens (fun b d => d.Ties b (.object g.id) (.object c.id)) b' later) ∧
        ((∀ n, (course b' (later.take n)).Apart (.object g.id) (.object c.id)) →
          ¬ Happens (fun b d => d.Disturbs b (.object g.id) (.object c.id)) b' later ∧
          ¬ Happens (fun b d => d.Disturbs b (.object c.id) (.object g.id)) b' later)) := by
  have hb : (course .empty before).Contained :=
    hbefore.keeps (fun _ _ hb hd => Contained.after hb hd) contained_empty
  refine ⟨fun a name g b' hrun later hlater => ?_, fun g c b' hrun later hlater => ?_⟩
  · have hafter : (Deed.request (.put a name (.object g))).after (course .empty before) = b' :=
      congrArg Prod.snd hrun
    obtain ⟨-, ⟨o, ho, -⟩, hwritten⟩ := put_eq_ok_iff.mp (congrArg Prod.fst hrun)
    obtain ⟨o₁, ho₁⟩ := hwritten g rfl
    have hsurveys : b'.Surveys (.object g.id) (.property a.id name) := by
      rw [← hafter]
      refine Surveys.after ⟨hb, lt_size_of_live ho₁, lt_size_of_live ho⟩ ?_
      rintro _ rfl _ ⟨⟩
      exact lt_size_of_live ho₁
    refine ⟨disturbs_course_iff hsurveys hlater, ?_, not_disturbs_of_apart_course hsurveys hlater⟩
    rw [apart_course_iff hsurveys hlater, apart_written_iff hrun]
  · have hafter : (Deed.request (.clone g)).after (course .empty before) = b' :=
      congrArg Prod.snd hrun
    obtain ⟨o, b₁, hlive, hbring⟩ := run_bind_eq_ok.mp hrun
    obtain ⟨ho, rfl⟩ := liveObject_eq_ok.mp hlive
    have hclone : c.id < b'.live.size := by
      cases hbring
      rw [Array.size_push]
      exact Nat.lt_succ_self _
    have hsurveys : b'.Surveys (.object g.id) (.object c.id) := by
      rw [← hafter] at hclone ⊢
      exact ⟨hb.after nofun, lt_size_after (lt_size_of_live ho) _, hclone⟩
    have hback : b'.Surveys (.object c.id) (.object g.id) :=
      ⟨hsurveys.contained, hsurveys.second, hsurveys.first⟩
    refine ⟨disturbs_course_iff hsurveys hlater, disturbs_course_iff hback hlater, ?_, ?_⟩
    · rw [apart_course_iff hsurveys hlater, apart_clone_iff hb hrun]
    · exact fun hapart => ⟨not_disturbs_of_apart_course hsurveys hlater hapart,
        not_disturbs_of_apart_course hback hlater fun n => (hapart n).symm⟩

/-- A class of objects with a name, of which each can hold another. -/
def nodeClass : ClassDef :=
  .ofProperties "Node" [("Name", .scalarOf .string), ("Next", .scalarOf .object)]

/-- Three instances of the class, behind the handles 1, 2 and 3. -/
def nodes : List Deed := [.request (.defineClass nodeClass), .request (.classObject "Node"),
  .request (.spawn ⟨0⟩), .request (.spawn ⟨0⟩), .request (.spawn ⟨0⟩)]

/-- An object with nothing embedded in it is copied for good: its name can be changed, and that is
not seen where it was written. -/
theorem blank_node_is_copied :
    Along (fun b d => d.Genuine b) .empty nodes ∧
    ∃ b', (put ⟨2⟩ "Next" (.object ⟨1⟩)).run (course .empty nodes) = (.ok (), b') ∧
      Along (fun b d => d.Genuine b) b' [.request (.put ⟨1⟩ "Name" (.text "new"))] ∧
      ¬ Happens (fun b d => d.Disturbs b (.object 1) (.property 2 "Next")) b'
        [.request (.put ⟨1⟩ "Name" (.text "new"))] := by
  have hnodes : Along (fun b d => d.Genuine b) .empty nodes :=
    ⟨nofun, nofun, nofun, nofun, nofun, trivial⟩
  have hlater (b : Broker) :
      Along (fun b d => d.Genuine b) b [.request (.put ⟨1⟩ "Name" (.text "new"))] := by
    refine ⟨?_, trivial⟩
    rintro _ rfl _ ⟨⟩
  refine ⟨hnodes, _, rfl, hlater _, ?_⟩
  obtain ⟨-, hthroughout, hundisturbed⟩ :=
    (contents_stay_iff hnodes).1 ⟨2⟩ "Next" ⟨1⟩ _ rfl _ (hlater _)
  refine hundisturbed (hthroughout.mpr ⟨⟨nofun, ?_⟩, ?_⟩)
  · -- before the write nothing holds anything
    rintro j ⟨name, -, hunfolds⟩
    have hblank : (course .empty nodes).live[1]? = some ⟨nodeClass, none, false, .empty⟩ := rfl
    cases (unfolds_value_iff hblank).mp hunfolds
  · rintro hties
    rcases Happens.cons_iff.mp hties with ⟨_, _, _, j, ⟨⟩, -, hbrings, -⟩ | hrest
    · cases hbrings
    · exact not_happens_nil hrest

/-- A chain of two, behind the handle 2: its inner part is the copy behind the handle 4. -/
def chain : List Deed := nodes ++ [.request (.put ⟨2⟩ "Next" (.object ⟨1⟩))]

/-- The name of the inner part is given to it. -/
def naming : Deed := .request (.put ⟨4⟩ "Name" (.text "shared"))

/-- Giving a name to a blank object is seen from everywhere that leads to it. -/
theorem naming_disturbs (hb : b.Contained) (hy : y.owner < b.live.size)
    (hinner : b.live[4]? = some ⟨nodeClass, none, false, .empty⟩) (hx : b.Leads x (.object 4))
    (hleads : b.Leads y (.object 4)) : naming.Disturbs b x y := by
  have hok : ((put ⟨4⟩ "Name" (.text "shared")).run b).1 = .ok () :=
    put_eq_ok_iff.mpr ⟨by decide, ⟨_, hinner, _, rfl, rfl⟩, nofun⟩
  have hrun : (put ⟨4⟩ "Name" (.text "shared")).run b = (.ok (), naming.after b) :=
    Prod.ext hok rfl
  obtain ⟨o, v', ho, hw⟩ := written_of_put hrun
  obtain rfl := Option.some.inj (hinner.symm.trans ho)
  have haltered : Altered b (naming.after b) (.property 4 "Name") := by
    refine ⟨0, ?_⟩
    rw [content_property hinner, content_property hw.there]
    cases hw.kept
    nofun
  refine ⟨⟨4⟩, "Name", .text "shared", rfl, hok, hx, ?_⟩
  exact (altered_put_iff hb hrun hy).mpr ⟨hleads.tail (unfolds_of_put hok), haltered⟩

/-- The object has the next one as its value. -/
theorem leads_next {i j : Nat} {o : LiveObject} (ho : b.live[i]? = some o)
    (hdefinition : o.definition = nodeClass) (hnext : o.value "Next" = .object ⟨j⟩) :
    b.Leads (.property i "Next") (.object j) ∧ b.Leads (.object i) (.object j) := by
  have hsecond : b.Unfolds (.property i "Next") (.object j) := .value ho (hnext ▸ .object _)
  have hdeclared : ("Next", CimType.scalarOf .object) ∈ o.definition.properties := by
    rw [hdefinition]
    decide
  exact ⟨.single hsecond, .head (.property ho hdeclared) (.single hsecond)⟩

/-- **An embedded object stays shared.**  The inner part of a chain is within a copy of the chain
too, whether the chain was written or cloned, and giving it a name changes both. -/
theorem inner_part_is_shared :
    Along (fun b d => d.Genuine b) .empty chain ∧
    (∃ b', (put ⟨3⟩ "Next" (.object ⟨2⟩)).run (course .empty chain) = (.ok (), b') ∧
      naming.Disturbs b' (.object 2) (.property 3 "Next")) ∧
    ∃ b', (clone ⟨2⟩).run (course .empty chain) = (.ok ⟨5⟩, b') ∧
      naming.Disturbs b' (.object 2) (.object 5) ∧ naming.Disturbs b' (.object 5) (.object 2) := by
  have hchain : Along (fun b d => d.Genuine b) .empty chain := by
    refine ⟨nofun, nofun, nofun, nofun, nofun, ?_, trivial⟩
    rintro _ rfl _ ⟨⟩
    decide
  have hcontained : (course .empty chain).Contained :=
    hchain.keeps (fun _ _ hb hd => Contained.after hb hd) contained_empty
  refine ⟨hchain, ⟨_, rfl, ?_⟩, _, rfl, ?_, ?_⟩
  · have hb := hcontained.after (d := .request (.put ⟨3⟩ "Next" (.object ⟨2⟩))) (by
      rintro _ rfl _ ⟨⟩
      decide)
    exact naming_disturbs hb (by decide) rfl (leads_next rfl rfl rfl).2
      ((leads_next rfl rfl rfl).1.trans (leads_next rfl rfl rfl).2)
  · exact naming_disturbs (hcontained.after (d := .request (.clone ⟨2⟩)) nofun) (by decide) rfl
      (leads_next rfl rfl rfl).2 (leads_next rfl rfl rfl).2
  · exact naming_disturbs (hcontained.after (d := .request (.clone ⟨2⟩)) nofun) (by decide) rfl
      (leads_next rfl rfl rfl).2 (leads_next rfl rfl rfl).2

end Broker
end CimBroker
