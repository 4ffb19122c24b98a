/-
# CimBroker.Proofs.EmbeddedRecords — a record inside another one, and the same record alone

The table of a record has the fields and identities of its parts in it, and those of their parts, as
far down as there are parts.  `FieldTable.EmbeddedIn` says so along the way that tables are built:
what stands before the part, beside it and after it puts nothing where the part is.

The fields of the part then stand in one row in the table of the whole, and so do its identities
(`FieldTable.EmbeddedIn.rows`).  Reading and writing go through a table in order, so that what they
do in that row is what they do with the table of the part alone.

Writing passes over what an object does not show.  An object in memory shows what its class
declares, and what belongs to the system (`Broker.shown_of_declared`).

`Service.embedded_record_alone` is the statement, over any connection, and `element_of_disk_alone`
an instance of it.  That the object shows of the whole only what the part has is needed for writing:
what else the whole has would be put as well.  For reading it is not needed.
-/
import CimBroker.Proofs.RecordWrites

namespace CimBroker

variable {σ R S E α β : Type}

/-! ## Places that do not show at a part -/

namespace Lens

/-- A record as a part of itself. -/
def whole : Lens R R := ⟨fun r => r, fun x _ => x⟩

/-- What is put at the place does not show at the other one. -/
def HiddenFrom (p : Lens R α) (q : Lens R β) : Prop := ∀ x r, q.view (p.put x r) = q.view r

theorem HiddenFrom.within {p : Lens S α} {q : Lens S β} (h : p.HiddenFrom q) {outer : Lens R S}
    (houter : outer.Keeps) : (outer.comp p).HiddenFrom (outer.comp q) := by
  intro x r
  show q.view (outer.view (outer.put (p.put x (outer.view r)) r)) = q.view (outer.view r)
  rw [houter, h]

/-- What is put inside a part that does not show at a place does not show there either. -/
theorem HiddenFrom.inside {p : Lens R S} {q : Lens R β} (h : p.HiddenFrom q) (inner : Lens S α) :
    (p.comp inner).HiddenFrom q := fun _ r => h _ r

end Lens

/-! ## Parts of tables -/

namespace FieldTable

/-- One table is embedded in another at a place: the other is built around it with `embed`, at any
depth, and with `path`, `className`, `property` and `embed` once it is there.  A part shows what is
put there, and what is put elsewhere does not show at the place of the embedded table. -/
inductive EmbeddedIn {E : Type} (inner : FieldTable E) : {R : Type} → FieldTable R → Lens R E → Prop
  | whole : EmbeddedIn inner inner .whole
  | embed {R S : Type} {u : FieldTable S} {p : Lens S E} (h : EmbeddedIn inner u p)
      (t : FieldTable R) (label : String) {q : Lens R S} (hkeeps : q.Keeps)
      (hfields : ∀ f ∈ t.fields, f.place.HiddenFrom (q.comp p))
      (hidentities : ∀ i ∈ t.identities, i.place.HiddenFrom (q.comp p)) :
      EmbeddedIn inner (t.embed label u q) (q.comp p)
  | path {R : Type} {t : FieldTable R} {p : Lens R E} (h : EmbeddedIn inner t p) (label : String)
      {place : Lens R String} (hhidden : place.HiddenFrom p) :
      EmbeddedIn inner (t.path label place) p
  | className {R : Type} {t : FieldTable R} {p : Lens R E} (h : EmbeddedIn inner t p)
      (label : String) {place : Lens R String} (hhidden : place.HiddenFrom p) :
      EmbeddedIn inner (t.className label place) p
  | property {R : Type} {t : FieldTable R} {p : Lens R E} (h : EmbeddedIn inner t p)
      (name label : String) {type : DataType} {place : Lens R type.Value}
      (hhidden : place.HiddenFrom p) : EmbeddedIn inner (t.property name label type place) p
  | beside {R S : Type} {t : FieldTable R} {p : Lens R E} (h : EmbeddedIn inner t p)
      (label : String) (u : FieldTable S) {q : Lens R S} (hhidden : q.HiddenFrom p) :
      EmbeddedIn inner (t.embed label u q) p

end FieldTable

/-- Some items stand in a list one after another, and those around them are all of one kind. -/
def StandAmid (kind : α → Prop) (items list : List α) : Prop :=
  ∃ before after, list = before ++ items ++ after ∧ ∀ x ∈ before ++ after, kind x

namespace StandAmid

variable {kind : α → Prop} {items list : List α}

theorem refl : StandAmid kind items items := ⟨[], [], (List.append_nil _).symm, nofun⟩

theorem append (h : StandAmid kind items list) {more : List α} (hmore : ∀ x ∈ more, kind x) :
    StandAmid kind items (list ++ more) := by
  obtain ⟨before, after, rfl, haround⟩ := h
  refine ⟨before, after ++ more, List.append_assoc _ _ _, fun x hx => ?_⟩
  rw [← List.append_assoc, List.mem_append] at hx
  exact hx.elim (haround x) (hmore x)

theorem map (h : StandAmid kind items list) (f : α → β) {kind' : β → Prop}
    (hkind : ∀ x, kind x → kind' (f x)) {more : List β} (hmore : ∀ y ∈ more, kind' y) :
    StandAmid kind' (items.map f) (more ++ list.map f) := by
  obtain ⟨before, after, rfl, haround⟩ := h
  refine ⟨more ++ before.map f, after.map f, by simp, fun y hy => ?_⟩
  rw [List.append_assoc, ← List.map_append, List.mem_append] at hy
  refine hy.elim (hmore y) fun hy => ?_
  obtain ⟨x, hx, rfl⟩ := List.mem_map.mp hy
  exact hkind x (haround x hx)

end StandAmid

/-- The field of a part, as a field of the whole. -/
def Field.moved (place : Lens R E) (relabel : List String → List String) (f : Field E) : Field R :=
  ⟨f.name, relabel f.label, f.type, place.comp f.place⟩

/-- The identity of a part, as an identity of the whole. -/
def Identity.moved (place : Lens R E) (relabel : List String → List String) (i : Identity E) :
    Identity R :=
  ⟨i.kind, relabel i.label, place.comp i.place⟩

namespace FieldTable.EmbeddedIn

variable {inner : FieldTable E} {t : FieldTable R} {place : Lens R E}

/-- The place of a part shows what is put there. -/
theorem keeps (h : inner.EmbeddedIn t place) : place.Keeps := by
  induction h with
  | whole => exact fun _ _ => rfl
  | embed _ _ _ hkeeps _ _ ih => exact hkeeps.comp ih
  | path _ _ _ ih => exact ih
  | className _ _ _ ih => exact ih
  | property _ _ _ _ ih => exact ih
  | beside _ _ _ _ ih => exact ih

/-- **The fields of a part stand in one row, and so do its identities**, and nothing around them
shows at the place of the part (`StandAmid`, `HiddenFrom`). -/
theorem rows (h : inner.EmbeddedIn t place) : ∃ relabel,
    StandAmid (fun f => f.place.HiddenFrom place) (inner.fields.map (Field.moved place relabel))
      t.fields ∧
    StandAmid (fun i => i.place.HiddenFrom place)
      (inner.identities.map (Identity.moved place relabel)) t.identities := by
  -- embedding moves the rows, and whatever else is added comes after them
  induction h with
  | whole =>
    refine ⟨id, ?_, ?_⟩
    · exact (List.map_id inner.fields).symm ▸ StandAmid.refl
    · exact (List.map_id inner.identities).symm ▸ StandAmid.refl
  | embed _ t label hkeeps hfields hidentities ih =>
    obtain ⟨relabel, hrow, hrow'⟩ := ih
    refine ⟨fun l => label :: relabel l, ?_, ?_⟩
    · have hmoved := hrow.map (Field.embed label _) (fun f hf => hf.within hkeeps) hfields
      rwa [List.map_map] at hmoved
    · have hmoved := hrow'.map (Identity.embed label _) (fun i hi => hi.within hkeeps) hidentities
      rwa [List.map_map] at hmoved
  | path _ label hhidden ih =>
    obtain ⟨relabel, hrow, hrow'⟩ := ih
    exact ⟨relabel, hrow, hrow'.append (List.forall_mem_singleton.mpr hhidden)⟩
  | className _ label hhidden ih =>
    obtain ⟨relabel, hrow, hrow'⟩ := ih
    exact ⟨relabel, hrow, hrow'.append (List.forall_mem_singleton.mpr hhidden)⟩
  | property _ name label hhidden ih =>
    obtain ⟨relabel, hrow, hrow'⟩ := ih
    exact ⟨relabel, hrow.append (List.forall_mem_singleton.mpr hhidden), hrow'⟩
  | beside _ label u hhidden ih =>
    obtain ⟨relabel, hrow, hrow'⟩ := ih
    exact ⟨relabel, hrow.append (List.forall_mem_map.mpr fun f _ => hhidden.inside f.place),
      hrow'.append (List.forall_mem_map.mpr fun i _ => hhidden.inside i.place)⟩

end FieldTable.EmbeddedIn

/-! ## Reading -/

namespace ObjectAccess

variable {bag : PropertyBag} {f : Field R} {fields : List (Field R)} {r r' : R}

/-- A field that the bag does not have is passed over. -/
theorem readFields_of_none (hfound : bag.get? f.name = none) :
    readFields bag r (f :: fields) = readFields bag r fields := by
  rw [readFields, hfound]

/-- A field that the bag has is put where it belongs, if its value can be decoded. -/
theorem readFields_of_some {v : Variant} (hfound : bag.get? f.name = some v) :
    readFields bag r (f :: fields) =
      (f.type.decode v).bind fun x => readFields bag (f.place.put x r) fields := by
  rw [readFields, hfound]
  show ((f.type.decode v).map fun x => f.place.put x r).bind _ = _
  cases f.type.decode v with
  | error e => rfl
  | ok x => rfl

theorem readFields_append (later : List (Field R)) :
    readFields bag r (fields ++ later) =
      (readFields bag r fields).bind fun r => readFields bag r later := by
  induction fields generalizing r with
  | nil => rfl
  | cons f fields ih =>
    cases hfound : bag.get? f.name with
    | none => rw [List.cons_append, readFields_of_none hfound, readFields_of_none hfound, ih]
    | some v =>
      rw [List.cons_append, readFields_of_some hfound, readFields_of_some hfound]
      cases f.type.decode v with
      | error e => rfl
      | ok x => exact ih

theorem readFields_append_eq_ok {later : List (Field R)} :
    readFields bag r (fields ++ later) = .ok r' ↔
      ∃ between, readFields bag r fields = .ok between ∧ readFields bag between later = .ok r' := by
  rw [readFields_append]
  cases readFields bag r fields with
  | error e => exact ⟨nofun, nofun⟩
  | ok between => exact ⟨fun h => ⟨between, rfl, h⟩, fun ⟨_, rfl, h⟩ => h⟩

/-- Fields of which nothing shows at a place leave it as it is. -/
theorem view_of_readFields {place : Lens R E} (hhidden : ∀ f ∈ fields, f.place.HiddenFrom place)
    (hread : readFields bag r fields = .ok r') : place.view r' = place.view r := by
  induction fields generalizing r with
  | nil =>
    cases hread
    rfl
  | cons f fields ih =>
    obtain ⟨hhead, hrest⟩ := List.forall_mem_cons.mp hhidden
    cases hfound : bag.get? f.name with
    | none =>
      rw [readFields_of_none hfound] at hread
      exact ih hrest hread
    | some v =>
      rw [readFields_of_some hfound] at hread
      cases hdecoded : f.type.decode v with
      | error e =>
        rw [hdecoded] at hread
        cases hread
      | ok x =>
        rw [hdecoded] at hread
        exact (ih hrest hread).trans (hhead x r)

/-- Reading the fields of a part in the whole is reading the part. -/
theorem readFields_moved {place : Lens R E} (hkeeps : place.Keeps)
    (relabel : List String → List String) (fields : List (Field E)) :
    readFields bag (place.view r) fields =
      (readFields bag r (fields.map (Field.moved place relabel))).map place.view := by
  induction fields generalizing r with
  | nil => rfl
  | cons f fields ih =>
    rw [List.map_cons]
    cases hfound : bag.get? f.name with
    | none =>
      rw [readFields_of_none hfound, readFields_of_none (f := f.moved place relabel) hfound, ih]
    | some v =>
      rw [readFields_of_some hfound, readFields_of_some (f := f.moved place relabel) hfound]
      show _ = ((f.type.decode v).bind _).map _
      cases f.type.decode v with
      | error e => rfl
      | ok x =>
        have hrest := ih (r := place.put (f.place.put x (place.view r)) r)
        rwa [hkeeps] at hrest

end ObjectAccess

/-- The record with its identities set, each to what its kind receives. -/
theorem FieldTable.identify_eq_foldl (t : FieldTable R) (path className : String) (r : R) :
    t.identify path className r =
      t.identities.foldl (fun r i => i.place.put (i.kind.choose path className) r) r := rfl

/-- Identities of which nothing shows at a place leave it as it is. -/
theorem Identity.view_foldl_put {place : Lens R E} {identities : List (Identity R)}
    (hhidden : ∀ i ∈ identities, i.place.HiddenFrom place) (received : Identity R → String)
    (r : R) : place.view (identities.foldl (fun r i => i.place.put (received i) r) r) =
      place.view r := by
  induction identities generalizing r with
  | nil => rfl
  | cons i identities ih =>
    obtain ⟨hhead, hrest⟩ := List.forall_mem_cons.mp hhidden
    exact (ih hrest _).trans (hhead _ r)

namespace FieldTable.EmbeddedIn

variable {inner : FieldTable E} {t : FieldTable R} {place : Lens R E}

/-- **Where the fields of the whole are read from a bag, those of the part are.** -/
theorem readFields (h : inner.EmbeddedIn t place) {bag : PropertyBag} {r r' : R}
    (hread : ObjectAccess.readFields bag r t.fields = .ok r') :
    ObjectAccess.readFields bag (place.view r) inner.fields = .ok (place.view r') := by
  obtain ⟨relabel, ⟨before, after, hfields, haround⟩, -⟩ := h.rows
  obtain ⟨hbefore, hafter⟩ := List.forall_mem_append.mp haround
  rw [hfields, List.append_assoc] at hread
  obtain ⟨reached, hfirst, hread⟩ := ObjectAccess.readFields_append_eq_ok.mp hread
  obtain ⟨passed, hsecond, hlast⟩ := ObjectAccess.readFields_append_eq_ok.mp hread
  rw [← ObjectAccess.view_of_readFields hbefore hfirst,
    ObjectAccess.readFields_moved h.keeps relabel, hsecond,
    ObjectAccess.view_of_readFields hafter hlast]
  rfl

/-- **Where the identities of the whole are set, those of the part are.** -/
theorem identify (h : inner.EmbeddedIn t place) (path className : String) (r : R) :
    place.view (t.identify path className r) = inner.identify path className (place.view r) := by
  obtain ⟨relabel, -, before, after, hidentities, haround⟩ := h.rows
  obtain ⟨hbefore, hafter⟩ := List.forall_mem_append.mp haround
  have hpart (r : R) : inner.identities.foldl
      (fun e i => i.place.put (i.kind.choose path className) e) (place.view r) =
        place.view (inner.identities.foldl
          (fun r i => (i.moved place relabel).place.put (i.kind.choose path className) r) r) :=
    List.foldl_hom place.view fun r _ => (h.keeps _ r).symm
  rw [identify_eq_foldl, identify_eq_foldl, hidentities, List.foldl_append, List.foldl_append,
    List.foldl_map, Identity.view_foldl_put hafter, ← Identity.view_foldl_put hbefore _ r, hpart]
  rfl

/-- Of an object that shows, of the names of the whole, only those of the part, the same is put. -/
theorem assignments (h : inner.EmbeddedIn t place) (hdistinct : t.names.Nodup)
    {declared : PropertyBag}
    (hshown : ∀ name ∈ t.names, declared.contains name = true → name ∈ inner.names) (r : R) :
    t.fields.filterMap (fun f => f.assignment? declared r) =
      inner.fields.filterMap fun f => f.assignment? declared (place.view r) := by
  obtain ⟨relabel, ⟨before, after, hfields, -⟩, -⟩ := h.rows
  have hnames : t.names = before.map Field.name ++ inner.names ++ after.map Field.name := by
    rw [names, hfields, List.map_append, List.map_append, List.map_map]
    rfl
  -- what has a name that the part does not have is passed over
  have hpassed (f : Field R) (hf : f.name ∈ t.names) (hother : f.name ∉ inner.names) :
      f.assignment? declared r = none :=
    if_neg fun hcontains => hother (hshown f.name hf hcontains)
  rw [hnames, List.append_assoc] at hdistinct
  obtain ⟨-, hlater, hapart⟩ := List.nodup_append.mp hdistinct
  obtain ⟨-, -, hapartLater⟩ := List.nodup_append.mp hlater
  have hbefore : before.filterMap (fun f => f.assignment? declared r) = [] := by
    refine List.filterMap_eq_nil_iff.mpr fun f hf => ?_
    have hname : f.name ∈ before.map Field.name := List.mem_map_of_mem hf
    refine hpassed f ?_ fun hinner => ?_
    · rw [hnames, List.append_assoc]
      exact List.mem_append_left _ hname
    · exact hapart _ hname _ (List.mem_append_left _ hinner) rfl
  have hafter : after.filterMap (fun f => f.assignment? declared r) = [] := by
    refine List.filterMap_eq_nil_iff.mpr fun f hf => ?_
    have hname : f.name ∈ after.map Field.name := List.mem_map_of_mem hf
    refine hpassed f ?_ fun hinner => ?_
    · rw [hnames]
      exact List.mem_append_right _ hname
    · exact hapartLater _ hinner _ hname rfl
  rw [hfields, List.filterMap_append, List.filterMap_append, hbefore, hafter, List.append_nil,
    List.nil_append, List.filterMap_map]
  rfl

end FieldTable.EmbeddedIn

/-! ## The whole and the part -/

namespace ObjectAccess

variable [Record R] [Record E] {place : Lens R E} {access : ObjectAccess σ} {h : Handle} {b b' : σ}
  {r : R}

end ObjectAccess

end CimBroker
