/-
# CimBroker.Proofs.ItemTables — the pairs of a row of items

The items of a row are read one after the other into one table, and every item is read by going
through its properties.  What a row comes to does not show this: each item holds a pair by itself,
or none (`ExchangeItem.pair?`), and a row whose texts are all documents comes to the table of the
pairs that its items hold, of which a later one replaces an earlier one of the same name
(`pairsReadBy_eq_ok`).  A row with a text that is no document comes to nothing.

Nothing of this depends on which texts are documents, so it is shown for any reading of them, of
which markup is one (`pairsOfItems_eq`).  `rows_of_items_combine` draws the consequences: for two
rows in a row, for items without a name, and for the order of the items.

What a text has to look like to be read at all, and which characters survive in it, is left to
`CimBroker.Proofs.ExchangeItems`.
-/
import CimBroker.Proofs.ExchangeItems
import CimBroker.Proofs.PathOrder
import Mathlib.Data.List.Sort

namespace CimBroker

open Markup

/-! ## Tables of entries -/

namespace Table

variable {α : Type} {t t' : Table α} {entries entries' : List (String × α)}

/-- Ordered tables that hold the same are the same. -/
theorem Ordered.ext (h : t.Ordered) (h' : t'.Ordered)
    (hget : ∀ name, t.get? name = t'.get? name) : t = t' := by
  have hentries : t.entries = t'.entries := by
    refine List.Pairwise.eq_of_mem_iff h h' fun entry => ?_
    rw [h.mem_entries_iff, h'.mem_entries_iff, hget]
  obtain ⟨entries⟩ := t
  obtain ⟨entries'⟩ := t'
  exact congrArg Table.mk hentries

theorem ordered_ofList (entries : List (String × α)) : (ofList entries).Ordered := by
  unfold ofList
  have hfrom : (empty : Table α).Ordered := ordered_empty
  generalize empty = found at hfrom ⊢
  induction entries generalizing found with
  | nil => exact hfrom
  | cons entry entries ih => exact ih _ (hfrom.set entry.1 entry.2)

/-- Entries that come later count, and the earlier ones where these say nothing. -/
theorem get?_ofList_append (entries entries' : List (String × α)) (name : String) :
    (ofList (entries ++ entries')).get? name =
      ((ofList entries').get? name).or ((ofList entries).get? name) := by
  rw [get?_ofList, get?_ofList, get?_ofList, List.reverse_append, List.find?_append]
  cases entries'.reverse.find? fun entry => entry.1 == name <;> rfl

theorem get?_ofList_iff (hnames : (entries.map Prod.fst).Nodup) {name : String} {x : α} :
    (ofList entries).get? name = some x ↔ (name, x) ∈ entries :=
  ⟨mem_of_get?_ofList, get?_ofList_of_mem hnames⟩

/-- Where no name stands twice, the order of the entries does not matter. -/
theorem ofList_eq_of_perm (hperm : entries.Perm entries')
    (hnames : (entries.map Prod.fst).Nodup) : ofList entries = ofList entries' := by
  refine (ordered_ofList entries).ext (ordered_ofList entries') fun name => ?_
  have hnames' : (entries'.map Prod.fst).Nodup := (hperm.map Prod.fst).nodup hnames
  refine Option.ext fun x => ?_
  rw [get?_ofList_iff hnames, get?_ofList_iff hnames', hperm.mem_iff]

/-- What a table of entries holds under a name comes from the last text that has an entry there. -/
theorem get?_ofList_filterMap_iff {f : String → Option (String × α)} {texts : List String}
    {name : String} {x : α} :
    (ofList (texts.filterMap f)).get? name = some x ↔
      ∃ before text after, texts = before ++ text :: after ∧ f text = some (name, x) ∧
        ∀ later ∈ after, ∀ y, f later ≠ some (name, y) := by
  constructor
  · intro hget
    rw [get?_ofList, ← List.filterMap_reverse, List.find?_filterMap] at hget
    obtain ⟨⟨key, y⟩, hentry, hvalue⟩ := Option.map_eq_some_iff.mp hget
    obtain ⟨text, hfind, hf⟩ := Option.bind_eq_some_iff.mp hentry
    obtain ⟨hkey, after, before, hsplit, hafter⟩ := List.find?_eq_some_iff_append.mp hfind
    have hname : key = name := by simpa [hf] using hkey
    refine ⟨before.reverse, text, after.reverse, ?_, ?_, ?_⟩
    · rw [← List.reverse_reverse texts, hsplit, List.reverse_append, List.reverse_cons,
        List.append_assoc, List.singleton_append]
    · rw [hf, hname]
      exact congrArg (fun x => some (name, x)) hvalue
    · intro later hlater y hf'
      have hnot := hafter later (List.mem_reverse.mp hlater)
      simp [hf'] at hnot
  · rintro ⟨before, text, after, rfl, hf, hafter⟩
    have hnone : (ofList (after.filterMap f)).get? name = none := by
      refine Option.eq_none_iff_forall_ne_some.mpr fun y hy => ?_
      obtain ⟨later, hlater, hf'⟩ := List.mem_filterMap.mp (mem_of_get?_ofList hy)
      exact hafter later hlater y hf'
    have hsplit : (before ++ text :: after).filterMap f =
        before.filterMap f ++ ([(name, x)] ++ after.filterMap f) := by
      rw [List.filterMap_append, List.filterMap_cons_some hf, List.singleton_append]
    rw [hsplit, get?_ofList_append, get?_ofList_append, hnone, Option.none_or]
    simp [get?_ofList]

end Table

/-! ## One item -/

namespace ExchangeItem

/-- What is said under a name by the last of the properties that say something there. -/
def lastSaid? (properties : List Node) (name : String) : Option String :=
  (properties.reverse.find? fun p => p.attribute? "NAME" == some name.toList).map valueText

/-- The item that a document describes. -/
def ofRoot (root : Node) : ExchangeItem :=
  (root.all.filter (Node.isNamed "PROPERTY")).foldl read { name := none }

/-- The pair that a document holds by itself: the name and the data that it mentions last.  Data
that it does not mention is empty, and without a name there is no pair. -/
def pair? (root : Node) : Option (String × String) :=
  let properties := root.all.filter (Node.isNamed "PROPERTY")
  (lastSaid? properties "Name").map fun name =>
    (name, (lastSaid? properties "Data").getD "")

theorem lastSaid?_cons (p : Node) (properties : List Node) (name : String) :
    lastSaid? (p :: properties) name = (lastSaid? properties name).or
      (if p.attribute? "NAME" = some name.toList then some (valueText p) else none) := by
  unfold lastSaid?
  rw [List.reverse_cons, List.find?_append]
  by_cases hname : p.attribute? "NAME" = some name.toList <;>
    cases properties.reverse.find? fun p => p.attribute? "NAME" == some name.toList <;>
    simp [hname]

/-- One property replaces what it is about, and leaves the rest of the item. -/
theorem read_eq (item : ExchangeItem) (p : Node) :
    item.read p =
      ⟨if p.attribute? "NAME" = some "Name".toList then some (valueText p) else item.name,
        if p.attribute? "NAME" = some "Data".toList then valueText p else item.data⟩ := by
  unfold read
  cases p.attribute? "NAME" with
  | none => rfl
  | some given =>
    simp only [Option.some.injEq]
    split
    · next hname =>
      -- no name is both
      rw [if_neg (by rw [hname]; decide)]
    · split <;> rfl

/-- Going through the properties leaves what they say last. -/
theorem foldl_read_eq (properties : List Node) (item : ExchangeItem) :
    properties.foldl read item =
      ⟨(lastSaid? properties "Name").or item.name,
        (lastSaid? properties "Data").getD item.data⟩ := by
  induction properties generalizing item with
  | nil => rfl
  | cons p properties ih =>
    rw [List.foldl_cons, ih, read_eq, lastSaid?_cons, lastSaid?_cons]
    dsimp only
    congr 1
    · cases lastSaid? properties "Name" with
      | none => split <;> rfl
      | some name => rfl
    · cases lastSaid? properties "Data" with
      | none => split <;> rfl
      | some data => rfl

theorem ofRoot_eq (root : Node) :
    let properties := root.all.filter (Node.isNamed "PROPERTY")
    ofRoot root = ⟨lastSaid? properties "Name", (lastSaid? properties "Data").getD ""⟩ := by
  intro properties
  rw [ofRoot, foldl_read_eq, Option.or_none]

end ExchangeItem

open ExchangeItem

/-! ## Rows of items -/

section Rows

variable (read? : String → Option Node)

/-- The pairs with those of further item texts, where `read?` reads what is a document. -/
def addPairsBy : Table String → List String → Except Error (Table String)
  | pairs, [] => .ok pairs
  | pairs, text :: texts =>
    match read? text with
    | none => .error .markup
    | some root =>
      match (ofRoot root).name with
      | some name => addPairsBy (pairs.set name (ofRoot root).data) texts
      | none => addPairsBy pairs texts

/-- The pairs that item texts hold, where `read?` reads what is a document. -/
def pairsReadBy (texts : List String) : Except Error (Table String) :=
  addPairsBy read? .empty texts

/-- The pair that an item text holds by itself. -/
def heldIn? (text : String) : Option (String × String) := (read? text).bind pair?

/-- Items are read as markup. -/
theorem pairsOfItems_eq : pairsOfItems = pairsReadBy Node.ofText? := by
  funext texts
  unfold pairsOfItems pairsReadBy
  generalize Table.empty = found
  induction texts generalizing found with
  | nil => rfl
  | cons text texts ih =>
    rw [addPairs, addPairsBy, ExchangeItem.ofText]
    cases Node.ofText? text with
    | none => rfl
    | some root =>
      dsimp only
      change (match (ofRoot root).name with
        | some name => addPairs (found.set name (ofRoot root).data) texts
        | none => addPairs found texts) = _
      cases (ofRoot root).name with
      | none => exact ih found
      | some name => exact ih _

variable {read?} {texts xs ys : List String}

/-- A text that is no document, wherever it stands, makes the row come to nothing. -/
theorem pairsReadBy_eq_error (h : ∃ text ∈ texts, read? text = none) :
    pairsReadBy read? texts = .error .markup := by
  unfold pairsReadBy
  generalize Table.empty = found
  induction texts generalizing found with
  | nil => simp at h
  | cons text texts ih =>
    rw [addPairsBy]
    cases hread : read? text with
    | none => rfl
    | some root =>
      have hlater : ∃ text ∈ texts, read? text = none := by
        obtain ⟨other, hmem, hnone⟩ := h
        rcases List.mem_cons.mp hmem with rfl | hmem
        · simp [hread] at hnone
        · exact ⟨other, hmem, hnone⟩
      dsimp only
      cases (ofRoot root).name with
      | none => exact ih hlater found
      | some name => exact ih hlater _

/-- **A row of documents comes to the table of the pairs that they hold (`heldIn?`).** -/
theorem pairsReadBy_eq_ok (h : ∀ text ∈ texts, read? text ≠ none) :
    pairsReadBy read? texts = .ok (.ofList (texts.filterMap (heldIn? read?))) := by
  unfold pairsReadBy Table.ofList
  generalize Table.empty = found
  induction texts generalizing found with
  | nil => rfl
  | cons text texts ih =>
    obtain ⟨htext, htexts⟩ := List.forall_mem_cons.mp h
    obtain ⟨root, hread⟩ := Option.ne_none_iff_exists'.mp htext
    have hheld : heldIn? read? text = pair? root := by
      rw [heldIn?, hread, Option.bind_some]
    rw [addPairsBy, hread, List.filterMap_cons, hheld, pair?]
    dsimp only
    rw [ofRoot_eq]
    cases lastSaid? (root.all.filter (Node.isNamed "PROPERTY")) "Name" with
    | none => exact ih htexts found
    | some name => exact ih htexts _

theorem pairsReadBy_outcome (read? : String → Option Node) (texts : List String) :
    pairsReadBy read? texts = .error .markup ∧ (∃ text ∈ texts, read? text = none) ∨
      pairsReadBy read? texts = .ok (.ofList (texts.filterMap (heldIn? read?))) ∧
        ∀ text ∈ texts, read? text ≠ none := by
  by_cases h : ∃ text ∈ texts, read? text = none
  · exact .inl ⟨pairsReadBy_eq_error h, h⟩
  · have hread : ∀ text ∈ texts, read? text ≠ none := fun text hmem hnone => h ⟨text, hmem, hnone⟩
    exact .inr ⟨pairsReadBy_eq_ok hread, hread⟩

theorem pairsReadBy_eq_error_iff :
    pairsReadBy read? texts = .error .markup ↔ ∃ text ∈ texts, read? text = none := by
  rcases pairsReadBy_outcome read? texts with ⟨herror, hnone⟩ | ⟨hok, hread⟩
  · exact iff_of_true herror hnone
  · refine iff_of_false (by simp [hok]) ?_
    rintro ⟨text, hmem, hnone⟩
    exact hread text hmem hnone

/-- The rows are told apart by the pairs that they hold, as long as they fail together. -/
theorem pairsReadBy_congr
    (hread : (∃ text ∈ xs, read? text = none) ↔ ∃ text ∈ ys, read? text = none)
    (hheld : Table.ofList (xs.filterMap (heldIn? read?)) =
      .ofList (ys.filterMap (heldIn? read?))) :
    pairsReadBy read? xs = pairsReadBy read? ys := by
  rcases pairsReadBy_outcome read? xs with ⟨herror, hnone⟩ | ⟨hok, hxs⟩
  · rw [herror, pairsReadBy_eq_error (hread.mp hnone)]
  · have hys : ∀ text ∈ ys, read? text ≠ none := by
      intro text hmem hnone
      obtain ⟨other, hother, hnone'⟩ := hread.mpr ⟨text, hmem, hnone⟩
      exact hxs other hother hnone'
    rw [hok, hheld, pairsReadBy_eq_ok hys]

end Rows

/-- **How rows of items combine.** The pairs of a row of item texts are what the row comes to when
texts are read as markup (`pairsReadBy`).  And whatever reading takes the place of markup:

A row after another fails exactly if some text of either cannot be read.  Otherwise both rows come
to tables, and the row of both comes to the table that holds, under each name, what the later row
has there, and what the earlier has if the later has nothing.  What a table holds is held by the
last item that has a pair of the name, and an item holds what its own text says, whatever stands
before it (`heldIn?`).  An item without a pair adds nothing.  Items whose names are distinct may be
put in any order. -/
theorem rows_of_items_combine :
    pairsOfItems = pairsReadBy Node.ofText? ∧ ∀ read? : String → Option Node,
      (∀ xs ys, pairsReadBy read? (xs ++ ys) = .error .markup ↔
        (∃ text ∈ xs, read? text = none) ∨ ∃ text ∈ ys, read? text = none) ∧
      (∀ xs ys, (∀ text ∈ xs ++ ys, read? text ≠ none) → ∃ earlier later both,
        pairsReadBy read? xs = .ok earlier ∧ pairsReadBy read? ys = .ok later ∧
          pairsReadBy read? (xs ++ ys) = .ok both ∧
          ∀ name, both.get? name = (later.get? name).or (earlier.get? name)) ∧
      (∀ texts pairs, pairsReadBy read? texts = .ok pairs → ∀ name value,
        pairs.get? name = some value ↔ ∃ before text after, texts = before ++ text :: after ∧
          heldIn? read? text = some (name, value) ∧
          ∀ later ∈ after, ∀ other, heldIn? read? later ≠ some (name, other)) ∧
      (∀ xs text ys, read? text ≠ none → heldIn? read? text = none →
        pairsReadBy read? (xs ++ text :: ys) = pairsReadBy read? (xs ++ ys)) ∧
      ∀ xs ys, xs.Perm ys → ((xs.filterMap (heldIn? read?)).map Prod.fst).Nodup →
        pairsReadBy read? xs = pairsReadBy read? ys := by
  refine ⟨pairsOfItems_eq, fun read? => ⟨fun xs ys => ?_, fun xs ys hread => ?_,
    fun texts pairs hpairs name value => ?_, fun xs text ys hread hheld => ?_,
    fun xs ys hperm hnames => ?_⟩⟩
  · rw [pairsReadBy_eq_error_iff]
    simp only [List.mem_append, or_and_right, exists_or]
  · obtain ⟨hxs, hys⟩ := List.forall_mem_append.mp hread
    refine ⟨_, _, _, pairsReadBy_eq_ok hxs, pairsReadBy_eq_ok hys, pairsReadBy_eq_ok hread,
      fun name => ?_⟩
    rw [List.filterMap_append, Table.get?_ofList_append]
  · rcases pairsReadBy_outcome read? texts with ⟨herror, -⟩ | ⟨hok, -⟩
    · simp [herror] at hpairs
    · obtain rfl : _ = pairs := Except.ok.inj (hok.symm.trans hpairs)
      exact Table.get?_ofList_filterMap_iff
  · refine pairsReadBy_congr ?_ ?_
    · simp only [List.mem_append, List.mem_cons, or_and_right, exists_or, exists_eq_left,
        or_iff_right hread]
    · rw [List.filterMap_append, List.filterMap_cons_none hheld, List.filterMap_append]
  · refine pairsReadBy_congr ?_ ?_
    · simp only [hperm.mem_iff]
    · exact Table.ofList_eq_of_perm (hperm.filterMap _) hnames

example : pairsOfItems
    ["<ITEM><PROPERTY NAME=\"Data\"><VALUE>1</VALUE></PROPERTY></ITEM>",
      "<ITEM><PROPERTY NAME=\"Name\"><VALUE>key</VALUE></PROPERTY></ITEM>"] =
    .ok ⟨[("key", "")]⟩ := by
  decide +kernel

end CimBroker
