import RuleAnalysis.Json.Document
import RuleAnalysis.Proofs.Lookups

namespace RuleAnalysis

/-!
# Ordered trees

The members of an object are listed by increasing key, each key once. A tree
in which this is so everywhere is read back unchanged from its document; of
any other tree the document still has a tree, with its members put in order.
-/

/-! ## The order of a dictionary -/

namespace Dictionary

variable {α β : Type}

@[simp] theorem keys_nil : keys ([] : Dictionary α) = [] := rfl

@[simp] theorem keys_cons (entry : String × α) (rest : Dictionary α) :
    keys (entry :: rest) = entry.1 :: keys rest := rfl

@[simp] theorem keys_map (f : α → β) (d : Dictionary α) :
    keys (d.map fun entry => (entry.1, f entry.2)) = keys d := by
  simp [keys]

instance (d : Dictionary α) : Decidable d.Ordered :=
  inferInstanceAs (Decidable (List.Pairwise (· < ·) d.keys))

/-- A dictionary is in order if the names that it lists are. -/
theorem ordered_of_keys {d : Dictionary α} (names : List String) (listed : d.keys = names)
    (sorted : names.Pairwise (· < ·)) : Ordered d := by
  rw [Ordered, listed]
  exact sorted

theorem ordered_nil : Ordered ([] : Dictionary α) := List.Pairwise.nil

theorem ordered_cons_iff {entry : String × α} {rest : Dictionary α} :
    Ordered (entry :: rest) ↔ (∀ key ∈ rest.keys, entry.1 < key) ∧ Ordered rest :=
  List.pairwise_cons

theorem Ordered.nodup {d : Dictionary α} (ordered : Ordered d) : d.keys.Nodup := by
  refine List.Pairwise.imp ?_ ordered
  rintro key _ less rfl
  exact String.lt_irrefl key less

theorem mem_keys_of_mem {d : Dictionary α} {entry : String × α} (member : entry ∈ d) :
    entry.1 ∈ d.keys :=
  List.mem_map_of_mem member

/-- A name behind all others is bound at the end. -/
theorem insert_behind {d : Dictionary α} {name : String} (value : α)
    (behind : ∀ key ∈ d.keys, key < name) : d.insert name value = d ++ [(name, value)] := by
  induction d with
  | nil => rfl
  | cons entry rest ih =>
      have less : entry.1 < name := behind entry.1 (by simp)
      have apart : name ≠ entry.1 := fun same => String.lt_irrefl _ (same ▸ less)
      have notLess : ¬ name < entry.1 := String.lt_asymm less
      rw [insert, if_neg apart, if_neg notLess, ih fun key member => behind key (by simp [member])]
      rfl

theorem mem_keys_insert {d : Dictionary α} {name key : String} {value : α} :
    key ∈ (d.insert name value).keys ↔ key = name ∨ key ∈ d.keys := by
  induction d with
  | nil => simp [insert]
  | cons entry rest ih =>
      rw [insert]
      split
      · next same => simp [same]
      · split
        · simp
        · simp only [keys_cons, List.mem_cons, ih]
          exact or_left_comm

theorem Ordered.insert {d : Dictionary α} (ordered : Ordered d) (name : String) (value : α) :
    Ordered (d.insert name value) := by
  induction d with
  | nil => simp [Dictionary.insert, Ordered]
  | cons entry rest ih =>
      rw [ordered_cons_iff] at ordered
      rw [Dictionary.insert]
      split
      · next same => exact ordered_cons_iff.mpr ⟨same ▸ ordered.1, ordered.2⟩
      · next apart =>
          split
          · next less =>
              refine ordered_cons_iff.mpr ⟨?_, ordered_cons_iff.mpr ordered⟩
              intro key member
              rcases List.mem_cons.mp member with rfl | later
              · exact less
              · exact String.lt_trans less (ordered.1 key later)
          · next notLess =>
              refine ordered_cons_iff.mpr ⟨?_, ih ordered.2⟩
              intro key member
              rcases mem_keys_insert.mp member with rfl | later
              · rcases Std.lt_trichotomy key entry.1 with less | same | less
                · exact absurd less notLess
                · exact absurd same apart
                · exact less
              · exact ordered.1 key later

/-- A dictionary is got back from a larger one by leaving out what has been bound on top. -/
theorem filter_insert {d : Dictionary α} (keep : String → Bool) {name : String} (value : α)
    (left : keep name = false) :
    (d.insert name value).filter (fun entry => keep entry.1) =
      d.filter fun entry => keep entry.1 := by
  induction d with
  | nil => simp [insert, left]
  | cons entry rest ih =>
      rw [insert]
      split
      · next same => simp [← same, left]
      · split
        · simp [left]
        · simp only [List.filter_cons, ih]

/-- What is done to each binding by itself may be done before or after one is added. -/
theorem map_insert (f : String → α → β) (d : Dictionary α) (name : String) (value : α) :
    (d.insert name value).map (fun entry => (entry.1, f entry.1 entry.2)) =
      insert (d.map fun entry => (entry.1, f entry.1 entry.2)) name (f name value) := by
  induction d with
  | nil => rfl
  | cons entry rest ih =>
      obtain ⟨key, old⟩ := entry
      rw [insert, List.map_cons, insert]
      split
      · rfl
      · split
        · rfl
        · rw [List.map_cons, ih]

theorem ordered_map_iff (f : α → β) {d : Dictionary α} :
    Ordered (d.map fun entry => (entry.1, f entry.2)) ↔ Ordered d := by
  rw [Ordered, keys_map, Ordered]

end Dictionary

/-! ## Ordered trees -/

namespace Json

/-- Every object in the tree lists its members in order. -/
inductive Ordered : Json → Prop
  | null : Ordered null
  | bool (b : Bool) : Ordered (bool b)
  | number (n : Number) : Ordered (number n)
  | string (s : String) : Ordered (string s)
  | array {items : List Json} (parts : ∀ item ∈ items, Ordered item) : Ordered (array items)
  | object {members : List (String × Json)} (order : Dictionary.Ordered members)
      (parts : ∀ entry ∈ members, Ordered entry.2) : Ordered (object members)

theorem Ordered.item {items : List Json} (ordered : (Json.array items).Ordered) {item : Json}
    (member : item ∈ items) : item.Ordered := by
  cases ordered with
  | array parts => exact parts item member

theorem Ordered.keys {members : List (String × Json)} (ordered : (Json.object members).Ordered) :
    Dictionary.Ordered members := by
  cases ordered with
  | object order _ => exact order

theorem Ordered.entry {members : List (String × Json)} (ordered : (Json.object members).Ordered)
    {entry : String × Json} (member : entry ∈ members) : entry.2.Ordered := by
  cases ordered with
  | object _ parts => exact parts entry member

/-- What an object of one member holds is ordered if the object is. -/
theorem Ordered.body {name : String} {body : Json} (ordered : (Json.object [(name, body)]).Ordered) :
    body.Ordered :=
  ordered.entry (List.mem_singleton.mpr rfl)

theorem ordered_wrapped {name : String} {body : Json} (ordered : body.Ordered) :
    (object [(name, body)]).Ordered :=
  .object (List.pairwise_singleton _ _) fun entry member => by
    cases List.mem_singleton.mp member
    exact ordered

end Json

/-! ## The document of a tree -/

namespace Document

theorem ofTreeItems_eq_map (items : List Json) : ofTreeItems items = items.map ofTree := by
  induction items with
  | nil => rfl
  | cons item rest ih => rw [ofTreeItems, ih, List.map_cons]

theorem ofTreeMembers_eq_map (members : List (String × Json)) :
    ofTreeMembers members = members.map fun entry => (some entry.1, ofTree entry.2) := by
  induction members with
  | nil => rfl
  | cons entry rest ih => rw [ofTreeMembers, ih, List.map_cons]

theorem ofTree_array (items : List Json) :
    ofTree (.array items) = array (items.map ofTree) true := by
  rw [ofTree, ofTreeItems_eq_map]

theorem ofTree_object (members : List (String × Json)) :
    ofTree (.object members) =
      object (members.map fun entry => (some entry.1, ofTree entry.2)) true := by
  rw [ofTree, ofTreeMembers_eq_map]

theorem treeItems?_of_forall {items : List Json}
    (trees : ∀ item ∈ items, (ofTree item).tree? = some item) :
    treeItems? (items.map ofTree) = some items := by
  induction items with
  | nil => rfl
  | cons item rest ih =>
      rw [List.map_cons, treeItems?, trees item List.mem_cons_self,
        ih fun item member => trees item (List.mem_cons_of_mem _ member)]
      rfl

/-- Members are added behind those that have been read, as long as all of them are in order. -/
theorem treeMembers?_of_ordered (before : Dictionary Json) {members : Dictionary Json}
    (ordered : Dictionary.Ordered (before ++ members))
    (trees : ∀ entry ∈ members, (ofTree entry.2).tree? = some entry.2) :
    treeMembers? (members.map fun entry => (some entry.1, ofTree entry.2)) before =
      some (before ++ members) := by
  induction members generalizing before with
  | nil => simp [treeMembers?]
  | cons entry rest ih =>
      have behind : ∀ key ∈ before.keys, key < entry.1 := by
        intro key member
        rw [Dictionary.Ordered, Dictionary.keys, List.map_append, List.pairwise_append] at ordered
        exact ordered.2.2 key member entry.1 (by simp)
      have more : Dictionary.Ordered ((before ++ [entry]) ++ rest) := by simpa using ordered
      rw [List.map_cons, treeMembers?, trees entry List.mem_cons_self]
      simp only [Option.bind_eq_bind, Option.bind_some]
      rw [Dictionary.insert_behind entry.2 behind,
        ih _ more fun entry member => trees entry (List.mem_cons_of_mem _ member)]
      simp

/-- The document of an ordered tree is a document of this very tree. -/
theorem tree?_ofTree {tree : Json} (ordered : tree.Ordered) :
    (ofTree tree).tree? = some tree := by
  induction ordered with
  | null | bool _ | number _ | string _ => simp [ofTree, tree?]
  | array _ ih => simp [ofTree_array, tree?, treeItems?_of_forall ih]
  | object order _ ih =>
      simp [ofTree_object, tree?, treeMembers?_of_ordered [] order ih]

mutual

/-- The document of a tree can be read to its end. -/
theorem tree?_ofTree_isSome : ∀ tree : Json, (ofTree tree).tree?.isSome
  | .null | .bool _ | .number _ | .string _ => by simp [ofTree, tree?]
  | .array items => by simpa [ofTree, tree?] using treeItems?_ofTreeItems_isSome items
  | .object members => by
      simpa [ofTree, tree?] using treeMembers?_ofTreeMembers_isSome members []

theorem treeItems?_ofTreeItems_isSome : ∀ items : List Json,
    (treeItems? (ofTreeItems items)).isSome
  | [] => rfl
  | item :: rest => by
      rcases Option.isSome_iff_exists.mp (tree?_ofTree_isSome item) with ⟨tree, read⟩
      rcases Option.isSome_iff_exists.mp (treeItems?_ofTreeItems_isSome rest) with ⟨trees, reads⟩
      simp [ofTreeItems, treeItems?, read, reads]

theorem treeMembers?_ofTreeMembers_isSome : ∀ (members : List (String × Json))
    (before : Dictionary Json), (treeMembers? (ofTreeMembers members) before).isSome
  | [], _ => rfl
  | (key, value) :: rest, before => by
      rcases Option.isSome_iff_exists.mp (tree?_ofTree_isSome value) with ⟨tree, read⟩
      simpa [ofTreeMembers, treeMembers?, read] using
        treeMembers?_ofTreeMembers_isSome rest (before.insert key tree)

end

theorem tree?_ofTree_isNone (tree : Json) : (ofTree tree).tree?.isNone = false := by
  rw [Option.isNone_eq_false_iff]
  exact tree?_ofTree_isSome tree

end Document

end RuleAnalysis
