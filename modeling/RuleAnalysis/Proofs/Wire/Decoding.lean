import RuleAnalysis.Json.Decoder
import RuleAnalysis.Proofs.Success
import RuleAnalysis.Proofs.Wire.Trees

namespace RuleAnalysis

/-!
# What decoders take trees for

For each way of putting decoders together, the trees that the whole accepts
are described by what its parts accept. The descriptions serve in both
directions: a canonical tree is accepted because its parts are, and whatever
has been accepted has the form that is described.
-/

/-- What a record has under a name or, if it is an array, in a place. -/
def Json.part? (record : Json) (name : String) (place : Nat) : Option Json :=
  match record with
  | .object members => members.lookup name
  | .array items => items[place]?
  | _ => none

theorem Json.Ordered.part {record : Json} (ordered : record.Ordered) {name : String}
    {place : Nat} {part : Json} (found : record.part? name place = some part) : part.Ordered := by
  cases record with
  | object members => exact ordered.entry (mem_of_lookup found)
  | array items => exact ordered.item (List.mem_of_getElem? found)
  | _ => cases found

namespace Decoder

variable {ε α β : Type}

/-- The decoder accepts the document of a tree and takes it for the given value. -/
def Takes (read : Decoder α) (tree : Json) (a : α) : Prop :=
  read (Document.ofTree tree) = .ok a

/-! ## Plain values -/

theorem string_takes_iff {tree : Json} {s : String} :
    string.Takes tree s ↔ tree = .string s := by
  cases tree <;> simp [Takes, Document.ofTree, string]

theorem signed32_takes_int {n : Int} (fits : (Number.integer n).signed32? = some n) :
    signed32.Takes (.int n) n := by
  simp [Takes, Json.int, Document.ofTree, signed32, fits]

theorem nullable_takes_some {read : Decoder α} {tree : Json} {a : α} (present : tree ≠ .null)
    (takes : read.Takes tree a) : (nullable read).Takes tree (some a) := by
  have ok : read (Document.ofTree tree) = .ok a := takes
  cases tree with
  | null => exact absurd rfl present
  | _ =>
      simpa [Takes, nullable, Document.ofTree, Except.map, ← ok] using
        congrArg (Except.map some) ok

theorem nullable_takes_ofOption {read : Decoder α} {encode : α → Json} {o : Option α}
    (present : ∀ a, encode a ≠ .null) (takes : ∀ a ∈ o, read.Takes (encode a) a) :
    (nullable read).Takes (.ofOption encode o) o := by
  cases o with
  | none => rfl
  | some a => exact nullable_takes_some (present a) (takes a rfl)

theorem refusing_eq_ok_iff {message : ε → String} {x : Except ε α} {a : α} :
    refusing message x = .ok a ↔ x = .ok a := by
  cases x <;> simp [refusing]

/-! ## Arrays and dictionaries -/

theorem items_eq_mapM (read : Decoder α) (documents : List Document) :
    items read documents = documents.mapM read := by
  induction documents with
  | nil => rfl
  | cons d rest ih => rw [items, ih, List.mapM_cons]

theorem items_eq_ok_iff {read : Decoder α} {trees : List Json} {as : List α} :
    items read (trees.map Document.ofTree) = .ok as ↔ List.Forall₂ read.Takes trees as := by
  rw [items_eq_mapM, Success.mapM_eq_ok_iff, List.forall₂_map_left_iff]
  rfl

theorem list_takes_iff {read : Decoder α} {tree : Json} {as : List α} :
    (list read).Takes tree as ↔ ∃ trees, tree = .array trees ∧ List.Forall₂ read.Takes trees as := by
  cases tree with
  | array trees => simp [Takes, Document.ofTree_array, list, ← items_eq_ok_iff]
  | _ => simp [Takes, Document.ofTree, list]

theorem list_takes_map {read : Decoder β} {encode : α → Json} (result : α → β) {as : List α}
    (each : ∀ a ∈ as, read.Takes (encode a) (result a)) :
    (list read).Takes (.array (as.map encode)) (as.map result) := by
  refine list_takes_iff.mpr ⟨_, rfl, ?_⟩
  rw [List.forall₂_map_left_iff, List.forall₂_map_right_iff, List.forall₂_same]
  exact each

theorem list_takes {read : Decoder α} {encode : α → Json} {as : List α}
    (each : ∀ a ∈ as, read.Takes (encode a) a) : (list read).Takes (.array (as.map encode)) as := by
  have takes := list_takes_map id each
  rwa [List.map_id] at takes

theorem pair_takes_iff {first : Decoder α} {second : Decoder β} {tree : Json} {ab : α × β} :
    (pair first second).Takes tree ab ↔
      ∃ x y, tree = .array [x, y] ∧ first.Takes x ab.1 ∧ second.Takes y ab.2 := by
  cases tree with
  | array trees =>
      match trees with
      | [] => simp [Takes, Document.ofTree_array, pair]
      | [x] => simp [Takes, Document.ofTree_array, pair, Success.bind_eq_ok_iff]
      | [x, y] =>
          obtain ⟨a, b⟩ := ab
          simp [Takes, Document.ofTree_array, pair, Success.bind_eq_ok_iff, Functor.map,
            Success.map_eq_ok_iff]
      | x :: y :: z :: rest => simp [Takes, Document.ofTree_array, pair, Success.bind_eq_ok_iff]
  | _ => simp [Takes, Document.ofTree, pair]

theorem forall₂_string_takes_iff {trees : List Json} {texts : List String} :
    List.Forall₂ string.Takes trees texts ↔ trees = texts.map .string := by
  have reading : string.Takes = fun tree text => tree = .string text :=
    funext₂ fun tree text => propext string_takes_iff
  rw [reading, ← List.forall₂_map_right_iff, List.forall₂_eq_eq_eq]

/-- A member binds the key of an entry to a tree that stands for the entry's value. -/
def Binds (r : Json → α → Prop) (member : String × Json) (entry : String × α) : Prop :=
  member.1 = entry.1 ∧ r member.2 entry.2

theorem keys_eq_of_binds {r : Json → α → Prop} {members : List (String × Json)}
    {d : Dictionary α} (binds : List.Forall₂ (Binds r) members d) :
    Dictionary.keys members = Dictionary.keys d := by
  induction binds with
  | nil => rfl
  | cons first _ ih => rw [Dictionary.keys_cons, Dictionary.keys_cons, first.1, ih]

theorem entries_eq_ok_iff (read : Decoder α) (before : Dictionary α)
    {members : List (String × Json)} {d : Dictionary α}
    (ordered : (Dictionary.keys before ++ Dictionary.keys members).Pairwise (· < ·)) :
    entries read (members.map fun entry => (some entry.1, Document.ofTree entry.2)) before = .ok d ↔
      ∃ more, d = before ++ more ∧ List.Forall₂ (Binds read.Takes) members more := by
  induction members generalizing before with
  | nil =>
      simp only [List.map_nil, entries, List.forall₂_nil_left_iff, exists_eq_right, List.append_nil]
      exact ⟨fun ok => by cases ok; rfl, fun same => by rw [same]⟩
  | cons member rest ih =>
      have behind : ∀ key ∈ Dictionary.keys before, key < member.1 := fun key known =>
        (List.pairwise_append.mp ordered).2.2 key known member.1 List.mem_cons_self
      have later (a : α) : (Dictionary.keys (before ++ [(member.1, a)]) ++
          Dictionary.keys rest).Pairwise (· < ·) := by
        simpa [Dictionary.keys] using ordered
      rw [List.map_cons, entries, Success.bind_eq_ok_iff]
      constructor
      · rintro ⟨a, first, others⟩
        rw [Dictionary.insert_behind a behind, ih _ (later a)] at others
        rcases others with ⟨more, rfl, others⟩
        exact ⟨(member.1, a) :: more, by simp, .cons ⟨rfl, first⟩ others⟩
      · rintro ⟨more, rfl, all⟩
        rcases List.forall₂_cons_left_iff.mp all with ⟨⟨key, a⟩, more, ⟨rfl, first⟩, others, rfl⟩
        refine ⟨a, first, ?_⟩
        rw [Dictionary.insert_behind a behind, ih _ (later a)]
        exact ⟨more, by simp, others⟩

theorem dictionary_takes_iff {read : Decoder α} {members : List (String × Json)}
    (ordered : Dictionary.Ordered members) {d : Dictionary α} :
    (dictionary read).Takes (.object members) d ↔
      List.Forall₂ (Binds read.Takes) members d := by
  have entered := entries_eq_ok_iff read [] (d := d) ordered
  simp only [List.nil_append, exists_eq_left'] at entered
  rw [← entered]
  simp [Takes, Document.ofTree_object, dictionary]

/-- Only objects are taken for dictionaries. -/
theorem dictionary_takes_object {read : Decoder α} {tree : Json} {d : Dictionary α}
    (takes : (dictionary read).Takes tree d) : ∃ members, tree = .object members := by
  cases tree with
  | object members => exact ⟨members, rfl⟩
  | _ => simp [Takes, Document.ofTree, dictionary] at takes

theorem dictionary_takes_map {read : Decoder α} {encode : α → Json} {d : Dictionary α}
    (ordered : d.Ordered) (each : ∀ entry ∈ d, read.Takes (encode entry.2) entry.2) :
    (dictionary read).Takes (.object (d.map fun entry => (entry.1, encode entry.2))) d := by
  rw [dictionary_takes_iff ((Dictionary.ordered_map_iff encode).mpr ordered),
    List.forall₂_map_left_iff, List.forall₂_same]
  exact fun entry member => ⟨rfl, each entry member⟩

/-! ## Wrapped values -/

theorem sentinel_takes_iff {name : String} {read : Decoder α} {tree : Json} {a : α} :
    (sentinel name read).Takes tree a ↔
      ∃ body, tree = .object [(name, body)] ∧ read.Takes body a := by
  cases tree with
  | object members =>
      match members with
      | [] => simp [Takes, Document.ofTree_object, sentinel]
      | [(key, body)] =>
          by_cases same : key = name
          · simp [Takes, Document.ofTree_object, sentinel, same]
          · simp [Takes, Document.ofTree_object, sentinel, same]
      | (key, body) :: next :: rest =>
          by_cases same : key = name
          · simp [Takes, Document.ofTree_object, sentinel, same, Success.bind_eq_ok_iff]
          · simp [Takes, Document.ofTree_object, sentinel, same]
  | _ => simp [Takes, Document.ofTree, sentinel]

/-! ## Records -/

/-- A field's value, given what the record has for it. -/
def Presence.Gives (presence : Presence β) (read : Decoder β) (part? : Option Json) (b : β) :
    Prop :=
  match part?, presence with
  | some tree, _ => read.Takes tree b
  | none, .required => False
  | none, .optional absent => b = absent
  | none, .defaulted absent => b = absent

theorem Presence.gives_required_iff {read : Decoder β} {part? : Option Json} {b : β} :
    (Presence.required : Presence β).Gives read part? b ↔
      ∃ tree, part? = some tree ∧ read.Takes tree b := by
  cases part? <;> simp [Presence.Gives]

theorem Presence.gives_defaulted_iff {read : Decoder β} {part? : Option Json} {absent b : β} :
    (Presence.defaulted absent).Gives read part? b ↔
      (part? = none ∧ b = absent) ∨ ∃ tree, part? = some tree ∧ read.Takes tree b := by
  cases part? <;> simp [Presence.Gives]

namespace Fields

def names : {βs : List Type} → Fields βs → List String
  | _, nil => []
  | _, cons name _ _ rest => name :: rest.names

/-- The fields have values from which the record is built. -/
def Filled : {βs : List Type} → Fields βs → (String → Nat → Option Json) → Assembly βs α → α → Prop
  | _, nil, _, build, a => build = a
  | _, cons name presence read rest, part?, build, a =>
      ∃ b, presence.Gives read (part? name 0) b ∧
        rest.Filled (fun name place => part? name (place + 1)) (build b) a

/-- How a member, if there is one for its field, changes the field's slot. -/
def Fills (read : Decoder β) (part? : Option Json) (before after : Option β) : Prop :=
  match part? with
  | none => after = before
  | some tree => before = none ∧ ∃ b, read.Takes tree b ∧ after = some b

/-- How the members of an object change the slots of the fields. -/
def Stored : {βs : List Type} → Fields βs → (String → Option Json) → Slots βs → Slots βs → Prop
  | _, nil, _, _, _ => True
  | _, cons name _ read rest, part?, (before, befores), (after, afters) =>
      Fills read (part? name) before after ∧ rest.Stored part? befores afters

theorem slots_eq_iff {βs : List Type} {slot slot' : Option β} {slots slots' : Slots βs} :
    ((slot, slots) : Slots (β :: βs)) = (slot', slots') ↔ slot = slot' ∧ slots = slots' :=
  Prod.ext_iff

/-- Members that are no fields change nothing. -/
theorem stored_of_absent {βs : List Type} (fields : Fields βs) {part? : String → Option Json}
    (absent : ∀ name ∈ fields.names, part? name = none) {before after : Slots βs} :
    fields.Stored part? before after ↔ after = before := by
  induction fields with
  | nil => exact ⟨fun _ => rfl, fun _ => trivial⟩
  | cons name presence read rest ih =>
      obtain ⟨slot, slots⟩ := before
      obtain ⟨slot', slots'⟩ := after
      rw [Stored, absent name List.mem_cons_self,
        ih fun name member => absent name (List.mem_cons_of_mem _ member)]
      exact slots_eq_iff.symm

theorem store_own {βs : List Type} (name : String) (presence : Presence β) (read : Decoder β)
    (rest : Fields βs) (value : Document) (slots : Slots βs) :
    (cons name presence read rest).store name value (none, slots) =
      @Except.map Fault β (Slots (β :: βs)) (fun b => (some b, slots)) (read value) :=
  if_pos rfl

theorem store_taken {βs : List Type} (name : String) (presence : Presence β) (read : Decoder β)
    (rest : Fields βs) (value : Document) (b : β) (slots : Slots βs) :
    (cons name presence read rest).store name value (some b, slots) = .error .malformed :=
  if_pos rfl

theorem store_other {βs : List Type} {name key : String} (apart : key ≠ name)
    (presence : Presence β) (read : Decoder β) (rest : Fields βs) (value : Document)
    (slot : Option β) (slots : Slots βs) :
    (cons name presence read rest).store key value (slot, slots) =
      @Except.map Fault (Slots βs) (Slots (β :: βs)) (fun slots => (slot, slots))
        (rest.store key value slots) :=
  if_neg apart

theorem store_eq_ok_iff {βs : List Type} (fields : Fields βs) (distinct : fields.names.Nodup)
    {key : String} {tree : Json} {before after : Slots βs} :
    fields.store key (Document.ofTree tree) before = .ok after ↔
      fields.Stored (fun name => if name = key then some tree else none) before after := by
  induction fields with
  | nil => exact ⟨fun _ => trivial, fun _ => rfl⟩
  | cons name presence read rest ih =>
      obtain ⟨slot, slots⟩ := before
      obtain ⟨slot', slots'⟩ := after
      rw [names, List.nodup_cons] at distinct
      rw [Stored]
      by_cases same : name = key
      · subst same
        have others : ∀ other ∈ rest.names,
            (if other = name then some tree else none) = none := by
          rintro other member
          refine if_neg ?_
          rintro rfl
          exact distinct.1 member
        rw [stored_of_absent rest others, if_pos rfl]
        cases slot with
        | none =>
            rw [store_own]
            refine Success.map_eq_ok_iff.trans ?_
            constructor
            · rintro ⟨b, ok, same⟩
              cases same
              exact ⟨⟨rfl, b, ok, rfl⟩, rfl⟩
            · rintro ⟨⟨_, b, ok, rfl⟩, rfl⟩
              exact ⟨b, ok, rfl⟩
        | some b => simp [store_taken, Fills]
      · rw [if_neg same, ← ih distinct.2, store_other (Ne.symm same)]
        refine Success.map_eq_ok_iff.trans ?_
        constructor
        · rintro ⟨_, ok, same⟩
          cases same
          exact ⟨rfl, ok⟩
        · rintro ⟨rfl, ok⟩
          exact ⟨_, ok, rfl⟩

theorem fills_cons_iff {read : Decoder β} {name key : String} {tree : Json}
    {rest : List (String × Json)} (once : key ∉ Dictionary.keys rest) {before after : Option β} :
    Fills read (((key, tree) :: rest).lookup name) before after ↔
      ∃ between, Fills read (if name = key then some tree else none) before between ∧
        Fills read (rest.lookup name) between after := by
  by_cases same : name = key
  · subst same
    simp [Fills, lookup_eq_none_iff.mpr once]
  · have apart : (name == key) = false := beq_eq_false_iff_ne.mpr same
    simp [Fills, List.lookup_cons, apart, same]

theorem stored_cons_iff {βs : List Type} (fields : Fields βs) {key : String} {tree : Json}
    {rest : List (String × Json)} (once : key ∉ Dictionary.keys rest) {before after : Slots βs} :
    fields.Stored (fun name => ((key, tree) :: rest).lookup name) before after ↔
      ∃ between, fields.Stored (fun name => if name = key then some tree else none) before between ∧
        fields.Stored (fun name => rest.lookup name) between after := by
  induction fields with
  | nil => exact ⟨fun _ => ⟨before, trivial, trivial⟩, fun _ => trivial⟩
  | cons name presence read others ih =>
      obtain ⟨slot, slots⟩ := before
      obtain ⟨slot', slots'⟩ := after
      simp only [Stored, fills_cons_iff once, ih]
      constructor
      · rintro ⟨⟨one, first, second⟩, more, firsts, seconds⟩
        exact ⟨(one, more), ⟨first, firsts⟩, second, seconds⟩
      · rintro ⟨⟨one, more⟩, ⟨first, firsts⟩, second, seconds⟩
        exact ⟨⟨one, first, second⟩, more, firsts, seconds⟩

theorem storeAll_eq_ok_iff {βs : List Type} (fields : Fields βs) (distinct : fields.names.Nodup)
    {members : List (String × Json)} (once : (Dictionary.keys members).Nodup)
    {before after : Slots βs} :
    fields.storeAll (members.map fun entry => (some entry.1, Document.ofTree entry.2)) before =
        .ok after ↔
      fields.Stored (fun name => members.lookup name) before after := by
  induction members generalizing before with
  | nil =>
      rw [stored_of_absent fields fun name _ => List.lookup_nil, List.map_nil, storeAll]
      exact ⟨fun ok => by cases ok; rfl, fun same => by rw [same]⟩
  | cons member rest ih =>
      rw [Dictionary.keys_cons, List.nodup_cons] at once
      rw [stored_cons_iff fields once.1, List.map_cons, storeAll]
      simp only [Success.bind_eq_ok_iff, store_eq_ok_iff fields distinct, ih once.2]

/-- A field that no member fills is taken as absent, if it may be. -/
theorem assemble_absent {βs : List Type} (name : String) (presence : Presence β)
    (read : Decoder β) (rest : Fields βs) (slots : Slots βs) (build : Assembly (β :: βs) α)
    (a : α) :
    (cons name presence read rest).assemble (none, slots) build = .ok a ↔
      ∃ b, presence.Gives read none b ∧ rest.assemble slots (build b) = .ok a := by
  cases presence <;> simp [assemble, Presence.Gives]

/-- The record is built from what its fields have been given. -/
theorem assemble_eq_ok_iff {βs : List Type} (fields : Fields βs) {part? : String → Option Json}
    {build : Assembly βs α} {a : α} :
    (∃ slots, fields.Stored part? fields.empty slots ∧ fields.assemble slots build = .ok a) ↔
      fields.Filled (fun name _ => part? name) build a := by
  induction fields with
  | nil =>
      simp only [Filled, assemble]
      exact ⟨fun ⟨_, _, ok⟩ => by cases ok; rfl, fun same => ⟨(), trivial, by rw [same]⟩⟩
  | cons name presence read rest ih =>
      simp only [Filled, ← ih]
      cases found : part? name with
      | none =>
          constructor
          · rintro ⟨⟨slot, slots⟩, ⟨fills, stored⟩, ok⟩
            rw [found] at fills
            cases fills
            rcases (assemble_absent name presence read rest slots build a).mp ok with ⟨b, gives, ok⟩
            exact ⟨b, gives, slots, stored, ok⟩
          · rintro ⟨b, gives, slots, stored, ok⟩
            refine ⟨(none, slots), ⟨by rw [found]; rfl, stored⟩, ?_⟩
            exact (assemble_absent name presence read rest slots build a).mpr ⟨b, gives, ok⟩
      | some tree =>
          constructor
          · rintro ⟨⟨slot, slots⟩, ⟨fills, stored⟩, ok⟩
            rw [found] at fills
            rcases fills with ⟨_, b, takes, rfl⟩
            exact ⟨b, takes, slots, stored, ok⟩
          · rintro ⟨b, takes, slots, stored, ok⟩
            exact ⟨(some b, slots), ⟨by rw [found]; exact ⟨rfl, b, takes, rfl⟩, stored⟩, ok⟩

theorem filled_of_assembleItems {βs : List Type} (fields : Fields βs) (trees : List Json)
    {build : Assembly βs α} {a : α}
    (ok : fields.assembleItems (trees.map Document.ofTree) build = .ok a) :
    fields.Filled (fun _ place => trees[place]?) build a := by
  induction fields generalizing trees with
  | nil =>
      cases trees with
      | nil => cases ok; rfl
      | cons tree rest => cases ok
  | cons name presence read others ih =>
      cases trees with
      | nil =>
          cases presence with
          | defaulted absent =>
              simp only [List.map_nil, assembleItems] at ok
              exact ⟨absent, rfl, by simpa using ih [] (by simpa using ok)⟩
          | _ => cases ok
      | cons tree rest =>
          rw [List.map_cons, assembleItems, Success.bind_eq_ok_iff] at ok
          rcases ok with ⟨b, takes, ok⟩
          exact ⟨b, takes, by simpa using ih rest ok⟩

end Fields

/-- Which objects a record is read from: those whose members fill its fields. -/
theorem members_eq_ok_iff {βs : List Type} {fields : Fields βs} (distinct : fields.names.Nodup)
    {build : Assembly βs α} {entries : List (String × Json)}
    (once : (Dictionary.keys entries).Nodup) {a : α} :
    members fields build (entries.map fun entry => (some entry.1, Document.ofTree entry.2)) true =
        .ok a ↔
      fields.Filled (fun name _ => entries.lookup name) build a := by
  rw [members, Success.bind_eq_ok_iff, ← Fields.assemble_eq_ok_iff]
  simp only [Fields.storeAll_eq_ok_iff fields distinct once, if_true]

theorem record_takes_object_iff {βs : List Type} {fields : Fields βs}
    (distinct : fields.names.Nodup) {build : Assembly βs α} {entries : List (String × Json)}
    (once : (Dictionary.keys entries).Nodup) {a : α} :
    (record fields build).Takes (.object entries) a ↔
      fields.Filled (fun name _ => entries.lookup name) build a := by
  rw [← members_eq_ok_iff distinct once, Takes, Document.ofTree_object, record]

theorem record_takes_object {βs : List Type} {fields : Fields βs}
    {build : Assembly βs α} {entries : List (String × Json)} {a : α}
    (distinct : fields.names.Nodup) (once : (Dictionary.keys entries).Nodup)
    (filled : fields.Filled (fun name _ => entries.lookup name) build a) :
    (record fields build).Takes (.object entries) a :=
  (record_takes_object_iff distinct once).mpr filled

/-- A record that has been read has been built from its parts, however it was written. -/
theorem filled_of_record_takes {βs : List Type} {fields : Fields βs}
    (distinct : fields.names.Nodup) {build : Assembly βs α} {tree : Json} (ordered : tree.Ordered)
    {a : α} (takes : (record fields build).Takes tree a) : fields.Filled tree.part? build a := by
  cases tree with
  | object entries =>
      exact (record_takes_object_iff distinct ordered.keys.nodup).mp takes
  | array trees =>
      rw [Takes, Document.ofTree_array, record, Success.bind_eq_ok_iff] at takes
      rcases takes with ⟨b, ok, same⟩
      cases same
      exact Fields.filled_of_assembleItems fields trees ok
  | _ => cases takes

/-! ## Alternatives -/

theorem variant_takes_iff {nested : Bool} {body : String → Option (Decoder α)} {key : String}
    {tree : Json} {a : α} :
    (variant nested body).Takes (.object [(key, tree)]) a ↔
      ∃ read, body key = some read ∧ read.Takes tree a := by
  rw [Takes, Document.ofTree_object]
  cases found : body key <;> simp [variant, found, Takes]

theorem filter_key_eq_singleton {entries : List (String × β)} {key : String} {b : β}
    (once : (Dictionary.keys entries).Nodup) (member : (key, b) ∈ entries) :
    (entries.filter fun entry => entry.1 = key) = [(key, b)] := by
  induction entries with
  | nil => simp at member
  | cons entry rest ih =>
      rw [Dictionary.keys_cons, List.nodup_cons] at once
      rcases List.mem_cons.mp member with rfl | later
      · have others : (rest.filter fun entry => entry.1 = key) = [] := by
          rw [List.filter_eq_nil_iff]
          intro other known same
          have taken : other.1 ∈ Dictionary.keys rest := Dictionary.mem_keys_of_mem known
          exact once.1 (of_decide_eq_true same ▸ taken)
        simp [others]
      · have apart : entry.1 ≠ key := fun same =>
          once.1 (same ▸ Dictionary.mem_keys_of_mem later)
        rw [List.filter_cons_of_neg (by simpa using apart), ih once.2 later]

/-- A choice among tagged alternatives is that of the tag, made of the other members. -/
theorem tagged_takes_iff {tag : String} {names : List String} {nested : Bool}
    {body : String → Option (Decoder α)} {entries : List (String × Json)} {name : String}
    {read : Decoder α} {a : α} (once : (Dictionary.keys entries).Nodup)
    (isTagged : (tag, .string name) ∈ entries) (found : body name = some read) :
    (tagged tag names nested body).Takes (.object entries) a ↔
      read.Takes (.object (entries.filter fun entry => entry.1 ≠ tag)) a := by
  have readable := Document.tree?_ofTree_isNone (.object entries)
  have tags : (entries.map fun entry => (some entry.1, Document.ofTree entry.2)).filter
      (fun member => member.1 = some tag) = [(some tag, .string name)] := by
    rw [List.filter_map]
    simp [Function.comp_def, filter_key_eq_singleton once isTagged, Document.ofTree]
  have others : (entries.map fun entry => (some entry.1, Document.ofTree entry.2)).filter
      (fun member => member.1 ≠ some tag) =
        (entries.filter fun entry => entry.1 ≠ tag).map
          fun entry => (some entry.1, Document.ofTree entry.2) := by
    rw [List.filter_map]
    simp [Function.comp_def]
  rw [Document.ofTree_object] at readable
  simp only [Takes, Document.ofTree_object, tagged, splitTag, tags, others, readable]
  simp [tagName?, found]

theorem Fields.filled_congr {βs : List Type} {fields : Fields βs}
    {part? other? : String → Nat → Option Json}
    (same : ∀ name ∈ fields.names, ∀ place, part? name place = other? name place)
    {build : Assembly βs α} {a : α} (filled : fields.Filled part? build a) :
    fields.Filled other? build a := by
  induction fields generalizing part? other? with
  | nil => exact filled
  | cons name presence read rest ih =>
      rcases filled with ⟨b, gives, others⟩
      refine ⟨b, same name List.mem_cons_self 0 ▸ gives, ih (fun other member place => ?_) others⟩
      exact same other (List.mem_cons_of_mem _ member) (place + 1)

theorem lookup_filter_of_ne {entries : List (String × Json)} {tag name : String}
    (apart : name ≠ tag) :
    (entries.filter fun entry => entry.1 ≠ tag).lookup name = entries.lookup name := by
  induction entries with
  | nil => rfl
  | cons entry rest ih =>
      by_cases same : entry.1 = tag
      · have differs : (name == entry.1) = false := beq_eq_false_iff_ne.mpr (same ▸ apart)
        rw [List.filter_cons_of_neg (by simpa using same), ih, List.lookup_cons, differs]
      · rw [List.filter_cons_of_pos (by simpa using same), List.lookup_cons, List.lookup_cons, ih]

/-- A tagged record is read from an object that has its fields beside the tag. -/
theorem tagged_record_takes {tag : String} {names : List String} {nested : Bool}
    {body : String → Option (Decoder α)} {βs : List Type} {fields : Fields βs}
    {build : Assembly βs α} (name : String) (found : body name = some (record fields build))
    (distinct : (tag :: fields.names).Nodup) {entries : List (String × Json)}
    (once : (Dictionary.keys entries).Nodup) (isTagged : (tag, .string name) ∈ entries) {a : α}
    (filled : fields.Filled (fun name _ => entries.lookup name) build a) :
    (tagged tag names nested body).Takes (.object entries) a := by
  rw [List.nodup_cons] at distinct
  rw [tagged_takes_iff once isTagged found]
  refine record_takes_object distinct.2 ?_ (Fields.filled_congr (fun name member place => ?_) filled)
  · exact (List.filter_sublist.map Prod.fst).nodup once
  · have apart : name ≠ tag := fun same => distinct.1 (same ▸ member)
    exact (lookup_filter_of_ne apart).symm

/-- Forms that are tried in their order on what has been read to its end. -/
def firstOf (forms : List (Decoder α)) : Decoder α := fun d =>
  if d.tree?.isNone then .error .malformed
  else
    match forms.findSome? fun form => (form d).toOption with
    | some a => .ok a
    | none => .error .malformed

/-- The first form that fits is taken. -/
theorem firstOf_takes (before after : List (Decoder α)) {form : Decoder α} {tree : Json} {a : α}
    (fail : ∀ other ∈ before, ∀ b, ¬ other.Takes tree b) (takes : form.Takes tree a) :
    (firstOf (before ++ form :: after)).Takes tree a := by
  have none : before.findSome? (fun form => (form (Document.ofTree tree)).toOption) = none := by
    rw [List.findSome?_eq_none_iff]
    intro other member
    cases result : other (Document.ofTree tree) with
    | error fault => rfl
    | ok b => exact absurd result (fail other member b)
  have fits : form (Document.ofTree tree) = .ok a := takes
  rw [Takes, firstOf, Document.tree?_ofTree_isNone, List.findSome?_append, none,
    List.findSome?_cons, fits]
  rfl

end Decoder
end RuleAnalysis
