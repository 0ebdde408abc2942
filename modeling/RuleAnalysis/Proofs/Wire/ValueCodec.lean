import RuleAnalysis.Proofs.Wire.Values

namespace RuleAnalysis

/-!
# What is read as a value

The reader of values goes down a tree that is known to be finite. What it does
at one level is said by one relation, whose cases are the forms of values:
which form a tree has is decided by its sentinel, and its parts are left to the
level below. Writing satisfies the relation, everything that satisfies it can
be written, and it leaves no place for an object that has a sentinel and
another key.
-/

open Decoder (Takes Binds)

theorem Decoder.tree_takes_iff {α : Type} {read : Json → Except Fault α} {tree : Json}
    (ordered : tree.Ordered) {a : α} : (Decoder.tree read).Takes tree a ↔ read tree = .ok a := by
  rw [Takes, Decoder.tree, Document.tree?_ofTree ordered]

/-! ## Providers -/

namespace Provider

variable {inner : Decoder Value}

theorem decodeWith_takes_encode {p : Provider} (sound : p.reference.WellFormed)
    (order : Dictionary.Ordered p.data)
    (parts : ∀ part ∈ p.data.map Prod.snd, inner.Takes part.encode part) :
    (decodeWith inner).Takes p.encode p := by
  have data : (Decoder.dictionary inner).Takes (.object (Value.encodeEntries p.data)) p.data := by
    rw [Value.encodeEntries_eq_map]
    exact Decoder.dictionary_takes_map order fun entry member =>
      parts entry.2 (List.mem_map_of_mem member)
  obtain ⟨reference, entries⟩ := p
  refine Decoder.sentinel_takes_iff.mpr ⟨_, rfl, ?_⟩
  exact Decoder.record_takes_object (by simp [Decoder.Fields.names]) (by simp)
    ⟨reference.sourceLabel, Label.decode_takes_iff.mpr ⟨rfl, sound⟩,
      reference.qualifiedName, rfl, entries, data, rfl⟩

/-- A provider that has been read: its type can be written, and its data are what stands under
their names, or nothing. -/
theorem decodeWith_takes {tree : Json} (ordered : tree.Ordered) {p : Provider}
    (takes : (decodeWith inner).Takes tree p) :
    ∃ body, tree = .object [(sentinel, body)] ∧ p.reference.WellFormed ∧
      ((body.part? "data" 2 = none ∧ p.data = []) ∨
        ∃ members, body.part? "data" 2 = some (.object members) ∧
          (Json.object members).Ordered ∧ List.Forall₂ (Binds inner.Takes) members p.data) := by
  rcases Decoder.sentinel_takes_iff.mp takes with ⟨body, rfl, record⟩
  rcases Decoder.filled_of_record_takes (by simp [Decoder.Fields.names]) ordered.body record
    with ⟨l, source, name, _, data, given, rfl⟩
  rcases Decoder.Presence.gives_required_iff.mp source with ⟨_, _, label⟩
  refine ⟨body, rfl, (Label.decode_takes_iff.mp label).2, ?_⟩
  rcases Decoder.Presence.gives_defaulted_iff.mp given with ⟨none, rfl⟩ | ⟨tree, found, inside⟩
  · exact .inl ⟨none, rfl⟩
  · rcases Decoder.dictionary_takes_object inside with ⟨members, rfl⟩
    have part := ordered.body.part found
    exact .inr ⟨members, found, part, (Decoder.dictionary_takes_iff part.keys).mp inside⟩

end Provider

/-! ## Selections -/

namespace Selection

variable {inner : Decoder Value}

theorem decodeWith_takes_encode {s : Selection} (sound : ∀ branch ∈ s.mapping, branch.1.WellFormed)
    (default : inner.Takes s.default.encode s.default)
    (parts : ∀ part ∈ s.mapping.map Prod.snd, inner.Takes part.encode part) :
    (decodeWith inner).Takes s.encode s := by
  have branches : (Decoder.list (Decoder.pair TypeRef.decodeOption inner)).Takes
      (.array (Value.encodeBranches s.mapping)) s.mapping := by
    rw [Value.encodeBranches_eq_map]
    refine Decoder.list_takes fun branch member => ?_
    exact Decoder.pair_takes_iff.mpr ⟨_, _, rfl,
      TypeRef.decodeOption_takes_encode (sound branch member),
      parts branch.2 (List.mem_map_of_mem member)⟩
  obtain ⟨mapping, otherwise⟩ := s
  refine Decoder.sentinel_takes_iff.mpr ⟨_, rfl, ?_⟩
  exact Decoder.record_takes_object (by simp [Decoder.Fields.names]) (by simp)
    ⟨mapping, branches, otherwise, default, rfl⟩

/-- One branch as it has been read. -/
def BranchTaken (inner : Decoder Value) (tree : Json) (branch : TypeRef × Value) : Prop :=
  ∃ option value, tree = .array [option, value] ∧ branch.1.WellFormed ∧ value.Ordered ∧
    inner.Takes value branch.2

/-- A selection that has been read: its options can be written, and its branches are what stands
in their places. -/
theorem decodeWith_takes {tree : Json} (ordered : tree.Ordered) {s : Selection}
    (takes : (decodeWith inner).Takes tree s) :
    ∃ body branches default, tree = .object [(sentinel, body)] ∧
      body.part? "mapping" 0 = some (.array branches) ∧
      List.Forall₂ (BranchTaken inner) branches s.mapping ∧
      body.part? "default" 1 = some default ∧ default.Ordered ∧ inner.Takes default s.default := by
  rcases Decoder.sentinel_takes_iff.mp takes with ⟨body, rfl, record⟩
  rcases Decoder.filled_of_record_takes (by simp [Decoder.Fields.names]) ordered.body record
    with ⟨mapping, branches, otherwise, default, rfl⟩
  rcases Decoder.Presence.gives_required_iff.mp branches with ⟨_, inMapping, list⟩
  rcases Decoder.Presence.gives_required_iff.mp default with ⟨tree, inDefault, value⟩
  rcases Decoder.list_takes_iff.mp list with ⟨trees, rfl, each⟩
  have mapped := ordered.body.part inMapping
  refine ⟨body, trees, tree, rfl, inMapping, ?_, inDefault, ordered.body.part inDefault, value⟩
  refine Success.forall₂_imp_of_mem each fun tree inTrees branch _ pair => ?_
  rcases Decoder.pair_takes_iff.mp pair with ⟨option, value, rfl, first, second⟩
  have parts := mapped.item inTrees
  exact ⟨option, value, rfl,
    TypeRef.wellFormed_of_takes_option (parts.item (by simp)) first,
    parts.item (by simp), second⟩

end Selection

namespace Value

/-! ## One level of a value -/

/-- What is read as a value, given what its parts are read as. -/
inductive Spelled (inner : Json → Except Fault Value) : Json → Value → Prop
  | null : Spelled inner .null .null
  | bool (b : Bool) : Spelled inner (.bool b) (.bool b)
  | number (n : Number) : Spelled inner (.number n) (.number n)
  | string (s : String) : Spelled inner (.string s) (.string s)
  | list {trees : List Json} {items : List Value}
      (each : List.Forall₂ (fun tree item => inner tree = .ok item) trees items) :
      Spelled inner (.array trees) (.list items)
  | map {members : List (String × Json)} {entries : List (String × Value)}
      (plain : ∀ key ∈ Dictionary.keys members, key ∉ sentinels)
      (each : List.Forall₂ (Binds fun tree item => inner tree = .ok item) members entries) :
      Spelled inner (.object members) (.map entries)
  | label {tree : Json} {l : Label} (takes : Label.decode.Takes tree l) :
      Spelled inner tree (.label l)
  | labelPath {tree : Json} {p : LabelPath} (takes : LabelPath.decode.Takes tree p) :
      Spelled inner tree (.labelPath p)
  | provider {tree : Json} {p : Provider}
      (takes : (Provider.decodeWith (Decoder.tree inner)).Takes tree p) :
      Spelled inner tree (.provider p)
  | globSet {tree : Json} {set : GlobSet} (takes : GlobSet.decode.Takes tree set) :
      Spelled inner tree (.globSet set)
  | option {tree : Json} {r : TypeRef} (takes : TypeRef.decodeOption.Takes tree r) :
      Spelled inner tree (.option r)
  | selection {tree : Json} {s : Selection}
      (takes : (Selection.decodeWith (Decoder.tree inner)).Takes tree s) :
      Spelled inner tree (.selection s)

theorem mapM_entry_eq_ok_iff {inner : Json → Except Fault Value} {members : List (String × Json)}
    {entries : List (String × Value)} :
    (members.mapM fun member => (inner member.2).map fun value => (member.1, value)) =
        .ok entries ↔
      List.Forall₂ (Binds fun tree item => inner tree = .ok item) members entries := by
  have binding : (fun member (entry : String × Value) =>
      ((inner member.2).map fun value => (member.1, value)) = .ok entry) =
        Binds fun tree item => inner tree = .ok item := by
    funext member entry
    rw [Success.map_eq_ok_iff]
    refine propext ⟨?_, ?_⟩
    · rintro ⟨value, ok, rfl⟩
      exact ⟨rfl, ok⟩
    · rintro ⟨same, ok⟩
      exact ⟨entry.2, ok, Prod.ext same rfl⟩
  rw [Success.mapM_eq_ok_iff, binding]

/-- What is read of the wrapped form, by the sentinel that stands there. -/
theorem ofTreeWithin_wrapped {depth : Nat} (w : Wrapping) {body : Json} :
    let wrapped := Document.ofTree (.object [(w.sentinel, body)])
    let inner := Decoder.tree (ofTreeWithin depth)
    ofTreeWithin (depth + 1) (.object [(w.sentinel, body)]) =
      match w with
      | .label => (Label.decode wrapped).map .label
      | .labelPath => (LabelPath.decode wrapped).map .labelPath
      | .provider => (Provider.decodeWith inner wrapped).map .provider
      | .globSet => (GlobSet.decode wrapped).map .globSet
      | .option => (TypeRef.decodeOption wrapped).map .option
      | .selection => (Selection.decodeWith inner wrapped).map .selection
      | .action => .error (.refused "actions cannot be used as values") := by
  simp only [ofTreeWithin, Wrapping.of?_wrapped]
  cases w <;> rfl

/-- The reader does one level and leaves the parts to itself. -/
theorem ofTreeWithin_succ_iff {depth : Nat} {tree : Json} {v : Value} :
    ofTreeWithin (depth + 1) tree = .ok v ↔ Spelled (ofTreeWithin depth) tree v := by
  constructor
  · intro read
    cases tree with
    | null => cases read; exact .null
    | bool b => cases read; exact .bool b
    | number n => cases read; exact .number n
    | string s => cases read; exact .string s
    | array trees =>
        rw [ofTreeWithin, Success.map_eq_ok_iff] at read
        rcases read with ⟨items, ok, rfl⟩
        exact .list (Success.mapM_eq_ok_iff.mp ok)
    | object members =>
        rw [ofTreeWithin] at read
        split at read
        · rcases Success.map_eq_ok_iff.mp read with ⟨_, takes, rfl⟩
          exact .label takes
        · rcases Success.map_eq_ok_iff.mp read with ⟨_, takes, rfl⟩
          exact .labelPath takes
        · rcases Success.map_eq_ok_iff.mp read with ⟨_, takes, rfl⟩
          exact .provider takes
        · rcases Success.map_eq_ok_iff.mp read with ⟨_, takes, rfl⟩
          exact .globSet takes
        · rcases Success.map_eq_ok_iff.mp read with ⟨_, takes, rfl⟩
          exact .option takes
        · rcases Success.map_eq_ok_iff.mp read with ⟨_, takes, rfl⟩
          exact .selection takes
        · cases read
        · next none =>
            rcases Success.map_eq_ok_iff.mp read with ⟨_, each, rfl⟩
            exact .map (Wrapping.of?_eq_none_iff.mp none) (mapM_entry_eq_ok_iff.mp each)
  · intro spelled
    cases spelled with
    | null | bool | number | string => rfl
    | list each =>
        rw [ofTreeWithin, Success.map_eq_ok_iff]
        exact ⟨_, Success.mapM_eq_ok_iff.mpr each, rfl⟩
    | map plain each =>
        simp only [ofTreeWithin, Wrapping.of?_eq_none_iff.mpr plain]
        exact Success.map_eq_ok_iff.mpr ⟨_, mapM_entry_eq_ok_iff.mpr each, rfl⟩
    | label takes =>
        rcases Label.decode_takes_iff.mp takes with ⟨rfl, _⟩
        exact (ofTreeWithin_wrapped .label).trans (Success.map_eq_ok_iff.mpr ⟨_, takes, rfl⟩)
    | labelPath takes =>
        rcases LabelPath.decode_takes_iff.mp takes with ⟨_, rfl, _⟩
        exact (ofTreeWithin_wrapped .labelPath).trans (Success.map_eq_ok_iff.mpr ⟨_, takes, rfl⟩)
    | provider takes =>
        rcases Decoder.sentinel_takes_iff.mp takes with ⟨_, rfl, _⟩
        exact (ofTreeWithin_wrapped .provider).trans (Success.map_eq_ok_iff.mpr ⟨_, takes, rfl⟩)
    | globSet takes =>
        rcases GlobSet.decode_takes_iff.mp takes with ⟨rfl, _⟩
        exact (ofTreeWithin_wrapped .globSet).trans (Success.map_eq_ok_iff.mpr ⟨_, takes, rfl⟩)
    | option takes =>
        rcases Decoder.sentinel_takes_iff.mp takes with ⟨_, rfl, _⟩
        exact (ofTreeWithin_wrapped .option).trans (Success.map_eq_ok_iff.mpr ⟨_, takes, rfl⟩)
    | selection takes =>
        rcases Decoder.sentinel_takes_iff.mp takes with ⟨_, rfl, _⟩
        exact (ofTreeWithin_wrapped .selection).trans (Success.map_eq_ok_iff.mpr ⟨_, takes, rfl⟩)

/-! ## What is written is read back -/

theorem encode_spelled {inner : Json → Except Fault Value} {v : Value} (fit : v.Fit)
    (trees : ∀ part ∈ v.parts, part.encode.Ordered)
    (read : ∀ part ∈ v.parts, inner part.encode = .ok part) : Spelled inner v.encode v := by
  have taken : ∀ part ∈ v.parts, (Decoder.tree inner).Takes part.encode part :=
    fun part member => (Decoder.tree_takes_iff (trees part member)).mpr (read part member)
  cases v with
  | null => exact .null
  | bool b => exact .bool b
  | number n => exact .number n
  | string s => exact .string s
  | list items =>
      rw [encode, encodeItems_eq_map]
      exact .list (List.forall₂_map_left_iff.mpr (List.forall₂_same.mpr read))
  | map entries =>
      rw [encode, encodeEntries_eq_map]
      refine .map (by rw [Dictionary.keys_map]; exact fit.2) ?_
      rw [List.forall₂_map_left_iff, List.forall₂_same]
      exact fun entry member => ⟨rfl, read entry.2 (List.mem_map_of_mem member)⟩
  | label l => exact .label (Label.decode_takes_iff.mpr ⟨rfl, fit⟩)
  | labelPath p => exact .labelPath (LabelPath.decode_takes_encode fit)
  | provider p => exact .provider (Provider.decodeWith_takes_encode fit.1 fit.2 taken)
  | option r => exact .option (TypeRef.decodeOption_takes_encode fit)
  | selection s =>
      refine .selection (Selection.decodeWith_takes_encode fit ?_ fun part member => ?_)
      · exact taken s.default List.mem_cons_self
      · exact taken part (List.mem_cons_of_mem _ member)
  | globSet set => exact .globSet (GlobSet.decode_takes_iff.mpr ⟨rfl, fit⟩)

theorem ofTreeWithin_encode {v : Value} (encodable : v.Encodable) {depth : Nat}
    (deep : v.encode.depth ≤ depth) : ofTreeWithin depth v.encode = .ok v := by
  induction v using induction_on_parts generalizing depth with
  | step v ih =>
      have positive := v.encode.depth_pos
      obtain ⟨below, rfl⟩ : ∃ below, depth = below + 1 := ⟨depth - 1, by omega⟩
      rw [ofTreeWithin_succ_iff]
      refine encode_spelled encodable.here (fun part member => ?_) fun part member => ?_
      · exact encode_ordered (encodable.part member)
      · have less := depth_encode_part member
        exact ih part member (encodable.part member) (by omega)

theorem ofTree_encode {v : Value} (encodable : v.Encodable) : ofTree v.encode = .ok v :=
  ofTreeWithin_encode encodable (Nat.le_refl _)

/-! ## What is read can be written -/

theorem encodable_of_binds {inner : Json → Except Fault Value} {members : List (String × Json)}
    (ordered : (Json.object members).Ordered)
    (below : ∀ tree v, tree.Ordered → inner tree = .ok v → v.Encodable)
    {entries : List (String × Value)}
    (each : List.Forall₂ (Binds fun tree item => inner tree = .ok item) members entries) :
    ∀ part ∈ entries.map Prod.snd, part.Encodable := by
  intro part member
  rcases List.mem_map.mp member with ⟨entry, known, rfl⟩
  rcases Success.exists_left_of_forall₂ each known with ⟨source, inMembers, _, read⟩
  exact below source.2 entry.2 (ordered.entry inMembers) read

theorem binds_of_tree {inner : Json → Except Fault Value} {members : List (String × Json)}
    (ordered : (Json.object members).Ordered) {entries : List (String × Value)}
    (each : List.Forall₂ (Binds (Decoder.tree inner).Takes) members entries) :
    List.Forall₂ (Binds fun tree item => inner tree = .ok item) members entries :=
  Success.forall₂_imp_of_mem each fun _ known _ _ binds =>
    ⟨binds.1, (Decoder.tree_takes_iff (ordered.entry known)).mp binds.2⟩

/-- Everything that is read at one level can be written, if this is so at the level below. -/
theorem Spelled.encodable {inner : Json → Except Fault Value} {tree : Json} {v : Value}
    (spelled : Spelled inner tree v) (ordered : tree.Ordered)
    (below : ∀ tree v, tree.Ordered → inner tree = .ok v → v.Encodable) : v.Encodable := by
  cases spelled with
  | null | bool | number | string => exact .leaf trivial rfl
  | list each =>
      refine .intro trivial fun part member => ?_
      rcases Success.exists_left_of_forall₂ each member with ⟨source, inTrees, read⟩
      exact below source part (ordered.item inTrees) read
  | map plain each =>
      have keys := Decoder.keys_eq_of_binds each
      refine .intro ⟨?_, keys ▸ plain⟩ (encodable_of_binds ordered below each)
      rw [Dictionary.Ordered, ← keys]
      exact ordered.keys
  | label takes => exact .leaf (Label.decode_takes_iff.mp takes).2 rfl
  | labelPath takes =>
      rcases LabelPath.decode_takes_iff.mp takes with ⟨text, _, rfl⟩
      exact .leaf (LabelPath.text_parse_ne text) rfl
  | provider takes =>
      rcases Provider.decodeWith_takes ordered takes
        with ⟨body, _, sound, ⟨_, none⟩ | ⟨members, _, inside, each⟩⟩
      · refine .intro ⟨sound, none ▸ Dictionary.ordered_nil⟩ fun part member => ?_
        simp [parts, none] at member
      · refine .intro ⟨sound, ?_⟩ (encodable_of_binds inside below (binds_of_tree inside each))
        rw [Dictionary.Ordered, ← Decoder.keys_eq_of_binds each]
        exact inside.keys
  | option takes => exact .leaf (TypeRef.wellFormed_of_takes_option ordered takes) rfl
  | selection takes =>
      rcases Selection.decodeWith_takes ordered takes
        with ⟨_, _, otherwise, _, _, each, _, inside, read⟩
      refine .intro (fun branch member => ?_) fun part member => ?_
      · rcases Success.exists_left_of_forall₂ each member with ⟨_, _, _, _, _, sound, _⟩
        exact sound
      · rcases List.mem_cons.mp member with rfl | inMapping
        · exact below _ _ inside ((Decoder.tree_takes_iff inside).mp read)
        · rcases List.mem_map.mp inMapping with ⟨branch, known, rfl⟩
          rcases Success.exists_left_of_forall₂ each known with ⟨_, _, _, value, _, _, inside, read⟩
          exact below _ _ inside ((Decoder.tree_takes_iff inside).mp read)
  | globSet takes => exact .leaf (GlobSet.decode_takes_iff.mp takes).2 rfl

theorem encodable_of_ofTreeWithin {depth : Nat} {tree : Json} (ordered : tree.Ordered) {v : Value}
    (read : ofTreeWithin depth tree = .ok v) : v.Encodable := by
  induction depth generalizing tree v with
  | zero => cases read
  | succ depth ih =>
      exact (ofTreeWithin_succ_iff.mp read).encodable ordered fun tree v inside read =>
        ih inside read

/-! ## Objects with a sentinel and another key -/

/-- The object has a sentinel among its keys, and another key. -/
def Mixed : Json → Prop
  | .object members => ∃ key ∈ Dictionary.keys members, key ∈ sentinels ∧
      ∃ other ∈ Dictionary.keys members, other ≠ key
  | _ => False

/-- The tree stands, at any depth, where a value is expected. In a provider these are its data, in a
selection its branches; what a record holds is told by its fields' names or, if the record is an
array, by their places. -/
inductive ExpectedIn (x : Json) : Json → Prop
  | here : ExpectedIn x x
  | item {items : List Json} {item : Json} (member : item ∈ items) (inside : ExpectedIn x item) :
      ExpectedIn x (.array items)
  | entry {members : List (String × Json)} {entry : String × Json}
      (plain : ∀ key ∈ Dictionary.keys members, key ∉ sentinels) (member : entry ∈ members)
      (inside : ExpectedIn x entry.2) : ExpectedIn x (.object members)
  | datum {body : Json} {data : List (String × Json)} {entry : String × Json}
      (field : body.part? "data" 2 = some (.object data)) (member : entry ∈ data)
      (inside : ExpectedIn x entry.2) : ExpectedIn x (.object [(Provider.sentinel, body)])
  | default {body tree : Json} (field : body.part? "default" 1 = some tree)
      (inside : ExpectedIn x tree) : ExpectedIn x (.object [(Selection.sentinel, body)])
  | branch {body option tree : Json} {branches : List Json}
      (field : body.part? "mapping" 0 = some (.array branches))
      (member : .array [option, tree] ∈ branches) (inside : ExpectedIn x tree) :
      ExpectedIn x (.object [(Selection.sentinel, body)])

/-- Nothing that is read is a mixed object. -/
theorem Spelled.not_mixed {inner : Json → Except Fault Value} {tree : Json} {v : Value}
    (spelled : Spelled inner tree v) : ¬ Mixed tree := by
  have single {name : String} {body : Json} : ¬ Mixed (.object [(name, body)]) := by
    rintro ⟨key, known, _, other, also, apart⟩
    simp only [Dictionary.keys_cons, Dictionary.keys_nil, List.mem_singleton] at known also
    exact apart (also.trans known.symm)
  cases spelled with
  | null | bool | number | string | list => exact id
  | map plain _ =>
      rintro ⟨key, known, isSentinel, _⟩
      exact plain key known isSentinel
  | label takes =>
      rcases Label.decode_takes_iff.mp takes with ⟨rfl, _⟩
      exact single
  | labelPath takes =>
      rcases LabelPath.decode_takes_iff.mp takes with ⟨_, rfl, _⟩
      exact single
  | globSet takes =>
      rcases GlobSet.decode_takes_iff.mp takes with ⟨rfl, _⟩
      exact single
  | provider takes | option takes | selection takes =>
      rcases Decoder.sentinel_takes_iff.mp takes with ⟨_, rfl, _⟩
      exact single

/-- No mixed object stands in a place of a value in anything that is read. -/
theorem not_mixed_of_read {x tree : Json} (expected : ExpectedIn x tree) {depth : Nat}
    (ordered : tree.Ordered) {v : Value} (read : ofTreeWithin depth tree = .ok v) : ¬ Mixed x := by
  induction expected generalizing depth v with
  | here =>
      cases depth with
      | zero => cases read
      | succ depth => exact (ofTreeWithin_succ_iff.mp read).not_mixed
  | item member _ ih =>
      cases depth with
      | zero => cases read
      | succ depth =>
          rw [ofTreeWithin, Success.map_eq_ok_iff] at read
          rcases read with ⟨_, each, _⟩
          rcases Success.exists_right_of_forall₂ (Success.mapM_eq_ok_iff.mp each) member
            with ⟨_, _, inside⟩
          exact ih (ordered.item member) inside
  | entry plain member _ ih =>
      cases depth with
      | zero => cases read
      | succ depth =>
          simp only [ofTreeWithin, Wrapping.of?_eq_none_iff.mpr plain] at read
          rcases Success.map_eq_ok_iff.mp read with ⟨_, each, _⟩
          rcases Success.exists_right_of_forall₂ (mapM_entry_eq_ok_iff.mp each) member
            with ⟨_, _, _, inside⟩
          exact ih (ordered.entry member) inside
  | datum field member _ ih =>
      cases depth with
      | zero => cases read
      | succ depth =>
          rcases Success.map_eq_ok_iff.mp ((ofTreeWithin_wrapped .provider).symm.trans read)
            with ⟨p, takes, _⟩
          rcases Provider.decodeWith_takes ordered takes with ⟨body, same, _, data⟩
          cases same
          rcases data with ⟨none, _⟩ | ⟨members, found, inside, each⟩
          · rw [none] at field
            cases field
          · rw [found] at field
            cases field
            rcases Success.exists_right_of_forall₂ (binds_of_tree inside each) member
              with ⟨_, _, _, read⟩
            exact ih (inside.entry member) read
  | default field _ ih =>
      cases depth with
      | zero => cases read
      | succ depth =>
          rcases Success.map_eq_ok_iff.mp ((ofTreeWithin_wrapped .selection).symm.trans read)
            with ⟨s, takes, _⟩
          rcases Selection.decodeWith_takes ordered takes
            with ⟨body, _, otherwise, same, _, _, found, inside, taken⟩
          cases same
          rw [found] at field
          cases field
          exact ih inside ((Decoder.tree_takes_iff inside).mp taken)
  | branch field member _ ih =>
      cases depth with
      | zero => cases read
      | succ depth =>
          rcases Success.map_eq_ok_iff.mp ((ofTreeWithin_wrapped .selection).symm.trans read)
            with ⟨s, takes, _⟩
          rcases Selection.decodeWith_takes ordered takes
            with ⟨body, branches, _, same, found, each, _, _, _⟩
          cases same
          rw [found] at field
          cases field
          rcases Success.exists_right_of_forall₂ each member
            with ⟨_, _, _, value, same, _, inside, taken⟩
          cases same
          exact ih inside ((Decoder.tree_takes_iff inside).mp taken)

/-- Reading undoes writing; what is read is exactly what can be written, and stays the same when it
is written and read once more; and a tree with a mixed object in a place of a value is not read. -/
theorem ofTree_encode_and_image :
    (∀ v : Value, v.Encodable → v.encode.Ordered ∧ ofTree v.encode = .ok v) ∧
    (∀ tree : Json, tree.Ordered → ∀ v, ofTree tree = .ok v →
      v.Encodable ∧ ofTree v.encode = .ok v) ∧
    ∀ tree x : Json, tree.Ordered → ExpectedIn x tree → Mixed x →
      ∃ fault, ofTree tree = .error fault := by
  refine ⟨fun v encodable => ?_, fun tree ordered v read => ?_,
    fun tree x ordered expected mixed => ?_⟩
  · exact ⟨encode_ordered encodable, ofTree_encode encodable⟩
  · have encodable := encodable_of_ofTreeWithin ordered read
    exact ⟨encodable, ofTree_encode encodable⟩
  · cases result : ofTree tree with
    | error fault => exact ⟨fault, rfl⟩
    | ok v => exact absurd mixed (not_mixed_of_read expected ordered result)

/-- A field of a provider may bear the name of a sentinel; a record may be an array; and a mixed
object is found inside the data of a provider. -/
theorem ofTree_encode_and_image_nested :
    let type : TypeRef := ⟨⟨"//p:f"⟩, "P"⟩
    let picked : Selection := ⟨[(type, .label ⟨"//p:t"⟩)], .labelPath ⟨"a/b"⟩⟩
    let v : Value := .map [("of", .provider ⟨type, [("$trellis_label", .selection picked)]⟩)]
    let listed : Json := .object [("$trellis_provider", .array [Label.encode ⟨"//p:f"⟩, .string "P"])]
    let mixed : Json := .object [("$trellis_label", .string "//p:t"), ("x", .null)]
    let holding : Json := .object
      [("$trellis_provider", .array
        [Label.encode ⟨"//p:f"⟩, .string "P", .object [("$trellis_label", mixed)]])]
    v.Encodable ∧ ofTree v.encode = .ok v ∧
    ofTree listed = .ok (.provider ⟨type, []⟩) ∧ (provider ⟨type, []⟩).Encodable ∧
    ExpectedIn mixed holding ∧ Mixed mixed ∧ ∃ fault, ofTree holding = .error fault := by
  intro type picked v listed mixed holding
  rcases ofTree_encode_and_image with ⟨written, read, refused⟩
  have branch : (label ⟨"//p:t"⟩).Encodable := .leaf (by decide) rfl
  have otherwise : (labelPath ⟨"a/b"⟩).Encodable := .leaf (by decide) rfl
  have selected : (selection picked).Encodable :=
    .intro (by decide) (List.forall_mem_cons.mpr ⟨otherwise, List.forall_mem_singleton.mpr branch⟩)
  have held : (provider ⟨type, [("$trellis_label", .selection picked)]⟩).Encodable :=
    .intro (by decide) (List.forall_mem_singleton.mpr selected)
  have encodable : v.Encodable := .intro (by decide) (List.forall_mem_singleton.mpr held)
  have ordered : listed.Ordered :=
    Json.ordered_wrapped (.array (by simp [Label.encode_ordered, Json.Ordered.string]))
  have readListed : ofTree listed = .ok (.provider ⟨type, []⟩) := by rfl
  have mixedOrdered : mixed.Ordered :=
    .object (by decide) (by simp [Json.Ordered.string, Json.Ordered.null])
  have holdingOrdered : holding.Ordered :=
    Json.ordered_wrapped (.array (by
      simp [Label.encode_ordered, Json.Ordered.string, Json.ordered_wrapped mixedOrdered]))
  have expected : ExpectedIn mixed holding :=
    .datum rfl (List.mem_singleton_self ("$trellis_label", mixed)) .here
  have isMixed : Mixed mixed :=
    ⟨"$trellis_label", by decide, by decide, "x", by decide, by decide⟩
  exact ⟨encodable, (written v encodable).2, readListed, (read listed ordered _ readListed).1,
    expected, isMixed, refused holding mixed holdingOrdered expected isMixed⟩

end Value

end RuleAnalysis
