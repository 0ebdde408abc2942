import RuleAnalysis.Proofs.Value.Parts
import RuleAnalysis.Proofs.Wire.Decoding
import RuleAnalysis.Value.Codec

namespace RuleAnalysis

/-!
# Values on the wire and back

Writing a value and reading the tree gives the value back, as long as the tree
does not say something else: no map may use a sentinel as a name, and labels,
label paths and patterns must be such as can be read. Conversely everything
that is read is such a value. An object with a sentinel and another key is
never read, wherever it stands in the place of a value.
-/

open Decoder (Takes Binds)

/-! ## Addresses, paths and patterns -/

theorem Label.decode_takes_iff {tree : Json} {l : Label} :
    Label.decode.Takes tree l ↔ tree = l.encode ∧ l.WellFormed := by
  have read : Label.decode.Takes tree l ↔ ∃ text : String,
      (Decoder.sentinel sentinel Decoder.string).Takes tree text ∧
        Decoder.refusing LabelError.message (parse text) = .ok l := Success.bind_eq_ok_iff
  rw [read]
  simp only [Decoder.refusing_eq_ok_iff, parse_eq_ok_iff, Decoder.sentinel_takes_iff,
    Decoder.string_takes_iff, encode]
  constructor
  · rintro ⟨text, ⟨_, rfl, rfl⟩, clean, rfl⟩
    exact ⟨rfl, clean⟩
  · rintro ⟨rfl, clean⟩
    exact ⟨l.text, ⟨_, rfl, rfl⟩, clean, rfl⟩

namespace LabelPath

theorem parse_text_of_ne {p : LabelPath} (plain : p.text ≠ ".") : parse p.text = p := by
  rw [parse, if_neg plain]

/-- A path that has been read is not written as a single dot. -/
theorem text_parse_ne (text : String) : (parse text).text ≠ "." := by
  by_cases dot : text = "."
  · rw [parse, if_pos dot]
    decide
  · rw [parse, if_neg dot]
    exact dot

theorem decode_takes_iff {tree : Json} {p : LabelPath} :
    decode.Takes tree p ↔ ∃ text, tree = .object [(sentinel, .string text)] ∧ parse text = p := by
  have read : decode.Takes tree p ↔ ∃ text : String,
      (Decoder.sentinel sentinel Decoder.string).Takes tree text ∧ parse text = p :=
    Success.map_eq_ok_iff
  rw [read]
  simp only [Decoder.sentinel_takes_iff, Decoder.string_takes_iff]
  constructor
  · rintro ⟨text, ⟨_, rfl, rfl⟩, same⟩
    exact ⟨text, rfl, same⟩
  · rintro ⟨text, rfl, same⟩
    exact ⟨text, ⟨_, rfl, rfl⟩, same⟩

theorem decode_takes_encode {p : LabelPath} (plain : p.text ≠ ".") : decode.Takes p.encode p :=
  decode_takes_iff.mpr ⟨p.text, rfl, parse_text_of_ne plain⟩

end LabelPath

namespace GlobSet

/-- Every pattern of the set can be read. -/
def WellFormed (set : GlobSet) : Prop := parse set.patterns = .ok set

instance (set : GlobSet) : Decidable set.WellFormed :=
  match read : parse set.patterns with
  | .error _ => isFalse (by simp [WellFormed, read])
  | .ok other => decidable_of_iff (other = set) (by simp [WellFormed, read])

theorem parse_eq_ok_iff {patterns : List String} {set : GlobSet} :
    parse patterns = .ok set ↔ set.WellFormed ∧ set.patterns = patterns := by
  have kept : parse patterns = .ok set → set.patterns = patterns := by
    intro read
    unfold parse at read
    split at read
    · cases read
    · cases read; rfl
  constructor
  · intro read
    exact ⟨by rw [WellFormed, kept read, read], kept read⟩
  · rintro ⟨sound, rfl⟩
    exact sound

theorem decode_takes_iff {tree : Json} {set : GlobSet} :
    decode.Takes tree set ↔ tree = set.encode ∧ set.WellFormed := by
  have read : decode.Takes tree set ↔ ∃ patterns : List String,
      (Decoder.sentinel sentinel (Decoder.list Decoder.string)).Takes tree patterns ∧
        Decoder.refusing LabelError.message (parse patterns) = .ok set := Success.bind_eq_ok_iff
  rw [read]
  simp only [Decoder.refusing_eq_ok_iff, parse_eq_ok_iff, Decoder.sentinel_takes_iff,
    Decoder.list_takes_iff, Decoder.forall₂_string_takes_iff, encode]
  constructor
  · rintro ⟨patterns, ⟨_, rfl, _, rfl, rfl⟩, sound, rfl⟩
    exact ⟨rfl, sound⟩
  · rintro ⟨rfl, sound⟩
    exact ⟨set.patterns, ⟨_, rfl, _, rfl, rfl⟩, sound, rfl⟩

end GlobSet

/-! ## Options -/

namespace TypeRef

def WellFormed (r : TypeRef) : Prop := r.sourceLabel.WellFormed

instance (r : TypeRef) : Decidable r.WellFormed :=
  inferInstanceAs (Decidable r.sourceLabel.WellFormed)

theorem decode_takes_encode {r : TypeRef} (sound : r.WellFormed) : decode.Takes r.encode r :=
  Decoder.record_takes_object (by decide) (by simp)
    ⟨r.sourceLabel, Label.decode_takes_iff.mpr ⟨rfl, sound⟩, r.qualifiedName, rfl, rfl⟩

theorem wellFormed_of_takes {tree : Json} (ordered : tree.Ordered) {r : TypeRef}
    (takes : decode.Takes tree r) : r.WellFormed := by
  rcases Decoder.filled_of_record_takes (by decide) ordered takes
    with ⟨l, gives, name, _, rfl⟩
  rcases Decoder.Presence.gives_required_iff.mp gives with ⟨source, _, takes⟩
  exact (Label.decode_takes_iff.mp takes).2

theorem decodeOption_takes_encode {r : TypeRef} (sound : r.WellFormed) :
    decodeOption.Takes r.encodeOption r :=
  Decoder.sentinel_takes_iff.mpr ⟨_, rfl, decode_takes_encode sound⟩

theorem wellFormed_of_takes_option {tree : Json} (ordered : tree.Ordered) {r : TypeRef}
    (takes : decodeOption.Takes tree r) : r.WellFormed := by
  rcases Decoder.sentinel_takes_iff.mp takes with ⟨body, rfl, inside⟩
  exact wellFormed_of_takes ordered.body inside

end TypeRef

namespace Value

/-! ## Sentinels -/

/-- The keys that no map may use. -/
def sentinels : List String := Wrapping.all.map Wrapping.sentinel

namespace Wrapping

theorem of?_eq_none_iff {members : List (String × Json)} :
    of? members = none ↔ ∀ key ∈ Dictionary.keys members, key ∉ sentinels := by
  simp only [of?, List.find?_eq_none, List.any_eq_true, decide_eq_true_eq, Dictionary.keys,
    sentinels, List.mem_map]
  constructor
  · rintro none _ ⟨member, known, rfl⟩ ⟨w, listed, same⟩
    exact none w listed ⟨member, known, same.symm⟩
  · rintro plain w listed ⟨member, known, same⟩
    exact plain member.1 ⟨member, known, rfl⟩ ⟨w, listed, same.symm⟩

theorem of?_wrapped (w : Wrapping) (body : Json) : of? [(w.sentinel, body)] = some w := by
  cases w <;> rfl

end Wrapping

/-! ## Values that can be written -/

/-- What a value needs, beside its parts, for being read back as it is. -/
def Fit : Value → Prop
  | map entries =>
      Dictionary.Ordered entries ∧ ∀ key ∈ Dictionary.keys entries, key ∉ sentinels
  | label l => l.WellFormed
  | labelPath p => p.text ≠ "."
  | provider p => p.reference.WellFormed ∧ Dictionary.Ordered p.data
  | option r => r.WellFormed
  | selection s => ∀ branch ∈ s.mapping, branch.1.WellFormed
  | globSet set => set.WellFormed
  | _ => True

instance : DecidablePred Fit
  | map entries => inferInstanceAs
      (Decidable (Dictionary.Ordered entries ∧ ∀ key ∈ Dictionary.keys entries, key ∉ sentinels))
  | label l => inferInstanceAs (Decidable l.WellFormed)
  | labelPath p => inferInstanceAs (Decidable (p.text ≠ "."))
  | provider p => inferInstanceAs
      (Decidable (p.reference.WellFormed ∧ Dictionary.Ordered p.data))
  | option r => inferInstanceAs (Decidable r.WellFormed)
  | selection s => inferInstanceAs (Decidable (∀ branch ∈ s.mapping, branch.1.WellFormed))
  | globSet set => inferInstanceAs (Decidable set.WellFormed)
  | null | bool _ | number _ | string _ | list _ => inferInstanceAs (Decidable True)

/-- Labels and patterns in the value can be read, label paths are not a single dot, names are in
order, and no map has a sentinel among its names. -/
def Encodable (v : Value) : Prop := v.Every Fit

/-! ## The tree of a value -/

theorem encodeItems_eq_map (items : List Value) : encodeItems items = items.map encode := by
  induction items with
  | nil => rfl
  | cons item rest ih => rw [encodeItems, ih, List.map_cons]

theorem encodeEntries_eq_map (entries : List (String × Value)) :
    encodeEntries entries = entries.map fun entry => (entry.1, entry.2.encode) := by
  induction entries with
  | nil => rfl
  | cons entry rest ih => rw [encodeEntries, ih, List.map_cons]

theorem encodeBranches_eq_map (mapping : List (TypeRef × Value)) :
    encodeBranches mapping =
      mapping.map fun branch => .array [branch.1.encodeOption, branch.2.encode] := by
  induction mapping with
  | nil => rfl
  | cons branch rest ih => rw [encodeBranches, ih, List.map_cons]

end Value

theorem Provider.encode_eq (p : Provider) :
    p.encode = .object [(sentinel, .object
      [("data", .object (Value.encodeEntries p.data)),
        ("qualname", .string p.reference.qualifiedName),
        ("source_label", p.reference.sourceLabel.encode)])] := by
  cases p
  rfl

theorem Selection.encode_eq (s : Selection) :
    s.encode = .object [(sentinel, .object
      [("default", s.default.encode), ("mapping", .array (Value.encodeBranches s.mapping))])] := by
  cases s
  rfl

theorem Label.encode_ordered (l : Label) : l.encode.Ordered :=
  Json.ordered_wrapped (.string _)

theorem LabelPath.encode_ordered (p : LabelPath) : p.encode.Ordered :=
  Json.ordered_wrapped (.string _)

theorem GlobSet.encode_ordered (set : GlobSet) : set.encode.Ordered := by
  refine Json.ordered_wrapped (.array fun item member => ?_)
  rcases List.mem_map.mp member with ⟨pattern, _, rfl⟩
  exact .string pattern

theorem TypeRef.encode_ordered (r : TypeRef) : r.encode.Ordered :=
  .object (Dictionary.ordered_of_keys ["qualname", "source_label"] rfl (by decide))
    (by simp [Json.Ordered.string, r.sourceLabel.encode_ordered])

theorem TypeRef.encodeOption_ordered (r : TypeRef) : r.encodeOption.Ordered :=
  Json.ordered_wrapped r.encode_ordered

namespace Value

theorem encodeEntries_ordered {entries : List (String × Value)}
    (order : Dictionary.Ordered entries)
    (trees : ∀ part ∈ entries.map Prod.snd, part.encode.Ordered) :
    (Json.object (encodeEntries entries)).Ordered := by
  rw [encodeEntries_eq_map]
  refine .object ((Dictionary.ordered_map_iff encode).mpr order) fun member listed => ?_
  rcases List.mem_map.mp listed with ⟨entry, known, rfl⟩
  exact trees entry.2 (List.mem_map_of_mem known)

/-- A value that can be written has an ordered tree. -/
theorem encode_ordered {v : Value} (encodable : v.Encodable) : v.encode.Ordered := by
  induction v using induction_on_parts with
  | step v ih =>
      have fit := encodable.here
      have trees : ∀ part ∈ v.parts, part.encode.Ordered := fun part member =>
        ih part member (encodable.part member)
      cases v with
      | null => exact .null
      | bool b => exact .bool b
      | number n => exact .number n
      | string s => exact .string s
      | list items =>
          rw [encode, encodeItems_eq_map]
          refine .array fun tree listed => ?_
          rcases List.mem_map.mp listed with ⟨item, known, rfl⟩
          exact trees item known
      | map entries => exact encodeEntries_ordered fit.1 trees
      | label l => exact l.encode_ordered
      | labelPath path => exact path.encode_ordered
      | provider p =>
          have data : (Json.object (encodeEntries p.data)).Ordered :=
            encodeEntries_ordered fit.2 trees
          rw [encode, p.encode_eq]
          refine Json.ordered_wrapped <| .object
            (Dictionary.ordered_of_keys ["data", "qualname", "source_label"] rfl (by decide)) ?_
          simp [data, Json.Ordered.string, p.reference.sourceLabel.encode_ordered]
      | option r => exact r.encodeOption_ordered
      | selection s =>
          have branches : (Json.array (encodeBranches s.mapping)).Ordered := by
            rw [encodeBranches_eq_map]
            refine .array fun tree listed => ?_
            rcases List.mem_map.mp listed with ⟨branch, known, rfl⟩
            have inside := trees branch.2 (List.mem_cons_of_mem _ (List.mem_map_of_mem known))
            exact .array (by simp [inside, branch.1.encodeOption_ordered])
          rw [encode, s.encode_eq]
          refine Json.ordered_wrapped <| .object
            (Dictionary.ordered_of_keys ["default", "mapping"] rfl (by decide)) ?_
          simp [branches, trees s.default List.mem_cons_self]
      | globSet set => exact set.encode_ordered

end Value

/-! ## How deep a tree is -/

namespace Json

theorem depth_le_of_mem_items {items : List Json} {item : Json} (member : item ∈ items) :
    item.depth ≤ depthItems items := by
  induction items with
  | nil => cases member
  | cons first rest ih =>
      rw [depthItems]
      rcases List.mem_cons.mp member with rfl | later
      · exact Nat.le_max_left _ _
      · exact Nat.le_trans (ih later) (Nat.le_max_right _ _)

theorem depth_le_of_mem_members {members : List (String × Json)} {entry : String × Json}
    (member : entry ∈ members) : entry.2.depth ≤ depthMembers members := by
  induction members with
  | nil => cases member
  | cons first rest ih =>
      rw [depthMembers]
      rcases List.mem_cons.mp member with rfl | later
      · exact Nat.le_max_left _ _
      · exact Nat.le_trans (ih later) (Nat.le_max_right _ _)

theorem depth_lt_array {items : List Json} {item : Json} (member : item ∈ items) :
    item.depth < (array items).depth :=
  Nat.lt_succ_of_le (depth_le_of_mem_items member)

theorem depth_lt_object {members : List (String × Json)} (entry : String × Json)
    (member : entry ∈ members) : entry.2.depth < (object members).depth :=
  Nat.lt_succ_of_le (depth_le_of_mem_members member)

theorem depth_pos (tree : Json) : 0 < tree.depth := by
  cases tree <;> simp [depth]

end Json

namespace Value

theorem depth_lt_encodeEntries (entries : List (String × Value)) {part : Value}
    (member : part ∈ entries.map Prod.snd) :
    part.encode.depth < (Json.object (encodeEntries entries)).depth := by
  rcases List.mem_map.mp member with ⟨entry, known, rfl⟩
  rw [encodeEntries_eq_map]
  exact Json.depth_lt_object (entry.1, entry.2.encode) (List.mem_map_of_mem known)

/-- What a value is made of is written less deep than the value. -/
theorem depth_encode_part {v part : Value} (member : part ∈ v.parts) :
    part.encode.depth < v.encode.depth := by
  cases v with
  | list items =>
      rw [encode, encodeItems_eq_map]
      exact Json.depth_lt_array (List.mem_map_of_mem member)
  | map entries => exact depth_lt_encodeEntries entries member
  | provider p =>
      have inData := depth_lt_encodeEntries p.data member
      rw [encode, p.encode_eq]
      simp only [Json.depth, Json.depthMembers] at inData ⊢
      omega
  | selection s =>
      rw [encode, s.encode_eq, encodeBranches_eq_map]
      simp only [Json.depth, Json.depthMembers]
      rcases List.mem_cons.mp member with rfl | branch
      · omega
      · rcases List.mem_map.mp branch with ⟨pair, known, rfl⟩
        have inPair : pair.2.encode.depth <
            (Json.array [pair.1.encodeOption, pair.2.encode]).depth :=
          Json.depth_lt_array (by simp)
        have inBranches := Json.depth_le_of_mem_items
          (List.mem_map_of_mem (f := fun branch : TypeRef × Value =>
            Json.array [branch.1.encodeOption, branch.2.encode]) known)
        omega
  | _ => cases member

end Value

end RuleAnalysis
