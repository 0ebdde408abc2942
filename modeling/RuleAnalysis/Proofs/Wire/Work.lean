import RuleAnalysis.Action.Basic
import RuleAnalysis.Proofs.Value.Shapes
import RuleAnalysis.Proofs.Wire.ValueCodec

namespace RuleAnalysis

/-!
# The work of actions on the wire and back

What an action does is written as an object with a tag, and what it is made of
as records, tagged or untagged alternatives and providers. Each kind of data is
read back as it was written, if its labels and values can be.
-/

open Decoder (Takes)

/-! ## Values and providers -/

theorem Value.decode_takes_encode {v : Value} (encodable : v.Encodable) :
    Value.decode.Takes v.encode v :=
  (Decoder.tree_takes_iff (encode_ordered encodable)).mpr (ofTree_encode encodable)

namespace Provider

/-- The provider can be written as a value. -/
def Encodable (p : Provider) : Prop := (Value.provider p).Encodable

theorem decode_takes_encode {p : Provider} (encodable : p.Encodable) :
    decode.Takes p.encode p := by
  have fit : (Value.provider p).Fit := encodable.here
  refine decodeWith_takes_encode fit.1 fit.2 fun part member => ?_
  exact Value.decode_takes_encode (encodable.part member)

theorem encode_ne_null (p : Provider) : p.encode ≠ .null := by
  rw [p.encode_eq]
  exact nofun

end Provider

/-! ## Executables -/

namespace Executable

def Encodable (e : Executable) : Prop := ∀ l ∈ e.context, l.WellFormed

/-- What is in the provider of an executable: texts, lists of texts and at most one label. -/
theorem toProvider_every {P : Value → Prop} {e : Executable} (here : P (.provider e.toProvider))
    (null : P .null) (string : ∀ text, P (.string text)) (list : ∀ items, P (.list items))
    (label : ∀ l ∈ e.context, P (.label l)) : (Value.provider e.toProvider).Every P := by
  have context : ((e.context.map Value.label).getD .null).Every P := by
    cases present : e.context with
    | none => exact .leaf null rfl
    | some l => exact .leaf (label l present) rfl
  have name : (Value.ofOption e.name).Every P := by
    cases e.name with
    | none => exact .leaf null rfl
    | some text => exact .leaf (string text) rfl
  have strings (texts : List String) : (Value.strings texts).Every P := by
    refine .intro (list _) fun part member => ?_
    rcases List.mem_map.mp member with ⟨text, _, rfl⟩
    exact .leaf (string text) rfl
  refine .intro here ?_
  simp only [Value.parts, toProvider, List.map_cons, List.map_nil, List.forall_mem_cons]
  exact ⟨context, .leaf (string _) rfl, strings _, name, strings _, List.forall_mem_nil _⟩

theorem toProvider_encodable {e : Executable} (sound : e.Encodable) : e.toProvider.Encodable := by
  have builtin : reference.WellFormed := by decide
  have order : Dictionary.Ordered e.toProvider.data :=
    Dictionary.ordered_of_keys
      ["context", "executable_path", "library_search_paths", "name", "search_paths"] rfl (by decide)
  exact toProvider_every ⟨builtin, order⟩ trivial (fun _ => trivial) (fun _ => trivial) sound

/-- An executable is found again in the provider as which it travels. -/
theorem ofProvider_toProvider (e : Executable) : ofProvider e.toProvider = .ok e := by
  have type : checkType e.toProvider reference = .ok () := if_pos (decide_eq_true rfl)
  have name : Reader.string.optional.read? (.ofOption e.name) = some e.name := by
    cases e.name <;> rfl
  have context : Reader.label.optional.read? ((e.context.map .label).getD .null) =
      some e.context := by
    cases e.context <;> rfl
  have texts (items : List String) :
      Reader.string.list.optional.read? (.strings items) = some (some items) :=
    Option.map_eq_some_iff.mpr ⟨items, Reader.list_read?_map (fun _ => rfl) items, rfl⟩
  simp only [ofProvider, Success.bind_eq_ok_iff, Provider.field_eq_ok_iff]
  exact ⟨(), type, e.name, ⟨_, rfl, name⟩, e.context, ⟨_, rfl, context⟩,
    e.path, ⟨_, rfl, rfl⟩, some e.searchPaths, ⟨_, rfl, texts _⟩,
    some e.librarySearchPaths, ⟨_, rfl, texts _⟩, rfl⟩

theorem decode_takes_encode {e : Executable} (sound : e.Encodable) : decode.Takes e.encode e := by
  refine Success.bind_eq_ok_iff.mpr
    ⟨e.toProvider, Provider.decode_takes_encode (toProvider_encodable sound), ?_⟩
  rw [ofProvider_toProvider]
  rfl

end Executable

/-! ## Arguments -/

theorem Label.encode_ne_null (l : Label) : l.encode ≠ .null := nofun

namespace Argument

/-- The label in the argument, if it has one, can be read. -/
def Encodable : Argument → Prop
  | literal _ => True
  | templated _ source => source.WellFormed
  | respfile _ source => source.WellFormed
  | label l => l.WellFormed

theorem decodeTemplate_takes_iff {sentinel : String} (differs : sentinel ≠ "source")
    {build : String → Label → Argument} {members : List (String × Json)}
    (once : (Dictionary.keys members).Nodup) {a : Argument} :
    (decodeTemplate sentinel build).Takes (.object members) a ↔
      ∃ template source, members.lookup sentinel = some (.string template) ∧
        members.lookup "source" = some source.encode ∧ source.WellFormed ∧
        build template source = a := by
  rw [Takes, Document.ofTree_object, decodeTemplate]
  refine (Decoder.members_eq_ok_iff (by simpa [Decoder.Fields.names] using differs) once).trans ?_
  simp only [Decoder.Fields.Filled, Decoder.Presence.gives_required_iff, Decoder.string_takes_iff,
    Label.decode_takes_iff]
  constructor
  · rintro ⟨template, ⟨_, first, rfl⟩, source, ⟨_, second, rfl, sound⟩, same⟩
    exact ⟨template, source, first, second, sound, same⟩
  · rintro ⟨template, source, first, second, sound, same⟩
    exact ⟨template, ⟨_, first, rfl⟩, source, ⟨_, second, rfl, sound⟩, same⟩

/-- The forms of arguments in the order in which they are tried. -/
def forms : List (Decoder Argument) :=
  [fun d => (Decoder.string d).map literal, decodeTemplate templatedSentinel templated,
    decodeTemplate respfileSentinel respfile, fun d => (Label.decode d).map label]

theorem decode_eq : decode = Decoder.firstOf forms := by
  funext d
  simp only [decode, Decoder.firstOf, forms]
  generalize List.findSome? _ _ = found
  cases found <;> rfl

theorem not_literal_of_object {members : List (String × Json)} {b : Argument} :
    ¬ Takes (fun d => (Decoder.string d).map literal) (.object members) b := nofun

/-- No form takes what another one writes: they differ in their sentinels. -/
theorem decode_takes_encode {a : Argument} (sound : a.Encodable) : decode.Takes a.encode a := by
  rw [decode_eq]
  cases a with
  | literal text => exact Decoder.firstOf_takes [] _ nofun rfl
  | templated template source =>
      refine Decoder.firstOf_takes [_] _ ?_ ?_
      · exact List.forall_mem_singleton.mpr fun b => not_literal_of_object
      · exact (decodeTemplate_takes_iff (by decide) (by simp [templatedSentinel])).mpr
          ⟨template, source, rfl, rfl, sound, rfl⟩
  | respfile template source =>
      refine Decoder.firstOf_takes [_, _] _ ?_ ?_
      · refine List.forall_mem_cons.mpr ⟨fun b => not_literal_of_object,
          List.forall_mem_singleton.mpr fun b takes => ?_⟩
        rcases (decodeTemplate_takes_iff (by decide) (by simp [respfileSentinel])).mp takes
          with ⟨_, _, impossible, _⟩
        cases impossible
      · exact (decodeTemplate_takes_iff (by decide) (by simp [respfileSentinel])).mpr
          ⟨template, source, rfl, rfl, sound, rfl⟩
  | label l =>
      refine Decoder.firstOf_takes [_, _, _] _ ?_ ?_
      · refine List.forall_mem_cons.mpr ⟨fun b => not_literal_of_object,
          List.forall_mem_cons.mpr ⟨fun b takes => ?_, List.forall_mem_singleton.mpr fun b takes => ?_⟩⟩
        all_goals
          rcases (decodeTemplate_takes_iff (by decide) (by simp [Label.sentinel])).mp takes
            with ⟨_, _, impossible, _⟩
          cases impossible
      · exact Success.map_eq_ok_iff.mpr ⟨l, Label.decode_takes_iff.mpr ⟨rfl, sound⟩, rfl⟩

end Argument

/-! ## Entries of depmaps -/

namespace DepmapEntry

def Encodable : DepmapEntry → Prop
  | reference target => target.WellFormed
  | filter base under _ => base.WellFormed ∧ under.text ≠ "."
  | _ => True

theorem decode_takes_encode {entry : DepmapEntry} (sound : entry.Encodable) (nested : Bool) :
    (decode nested).Takes entry.encode entry := by
  cases entry with
  | reference target =>
      refine Decoder.variant_takes_iff.mpr ⟨_, rfl, Success.map_eq_ok_iff.mpr ?_⟩
      exact ⟨target, Label.decode_takes_iff.mpr ⟨rfl, sound⟩, rfl⟩
  | directory => exact Decoder.variant_takes_iff.mpr ⟨_, rfl, rfl⟩
  | file content executable =>
      refine Decoder.variant_takes_iff.mpr ⟨_, rfl, ?_⟩
      exact Decoder.record_takes_object (by decide) (by simp)
        ⟨content, rfl, executable, rfl, rfl⟩
  | symlink target =>
      refine Decoder.variant_takes_iff.mpr ⟨_, rfl, ?_⟩
      exact Decoder.record_takes_object (by decide) (by simp) ⟨target, rfl, rfl⟩
  | filter base under patterns =>
      refine Decoder.variant_takes_iff.mpr ⟨_, rfl, ?_⟩
      exact Decoder.record_takes_object (by decide) (by simp)
        ⟨base, Label.decode_takes_iff.mpr ⟨rfl, sound.1⟩,
          under, LabelPath.decode_takes_encode sound.2,
          patterns, Decoder.list_takes fun _ _ => rfl, rfl⟩

end DepmapEntry

/-! ## Options and messages -/

namespace BuildConfig

def OptionsEncodable (options : List (TypeRef × TypeRef)) : Prop :=
  ∀ entry ∈ options, entry.1.WellFormed ∧ entry.2.WellFormed

def Encodable (c : BuildConfig) : Prop :=
  OptionsEncodable c.options ∧ OptionsEncodable c.hostOptions

theorem decodeOptions_takes_encode {options : List (TypeRef × TypeRef)}
    (sound : OptionsEncodable options) : decodeOptions.Takes (encodeOptions options) options := by
  refine Decoder.list_takes fun entry member => ?_
  exact Decoder.pair_takes_iff.mpr ⟨_, _, rfl,
    TypeRef.decode_takes_encode (sound entry member).1,
    TypeRef.decode_takes_encode (sound entry member).2⟩

theorem decode_takes_encode {c : BuildConfig} (sound : c.Encodable) : decode.Takes c.encode c :=
  Decoder.record_takes_object (by decide) (by simp)
    ⟨c.options, decodeOptions_takes_encode sound.1,
      c.hostOptions, decodeOptions_takes_encode sound.2, rfl⟩

end BuildConfig

namespace StructuredMessages

theorem decode_takes_encode {s : StructuredMessages} (ordered : s.levelMap.Ordered) :
    decode.Takes s.encode s :=
  Decoder.record_takes_object (by decide) (by simp)
    ⟨s.levelMap, Decoder.dictionary_takes_map ordered fun _ _ => rfl,
      s.humanMessages, Decoder.list_takes fun _ _ => rfl, rfl⟩

end StructuredMessages

end RuleAnalysis
