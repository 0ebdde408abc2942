import RuleAnalysis.Proofs.Wire.Work

namespace RuleAnalysis

/-!
# Actions on the wire and back

An action is written as one object in which its texts stand among the members
that describe its work. Reading sorts them out again. Since the id is written
whether or not the rule has chosen it, the action that is read has it as a
chosen id; it agrees with the action that was written.
-/

open Decoder (Takes)

/-! ## Work -/

structure Run.Encodable (r : Run) : Prop where
  executable : r.executable.Encodable
  arguments : ∀ a ∈ r.arguments, a.Encodable
  input : ∀ l ∈ r.input, l.WellFormed
  environment : r.environment.Ordered
  environmentFiles : ∀ l ∈ r.environmentFiles, l.WellFormed
  platform : ∀ p ∈ r.platform, p.Encodable
  structuredMessages : ∀ s ∈ r.structuredMessages, s.levelMap.Ordered

namespace ActionData

def Encodable : ActionData → Prop
  | run r => r.Encodable
  | extract archive _ => archive.WellFormed
  | buildDepmap entries => ∀ entry ∈ entries, entry.1.text ≠ "." ∧ entry.2.Encodable
  | transition t => t.label.WellFormed ∧ BuildConfig.OptionsEncodable t.changedOptions
  | _ => True

theorem members_ordered (data : ActionData) : Dictionary.Ordered data.members := by
  cases data <;>
    simp only [Dictionary.Ordered, members, Dictionary.keys_cons, Dictionary.keys_nil] <;> decide

/-- The members behind the tag. -/
def untagged (data : ActionData) : List (String × Json) := data.members.tail

theorem members_eq (data : ActionData) :
    data.members = (tag, .string data.kind) :: data.untagged := by
  cases data <;> rfl

theorem once_tagged (data : ActionData) :
    tag ∉ Dictionary.keys data.untagged ∧ (Dictionary.keys data.untagged).Nodup := by
  have once := data.members_ordered.nodup
  rwa [members_eq, Dictionary.keys_cons, List.nodup_cons] at once

theorem filter_members (data : ActionData) :
    (data.members.filter fun entry => entry.1 ≠ tag) = data.untagged := by
  rw [members_eq, List.filter_cons_of_neg (by simp), List.filter_eq_self]
  intro entry member
  have known : entry.1 ∈ Dictionary.keys data.untagged := Dictionary.mem_keys_of_mem member
  have apart : entry.1 ≠ tag := fun same => data.once_tagged.1 (same ▸ known)
  simpa using apart

theorem strings_takes (texts : List String) :
    (Decoder.list Decoder.string).Takes (.array (texts.map .string)) texts :=
  Decoder.list_takes fun _ _ => rfl

theorem optional_string_takes (text : Option String) :
    (Decoder.nullable Decoder.string).Takes (.ofOption .string text) text :=
  Decoder.nullable_takes_ofOption nofun fun _ _ => rfl

/-- What stands beside the tag is read as work of the tag's kind. -/
theorem body_takes_untagged {data : ActionData} (sound : data.Encodable) :
    ∃ read, body? data.kind = some read ∧ read.Takes (.object data.untagged) data := by
  cases data with
  | run r =>
      refine ⟨_, rfl, Success.map_eq_ok_iff.mpr ⟨r, ?_, rfl⟩⟩
      exact Decoder.record_takes_object (by decide) (once_tagged _).2
        ⟨r.executable, Executable.decode_takes_encode sound.executable,
          r.arguments, Decoder.list_takes fun a member =>
            Argument.decode_takes_encode (sound.arguments a member),
          r.input, Decoder.nullable_takes_ofOption Label.encode_ne_null fun l member =>
            Label.decode_takes_iff.mpr ⟨rfl, sound.input l member⟩,
          r.workingDirectory, optional_string_takes _,
          r.environment, Decoder.dictionary_takes_map sound.environment fun _ _ => rfl,
          r.environmentFiles, Decoder.list_takes fun l member =>
            Label.decode_takes_iff.mpr ⟨rfl, sound.environmentFiles l member⟩,
          r.platform, Decoder.nullable_takes_ofOption Provider.encode_ne_null fun p member =>
            Provider.decode_takes_encode (sound.platform p member),
          r.hideStdout, rfl, r.hideStderr, rfl,
          r.structuredMessages, Decoder.nullable_takes_ofOption nofun fun s member =>
            StructuredMessages.decode_takes_encode (sound.structuredMessages s member),
          rfl⟩
  | download d =>
      refine ⟨_, rfl, Success.map_eq_ok_iff.mpr ⟨d, ?_, rfl⟩⟩
      exact Decoder.record_takes_object (by decide) (once_tagged _).2
        ⟨d.urls, strings_takes _, d.hash, optional_string_takes _,
          d.filename, optional_string_takes _, d.executable, rfl, d.userAgent, rfl, rfl⟩
  | gitClone url revision =>
      exact ⟨_, rfl, Decoder.record_takes_object (by decide) (once_tagged _).2
        ⟨url, rfl, revision, rfl, rfl⟩⟩
  | dockerDownload image architecture =>
      exact ⟨_, rfl, Decoder.record_takes_object (by decide) (once_tagged _).2
        ⟨image, rfl, architecture, rfl, rfl⟩⟩
  | extract archive stripPrefix =>
      exact ⟨_, rfl, Decoder.record_takes_object (by decide) (once_tagged _).2
        ⟨archive, Label.decode_takes_iff.mpr ⟨rfl, sound⟩,
          stripPrefix, optional_string_takes _, rfl⟩⟩
  | buildDepmap entries =>
      refine ⟨_, rfl, Decoder.record_takes_object (by decide) (once_tagged _).2 ⟨entries, ?_, rfl⟩⟩
      refine Decoder.list_takes fun entry member => ?_
      exact Decoder.pair_takes_iff.mpr ⟨_, _, rfl,
        LabelPath.decode_takes_encode (sound entry member).1,
        DepmapEntry.decode_takes_encode (sound entry member).2 true⟩
  | transition t =>
      exact ⟨_, rfl, Decoder.record_takes_object (by decide) (once_tagged _).2
        ⟨t.label, Label.decode_takes_iff.mpr ⟨rfl, sound.1⟩,
          t.changedOptions, BuildConfig.decodeOptions_takes_encode sound.2, rfl⟩⟩

theorem decode_takes_encode {data : ActionData} (sound : data.Encodable) (nested : Bool) :
    (decode nested).Takes data.encode data := by
  rcases body_takes_untagged sound with ⟨read, found, takes⟩
  have isTagged : (tag, .string data.kind) ∈ data.members := by
    rw [members_eq]
    exact List.mem_cons_self
  refine (Decoder.tagged_takes_iff data.members_ordered.nodup isTagged found).mpr ?_
  rw [filter_members]
  exact takes

end ActionData

/-! ## Texts among the members of an action -/

namespace Action

/-- The keys under which an action's texts stand. -/
def textKeys : List String := ["id", "mnemonic", "progress_message"]

theorem not_text_of_mem_members {data : ActionData} {key : String}
    (member : key ∈ Dictionary.keys data.members) : key ∉ textKeys := by
  intro isText
  have apart : ∀ key ∈ textKeys, key ∉ Dictionary.keys data.members := by
    cases data <;> simp [textKeys, ActionData.members, ActionData.tag]
  exact apart key isText member

/-- The members of an action that bears the given id. -/
def membersWith (a : Action) (id : String) : Dictionary Json :=
  Dictionary.insert (Dictionary.insert (Dictionary.insert a.data.members "id" (.string id))
    "mnemonic" (.string a.mnemonic)) "progress_message" (.string a.progressMessage)

theorem encodeWith_eq (a : Action) (id : String) : a.encodeWith id = .object (a.membersWith id) :=
  rfl

theorem membersWith_ordered (a : Action) (id : String) : (a.membersWith id).Ordered :=
  ((a.data.members_ordered.insert _ _).insert _ _).insert _ _

theorem lookup_id (a : Action) (id : String) :
    (a.membersWith id).get? "id" = some (.string id) := by
  have first : ("id" : String) ≠ "progress_message" := by decide
  have second : ("id" : String) ≠ "mnemonic" := by decide
  rw [membersWith, Dictionary.get?_insert_of_ne _ _ first, Dictionary.get?_insert_of_ne _ _ second,
    Dictionary.get?_insert_self]

theorem lookup_mnemonic (a : Action) (id : String) :
    (a.membersWith id).get? "mnemonic" = some (.string a.mnemonic) := by
  have apart : ("mnemonic" : String) ≠ "progress_message" := by decide
  rw [membersWith, Dictionary.get?_insert_of_ne _ _ apart, Dictionary.get?_insert_self]

theorem lookup_progressMessage (a : Action) (id : String) :
    (a.membersWith id).get? "progress_message" = some (.string a.progressMessage) := by
  rw [membersWith, Dictionary.get?_insert_self]

/-- Without its texts an action is its work. -/
theorem filter_membersWith (a : Action) (id : String) :
    ((a.membersWith id).filter fun entry => entry.1 ∉ textKeys) = a.data.members := by
  have leftOut (d : Dictionary Json) {key : String} (isText : key ∈ textKeys) (value : Json) :
      ((d.insert key value).filter fun entry => entry.1 ∉ textKeys) =
        d.filter fun entry => entry.1 ∉ textKeys :=
    Dictionary.filter_insert (fun key => key ∉ textKeys) value (by simpa using isText)
  rw [membersWith, leftOut _ (by decide), leftOut _ (by decide), leftOut _ (by decide),
    List.filter_eq_self]
  intro entry member
  simpa using not_text_of_mem_members (Dictionary.mem_keys_of_mem member)

namespace Draft

/-- The text that stands under a key, as far as it is a text. -/
def text? (members : List (String × Json)) (key : String) : Option String :=
  match members.lookup key with
  | some (.string text) => some text
  | _ => none

theorem text?_of_lookup {members : List (String × Json)} {key text : String}
    (found : members.lookup key = some (.string text)) : text? members key = some text := by
  rw [text?, found]

theorem text?_cons_self (key text : String) (rest : List (String × Json)) :
    text? ((key, .string text) :: rest) key = some text := by
  simp [text?]

theorem text?_cons_of_ne {key other : String} (apart : other ≠ key) (value : Json)
    (rest : List (String × Json)) : text? ((key, value) :: rest) other = text? rest other := by
  have differs : (other == key) = false := beq_eq_false_iff_ne.mpr apart
  simp [text?, List.lookup_cons, differs]

/-- The text that has been read under a key. -/
def slot? (p : Draft) (key : String) : Option String :=
  if key = "id" then p.id else if key = "mnemonic" then p.mnemonic else p.progressMessage

def put (p : Draft) (key text : String) : Draft :=
  if key = "id" then { p with id := some text }
  else if key = "mnemonic" then { p with mnemonic := some text }
  else { p with progressMessage := some text }

theorem eq_of_mem_textKeys {key : String} (isText : key ∈ textKeys) :
    key = "id" ∨ key = "mnemonic" ∨ key = "progress_message" := by
  simpa [textKeys] using isText

theorem slot?_put_self (p : Draft) (key text : String) : (p.put key text).slot? key = some text := by
  simp only [slot?, put]
  split <;> try split
  all_goals rfl

theorem slot?_put_of_ne (p : Draft) {key other : String} (isText : key ∈ textKeys)
    (alsoText : other ∈ textKeys) (apart : other ≠ key) (text : String) :
    (p.put key text).slot? other = p.slot? other := by
  rcases eq_of_mem_textKeys isText with rfl | rfl | rfl <;>
    rcases eq_of_mem_textKeys alsoText with rfl | rfl | rfl <;>
      first | exact absurd rfl apart | rfl

theorem work_put (p : Draft) (key text : String) : (p.put key text).work = p.work := by
  simp only [put]
  split <;> try split
  all_goals rfl

theorem store_text (p : Draft) {key : String} (isText : key ∈ textKeys)
    (free : p.slot? key = none) (text : String) :
    p.store key (Document.ofTree (.string text)) = .ok (p.put key text) := by
  rcases eq_of_mem_textKeys isText with rfl | rfl | rfl
  · have none : p.id = none := free
    simp [store, none, once, Document.ofTree, Decoder.string, put, Except.map]
  · have none : p.mnemonic = none := free
    simp [store, none, once, Document.ofTree, Decoder.string, put, Except.map]
  · have none : p.progressMessage = none := free
    simp [store, none, once, Document.ofTree, Decoder.string, put, Except.map]

theorem store_work (p : Draft) {key : String} (work : key ∉ textKeys) (tree : Json) :
    p.store key (Document.ofTree tree) =
      .ok { p with work := p.work ++ [(some key, Document.ofTree tree)] } := by
  simp only [textKeys, List.mem_cons, List.not_mem_nil, or_false, not_or] at work
  simp only [store, Document.tree?_ofTree_isNone]
  split
  · exact absurd rfl work.1
  · exact absurd rfl work.2.1
  · exact absurd rfl work.2.2
  · rfl

/-- Reading sorts the members of an object into texts and work. -/
theorem storeAll_eq_ok {members : List (String × Json)}
    (once : (Dictionary.keys members).Nodup)
    (texts : ∀ entry ∈ members, entry.1 ∈ textKeys → ∃ text, entry.2 = .string text)
    {p : Draft} (free : ∀ key ∈ textKeys, key ∈ Dictionary.keys members → p.slot? key = none) :
    ∃ q, storeAll (members.map fun entry => (some entry.1, Document.ofTree entry.2)) p = .ok q ∧
      (∀ key ∈ textKeys, q.slot? key = (p.slot? key).or (text? members key)) ∧
      q.work = p.work ++ (members.filter fun entry => entry.1 ∉ textKeys).map
        fun entry => (some entry.1, Document.ofTree entry.2) := by
  induction members generalizing p with
  | nil => exact ⟨p, rfl, by simp [text?], by simp⟩
  | cons entry rest ih =>
      obtain ⟨key, value⟩ := entry
      rw [Dictionary.keys_cons, List.nodup_cons] at once
      have later : ∀ entry ∈ rest, entry.1 ∈ textKeys → ∃ text, entry.2 = .string text :=
        fun entry member => texts entry (List.mem_cons_of_mem _ member)
      rw [List.map_cons, storeAll]
      by_cases isText : key ∈ textKeys
      · rcases texts (key, value) List.mem_cons_self isText with ⟨text, rfl⟩
        have more : ∀ other ∈ textKeys, other ∈ Dictionary.keys rest →
            (p.put key text).slot? other = none := by
          intro other alsoText known
          have apart : other ≠ key := fun same => once.1 (same ▸ known)
          rw [slot?_put_of_ne p isText alsoText apart]
          exact free other alsoText (List.mem_cons_of_mem _ known)
        rcases ih once.2 later more with ⟨q, read, slots, work⟩
        refine ⟨q, ?_, fun other alsoText => ?_, ?_⟩
        · rw [store_text p isText (free key isText List.mem_cons_self)]
          exact read
        · rw [slots other alsoText]
          by_cases same : other = key
          · subst same
            rw [slot?_put_self, text?_cons_self, free other isText List.mem_cons_self]
            rfl
          · rw [slot?_put_of_ne p isText alsoText same, text?_cons_of_ne same]
        · rw [work, work_put, List.filter_cons_of_neg (by simpa using isText)]
      · have more : ∀ other ∈ textKeys, other ∈ Dictionary.keys rest → Draft.slot?
            { p with work := p.work ++ [(some key, Document.ofTree value)] } other = none :=
          fun other alsoText known => free other alsoText (List.mem_cons_of_mem _ known)
        rcases ih once.2 later more with ⟨q, read, slots, work⟩
        refine ⟨q, ?_, fun other alsoText => ?_, ?_⟩
        · rw [store_work p isText]
          exact read
        · have apart : other ≠ key := fun same => isText (same ▸ alsoText)
          rw [slots other alsoText, text?_cons_of_ne apart]
          rfl
        · rw [work, List.filter_cons_of_pos (by simpa using isText)]
          simp

end Draft

/-! ## Actions -/

/-- The work can be written, and the rule has not given an empty id, which is read as none. -/
structure Encodable (a : Action) : Prop where
  data : a.data.Encodable
  id : a.explicitId ≠ some ""

end Action

namespace Digest

theorem le_length_hexadecimal (width n : Nat) : width ≤ (hexadecimal width n).length := by
  simp only [hexadecimal, List.length_append, List.length_replicate]
  omega

theorem sha256Text_ne_empty (text : String) : sha256Text text ≠ "" := by
  intro empty
  have chars := congrArg String.toList empty
  simp only [sha256Text, sha256, String.toList_ofList, State.words, List.flatMap_cons] at chars
  have none := (List.append_eq_nil_iff.mp chars).1
  have digits := Nat.le_trans (le_length_hexadecimal 8 _) (Nat.le_of_eq (congrArg List.length none))
  exact absurd digits (by decide)

end Digest

namespace Action

theorem id_ne_empty {a : Action} (given : a.explicitId ≠ some "") : a.id ≠ "" := by
  rw [id]
  cases chosen : a.explicitId with
  | none => exact Digest.sha256Text_ne_empty _
  | some id => exact fun empty => given (chosen.trans (congrArg some empty))

theorem eq_string_of_mem_textKeys (a : Action) (id : String) :
    ∀ entry ∈ a.membersWith id, entry.1 ∈ textKeys → ∃ text, entry.2 = .string text := by
  intro entry member isText
  have found := lookup_of_mem (a.membersWith_ordered id).nodup member
  rcases Draft.eq_of_mem_textKeys isText with same | same | same <;> rw [same] at found
  · exact ⟨id, Option.some.inj (found.symm.trans (a.lookup_id id))⟩
  · exact ⟨a.mnemonic, Option.some.inj (found.symm.trans (a.lookup_mnemonic id))⟩
  · exact ⟨a.progressMessage, Option.some.inj (found.symm.trans (a.lookup_progressMessage id))⟩

/-- An action is read back if its work is. The id that it bears is a chosen one then, unless it is
empty. -/
theorem decode_takes_encodeWith_iff {a b : Action} {id : String} :
    decode.Takes (a.encodeWith id) b ↔
      ∃ data, (ActionData.decode true).Takes a.data.encode data ∧
        b = ⟨(some id).filter (· ≠ ""), a.mnemonic, a.progressMessage, data⟩ := by
  rcases Draft.storeAll_eq_ok (p := ⟨none, none, none, []⟩) (a.membersWith_ordered id).nodup
    (a.eq_string_of_mem_textKeys id) (fun key isText _ => by
      rcases Draft.eq_of_mem_textKeys isText with rfl | rfl | rfl <;> rfl)
    with ⟨q, read, slots, work⟩
  have itsId : q.id = some id :=
    (slots "id" (by decide)).trans (Draft.text?_of_lookup (a.lookup_id id))
  have mnemonic : q.mnemonic = some a.mnemonic :=
    (slots "mnemonic" (by decide)).trans (Draft.text?_of_lookup (a.lookup_mnemonic id))
  have message : q.progressMessage = some a.progressMessage :=
    (slots "progress_message" (by decide)).trans
      (Draft.text?_of_lookup (a.lookup_progressMessage id))
  have data : (ActionData.decode true).Takes a.data.encode =
      fun d => ActionData.decode true (.object q.work true) = .ok d := by
    funext d
    rw [Takes, work, filter_membersWith, List.nil_append, ActionData.encode,
      Document.ofTree_object]
  rw [encodeWith_eq, Takes, Document.ofTree_object, decode, Success.bind_eq_ok_iff, data]
  constructor
  · rintro ⟨q', read', decoded⟩
    cases read.symm.trans read'
    simp only [Bool.not_true, Bool.false_eq_true, if_false, itsId, mnemonic, message] at decoded
    rcases Success.bind_eq_ok_iff.mp decoded with ⟨d, taken, same⟩
    exact ⟨d, taken, (Except.ok.inj same).symm⟩
  · rintro ⟨d, taken, rfl⟩
    refine ⟨q, read, ?_⟩
    simp only [Bool.not_true, Bool.false_eq_true, if_false, itsId, mnemonic, message]
    exact Success.bind_eq_ok_iff.mpr ⟨d, taken, rfl⟩

/-- An action that is read back has the id that was written as a chosen one. -/
theorem decode_takes_encode {a : Action} (sound : a.Encodable) :
    decode.Takes a.encode (a.withId a.id) := by
  have kept : (some a.id).filter (· ≠ "") = some a.id := by
    simp [id_ne_empty sound.id]
  refine decode_takes_encodeWith_iff.mpr ⟨a.data, ActionData.decode_takes_encode sound.data true, ?_⟩
  rw [kept]
  rfl

/-- Who has chosen the id does not matter to agreement. -/
theorem agrees_withId (a : Action) : (a.withId a.id).agrees a := by
  simp [agrees, withId, id]

end Action

end RuleAnalysis
