import RuleAnalysis.Action.Data
import RuleAnalysis.Digest.Sha256

namespace RuleAnalysis

/-!
# Actions

An action is declared work with a name and a message for people. Its id is
the hash of its canonical text with the id left empty, so identical work has
the same id everywhere; a rule may also give the id itself. The id names the
tree that the action puts out, beneath the target that owns the action.
-/

/-! ## Data on the wire -/

namespace StructuredMessages

def encode (s : StructuredMessages) : Json :=
  .object
    [("human_messages", .array (s.humanMessages.map .string)),
      ("level_map", .object (s.levelMap.map fun entry => (entry.1, .string entry.2)))]

def decode : Decoder StructuredMessages :=
  Decoder.record
    (.cons "level_map" .required (Decoder.dictionary Decoder.string)
      (.cons "human_messages" .required (Decoder.list Decoder.string) .nil))
    StructuredMessages.mk

end StructuredMessages

namespace ActionData

def tag : String := "$trellis_action"

/-- The members of an object in the order of their keys, the tag ahead of them all. -/
def members : ActionData → List (String × Json)
  | run r =>
      [(tag, .string "run"),
        ("append_env", .object (r.environment.map fun entry => (entry.1, .string entry.2))),
        ("append_env_files", .array (r.environmentFiles.map Label.encode)),
        ("args", .array (r.arguments.map Argument.encode)),
        ("cwd", .ofOption .string r.workingDirectory),
        ("executable", r.executable.encode),
        ("hide_stderr", .bool r.hideStderr),
        ("hide_stdout", .bool r.hideStdout),
        ("input", .ofOption Label.encode r.input),
        ("platform", .ofOption Provider.encode r.platform),
        ("structured_messages", .ofOption StructuredMessages.encode r.structuredMessages)]
  | download d =>
      [(tag, .string "download"),
        ("executable", .bool d.executable),
        ("filename", .ofOption .string d.filename),
        ("hash", .ofOption .string d.hash),
        ("urls", .array (d.urls.map .string)),
        ("user_agent", .string d.userAgent)]
  | gitClone url revision =>
      [(tag, .string "git_clone"), ("revision", .string revision), ("url", .string url)]
  | dockerDownload image architecture =>
      [(tag, .string "docker_download"), ("architecture", .string architecture),
        ("image", .string image)]
  | extract archive stripPrefix =>
      [(tag, .string "extract"), ("archive", archive.encode),
        ("strip_prefix", .ofOption .string stripPrefix)]
  | buildDepmap entries =>
      [(tag, .string "build_depmap"),
        ("entries", .array (entries.map fun entry => .array [entry.1.encode, entry.2.encode]))]
  | transition t =>
      [(tag, .string "transition"),
        ("changed_options", BuildConfig.encodeOptions t.changedOptions),
        ("label", t.label.encode)]

def encode (data : ActionData) : Json := .object data.members

open Decoder in
/-- Reads what stands beside the tag. -/
def body? : String → Option (Decoder ActionData)
  | "run" => some fun d =>
      (Decoder.record
        (.cons "executable" .required Executable.decode
          (.cons "args" .required (list Argument.decode)
            (.cons "input" (.optional none) (nullable Label.decode)
              (.cons "cwd" (.optional none) (nullable string)
                (.cons "append_env" .required (dictionary string)
                  (.cons "append_env_files" .required (list Label.decode)
                    (.cons "platform" (.optional none) (nullable Provider.decode)
                      (.cons "hide_stdout" .required bool
                        (.cons "hide_stderr" .required bool
                          (.cons "structured_messages" (.optional none)
                            (nullable StructuredMessages.decode) .nil))))))))))
        Run.mk d).map run
  | "download" => some fun d =>
      (Decoder.record
        (.cons "urls" .required (list string)
          (.cons "hash" (.optional none) (nullable string)
            (.cons "filename" (.optional none) (nullable string)
              (.cons "executable" .required bool
                (.cons "user_agent" .required string .nil)))))
        Download.mk d).map download
  | "git_clone" =>
      some (Decoder.record
        (.cons "url" .required string (.cons "revision" .required string .nil))
        gitClone)
  | "docker_download" =>
      some (Decoder.record
        (.cons "image" .required string (.cons "architecture" .required string .nil))
        dockerDownload)
  | "extract" =>
      some (Decoder.record
        (.cons "archive" .required Label.decode
          (.cons "strip_prefix" (.optional none) (nullable string) .nil))
        extract)
  | "build_depmap" =>
      some (Decoder.record
        (.cons "entries" .required (list (pair LabelPath.decode (DepmapEntry.decode true))) .nil)
        buildDepmap)
  | "transition" =>
      some (Decoder.record
        (.cons "label" .required Label.decode
          (.cons "changed_options" .required BuildConfig.decodeOptions .nil))
        fun label options => transition ⟨label, options⟩)
  | _ => none

def decode (nested : Bool) : Decoder ActionData :=
  Decoder.tagged tag kinds nested body?

end ActionData

/-! ## Actions -/

structure Action where
  /-- The id that the rule has given, if it has. -/
  explicitId : Option String
  mnemonic : String
  progressMessage : String
  data : ActionData
  deriving DecidableEq

namespace Action

/-- The action that does the work, named and described as usual for its kind. -/
def ofData (data : ActionData) : Action :=
  ⟨none, data.defaultMnemonic, data.defaultProgressMessage, data⟩

def withId (a : Action) (id : String) : Action := { a with explicitId := some id }

def withMnemonic (a : Action) (mnemonic : String) : Action := { a with mnemonic := mnemonic }

def withProgressMessage (a : Action) (message : String) : Action :=
  { a with progressMessage := message }

/-- The tree of an action that bears the given id. -/
def encodeWith (a : Action) (id : String) : Json :=
  let members : Dictionary Json := a.data.members
  .object (((members.insert "id" (.string id)).insert "mnemonic" (.string a.mnemonic)).insert
    "progress_message" (.string a.progressMessage))

/-- The text whose hash is the id of an action that has not been given one. -/
def preimage (a : Action) : String := (a.encodeWith "").render

def derivedId (a : Action) : String := Digest.sha256Text a.preimage

def id (a : Action) : String := a.explicitId.getD a.derivedId

def encode (a : Action) : Json := a.encodeWith a.id

/-- The address of the tree that the action puts out for its owner. -/
def files (a : Action) (owner : Label) : Label := owner.joinAction a.id

/-- Actions agree if their ids, their names and their work agree; who has chosen the id does not
matter, nor does the sign of a zero. -/
def agrees (a b : Action) : Bool :=
  a.id = b.id && a.mnemonic = b.mnemonic && a.progressMessage = b.progressMessage
    && a.data.withUnsignedZeros = b.data.withUnsignedZeros

def needsPlatform (a : Action) : Bool :=
  match a.data with
  | .run r => r.platform.isNone
  | _ => false

/-- Gives an execution platform to a program that has none. -/
def fillPlatform (a : Action) (platform : Provider) : Action :=
  match a.data with
  | .run r =>
      if r.platform.isNone then { a with data := .run { r with platform := some platform } } else a
  | _ => a

theorem needsPlatform_fillPlatform (a : Action) (platform : Provider) :
    (a.fillPlatform platform).needsPlatform = false := by
  cases kind : a.data with
  | run r => cases held : r.platform <;> simp [fillPlatform, needsPlatform, kind, held]
  | _ => simp [fillPlatform, needsPlatform, kind]

theorem fillPlatform_prepared {a : Action} (prepared : a.needsPlatform = false)
    (platform : Provider) : a.fillPlatform platform = a := by
  cases kind : a.data with
  | run r =>
      simp only [needsPlatform, kind] at prepared
      simp [fillPlatform, kind, prepared]
  | _ => simp [fillPlatform, kind]

/-! ## Decoding -/

/-- The texts of an action and the members that describe its work, as far as they have been
read. -/
structure Draft where
  id : Option String
  mnemonic : Option String
  progressMessage : Option String
  work : List (Option String × Document)

namespace Draft

/-- Reads a text that must not have been read before. -/
def once (d : Document) : Option String → Except Fault (Option String)
  | none => (Decoder.string d).map some
  | some _ => .error .malformed

def store (p : Draft) (key : String) (d : Document) : Except Fault Draft := do
  match key with
  | "id" => return { p with id := ← once d p.id }
  | "mnemonic" => return { p with mnemonic := ← once d p.mnemonic }
  | "progress_message" => return { p with progressMessage := ← once d p.progressMessage }
  | _ =>
      if d.tree?.isNone then throw .malformed
      return { p with work := p.work ++ [(some key, d)] }

def storeAll : List (Option String × Document) → Draft → Except Fault Draft
  | [], p => .ok p
  | (none, _) :: _, _ => .error .malformed
  | (some key, d) :: rest, p => do storeAll rest (← p.store key d)

end Draft

/-- The work is looked at behind the texts. An empty id is none. -/
def decode : Decoder Action
  | .object entries closed => do
      let p ← Draft.storeAll entries ⟨none, none, none, []⟩
      if !closed then throw .malformed
      match p.mnemonic, p.progressMessage with
      | some mnemonic, some progressMessage =>
          let data ← ActionData.decode true (.object p.work true)
          return ⟨p.id.filter (· ≠ ""), mnemonic, progressMessage, data⟩
      | _, _ => .error .malformed
  | _ => .error .malformed

end Action

end RuleAnalysis
