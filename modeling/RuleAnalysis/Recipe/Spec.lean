import RuleAnalysis.Action.Held
import RuleAnalysis.Analysis.Error
import RuleAnalysis.Rule.Schema

namespace RuleAnalysis
namespace Recipe

/-!
# Written specifications

A recipe writes labels, types, values, entries and actions down as texts and
trees. They are read when they are used, part by part in a fixed order, and
the first part that cannot be read is the failure.
-/

/-- A reading that may fail like any other step of an analysis. -/
abbrev Reading (α : Type) := Except AnalysisError α

def label (text : String) : Reading Label :=
  (Label.parse text).mapError .label

def optional {α β : Type} (read : α → Reading β) : Option α → Reading (Option β)
  | some a => (read a).map some
  | none => .ok none

def decoded {α : Type} (decode : Decoder α) (tree : Json) : Reading α :=
  (decode (Document.ofTree tree)).mapError fun fault => .protocol (.codec fault)

def value (tree : Json) : Reading Value :=
  (Value.ofTree tree).mapError fun fault => .protocol (.codec fault)

def provider : Json → Reading Provider :=
  decoded Provider.decode

/-- Values with names, all of which are read before any is used. -/
def bindings (pairs : List (String × Json)) : Reading (List (String × Value)) :=
  pairs.mapM fun pair => (value pair.2).map fun v => (pair.1, v)

/-! ## Types and options -/

structure TypeSpec where
  label : String
  name : String

namespace TypeSpec

def read (t : TypeSpec) : Reading TypeRef :=
  (Recipe.label t.label).map fun l => ⟨l, t.name⟩

end TypeSpec

structure OptionSpec where
  family : TypeSpec
  option : TypeSpec

namespace OptionSpec

def read (o : OptionSpec) : Reading ConfigOption := do
  let family ← o.family.read
  let option ← o.option.read
  return ⟨family, option⟩

end OptionSpec

/-! ## Programs and trees -/

structure ExecutableSpec where
  path : String
  name : Option String
  context : Option String
  searchPaths : List String
  librarySearchPaths : List String

namespace ExecutableSpec

def read (e : ExecutableSpec) : Reading Executable := do
  let context ← optional label e.context
  return ⟨e.name, context, e.path, e.searchPaths, e.librarySearchPaths⟩

end ExecutableSpec

inductive ArgumentSpec where
  | literal (text : String)
  | label (text : String)
  | templated (template source : String)
  | respfile (template source : String)

namespace ArgumentSpec

def read : ArgumentSpec → Reading Argument
  | literal text => .ok (.literal text)
  | label text => (Recipe.label text).map .label
  | templated template source => (Recipe.label source).map (.templated template)
  | respfile template source => (Recipe.label source).map (.respfile template)

end ArgumentSpec

inductive EntrySpec where
  | reference (label : String)
  | symlink (target : String)
  | file (content : String) (executable : Bool)
  | glob (base : String) (patterns : List String)
  | directory

namespace EntrySpec

def read : EntrySpec → Reading DepmapEntry
  | reference text => (label text).map .reference
  | symlink target => .ok (.symlink target)
  | file content executable => .ok (.file content executable)
  | glob base patterns => do
      let base ← label base
      (DepmapEntry.glob base patterns).mapError .label
  | directory => .ok .directory

end EntrySpec

/-! ## Actions -/

structure RunSpec where
  executable : ExecutableSpec
  arguments : List ArgumentSpec
  input : Option String
  workingDirectory : Option String
  environment : Dictionary String
  environmentFiles : List String
  platform : Option Json
  hideStdout : Bool
  hideStderr : Bool
  structuredMessages : Option StructuredMessages

namespace RunSpec

def read (r : RunSpec) : Reading Run := do
  let arguments ← r.arguments.mapM ArgumentSpec.read
  let executable ← r.executable.read
  let input ← optional label r.input
  let environmentFiles ← r.environmentFiles.mapM label
  let platform ← optional provider r.platform
  return {
    executable, arguments, input, environmentFiles, platform
    workingDirectory := r.workingDirectory
    environment := r.environment
    hideStdout := r.hideStdout
    hideStderr := r.hideStderr
    structuredMessages := r.structuredMessages }

end RunSpec

inductive DataSpec where
  | run (r : RunSpec)
  | download (d : Download)
  | gitClone (url revision : String)
  | dockerDownload (image architecture : String)
  | extract (archive : String) (stripPrefix : Option String)
  | transition (label : String) (changedOptions : List OptionSpec)
  | buildDepmap (entries : List (String × EntrySpec))

namespace DataSpec

def read : DataSpec → Reading ActionData
  | run r => r.read.map .run
  | download d => .ok (.download d)
  | gitClone url revision => .ok (.gitClone url revision)
  | dockerDownload image architecture => .ok (.dockerDownload image architecture)
  | extract archive stripPrefix => (label archive).map fun l => .extract l stripPrefix
  | transition text changedOptions => do
      let options ← changedOptions.mapM OptionSpec.read
      let target ← label text
      return .transition ⟨target, options.map fun o => (o.family, o.option)⟩
  | buildDepmap entries =>
      (entries.mapM readEntry).map .buildDepmap
where
  readEntry (entry : String × EntrySpec) : Reading (LabelPath × DepmapEntry) :=
    entry.2.read.map fun e => (LabelPath.parse entry.1, e)

end DataSpec

structure ActionSpec where
  data : DataSpec
  id : Option String
  mnemonic : Option String
  progressMessage : Option String

namespace ActionSpec

def read (a : ActionSpec) : Reading Action := do
  let held := HeldAction.ofData (← a.data.read)
  let held := a.id.elim held held.withId
  let held := a.mnemonic.elim held held.withMnemonic
  let held := a.progressMessage.elim held held.withProgressMessage
  return held.action

end ActionSpec

/-! ## Rules -/

inductive AttributeForm where
  | any
  | label
  | file
  | labelList
  | labelMap
  | provider
  | globalProvider
  | globSet

structure AttributeSpec where
  name : String
  form : AttributeForm
  provider : TypeSpec
  default? : Option Json
  host : Bool

namespace AttributeSpec

def kind (a : AttributeSpec) : Reading AttributeKind :=
  match a.form with
  | .any => .ok .any
  | .label => .ok .label
  | .file => .ok .file
  | .labelList => .ok .labelList
  | .labelMap => .ok .labelMap
  | .provider => a.provider.read.map fun type => .provider type false
  | .globalProvider => a.provider.read.map fun type => .globalProvider type false
  | .globSet => .ok .globSet

def read (a : AttributeSpec) : Reading Attribute := do
  let kind ← a.kind
  let default? ← optional value a.default?
  return ⟨a.name, if a.host then kind.forHost else kind, default?⟩

end AttributeSpec

structure RuleSpec where
  rule : TypeSpec
  attributes : List AttributeSpec

namespace RuleSpec

def read (r : RuleSpec) : Reading RuleSchema := do
  let reference ← r.rule.read
  let attributes ← r.attributes.mapM AttributeSpec.read
  (RuleSchema.declare reference attributes).mapError .schema

end RuleSpec

end Recipe
end RuleAnalysis
