import RuleAnalysis.Json.Decoder
import RuleAnalysis.Label.Basic
import RuleAnalysis.Workspace.FilePath

namespace RuleAnalysis

/-!
# Workspace layouts

A layout says where the workspaces lie in the file system: the builtin
workspace in a directory of its own, every other workspace in the directory
that bears its name. Source files and workspace-absolute labels are mapped to
each other through it.
-/

structure Layout where
  workspacesRoot : FilePath
  builtinRoot : FilePath
  deriving DecidableEq, Repr

namespace Layout

open Text

def standard : Layout where
  workspacesRoot := ⟨"/workspaces"⟩
  builtinRoot := ⟨"/opt/trellis/builtin"⟩

/-- The variable that overrides the directory of the workspaces. -/
def workspacesRootVariable : String := "TRELLIS_WORKSPACES_ROOT"

/-- The variable that overrides the directory of the builtin workspace. -/
def builtinRootVariable : String := "TRELLIS_BUILTIN_ROOT"

def encode (layout : Layout) : Json :=
  .object
    [("builtin_root", .string layout.builtinRoot.text),
      ("workspaces_root", .string layout.workspacesRoot.text)]

/-- A root that is not given lies where it lies in the standard layout. -/
def decode : Decoder Layout :=
  Decoder.record
    (.cons "workspaces_root" (.defaulted standard.workspacesRoot.text) Decoder.string
      (.cons "builtin_root" (.defaulted standard.builtinRoot.text) Decoder.string .nil))
    fun workspacesRoot builtinRoot => ⟨⟨workspacesRoot⟩, ⟨builtinRoot⟩⟩

/-- The standard layout with the roots that an environment overrides. -/
def ofEnvironment (lookUp : String → Option String) : Layout where
  workspacesRoot := (lookUp workspacesRootVariable).elim standard.workspacesRoot FilePath.mk
  builtinRoot := (lookUp builtinRootVariable).elim standard.builtinRoot FilePath.mk

def workspaceRoot (layout : Layout) (workspace : String) : FilePath :=
  if workspace = Label.builtinWorkspace then layout.builtinRoot
  else layout.workspacesRoot.join workspace

/-- The path below the workspace's directory: colons count as slashes, and none begins it. -/
def relativePath (l : Label) : String :=
  String.ofList ((l.rest.map fun c => if c = ':' then '/' else c).dropWhile (· = '/'))

/-- Where the source file of a workspace-absolute label lies. -/
def sourcePath (layout : Layout) (l : Label) : Except LabelError FilePath :=
  match l.workspaceName? with
  | none => .error (.notWorkspaceAbsolute l.text)
  | some workspace =>
      let base := layout.workspaceRoot workspace
      let relative := relativePath l
      .ok (if relative = "" then base else base.join relative)

/-- The label of a source file. The builtin workspace is tried first; elsewhere the first component
below the workspaces' directory names the workspace. -/
def labelForPath (layout : Layout) (path : FilePath) : Except LabelError Label := do
  let outside := LabelError.notWorkspaceAbsolute path.text
  let (workspace, relative) ←
    match path.stripPrefix? layout.builtinRoot with
    | some relative => Except.ok (Label.builtinWorkspace, relative)
    | none =>
        match (path.stripPrefix? layout.workspacesRoot).bind FilePath.uncons? with
        | some (workspace, relative) => Except.ok (workspace.text, relative)
        | none => Except.error outside
  if relative.text = "" then Label.parse ("@" ++ workspace ++ "//")
  else Label.parse ("@" ++ workspace ++ "//:" ++ relative.text)

/-- The package-relative label that leads from one label's source file down to another's. -/
def relativeLabel (layout : Layout) (l ancestor : Label) : Except LabelError Label := do
  let own ← layout.sourcePath l
  let base ← layout.sourcePath ancestor
  match own.stripPrefix? base with
  | some relative => Label.parse relative.text
  | none => .error (.notDescendant l.text ancestor.text)

end Layout

end RuleAnalysis
