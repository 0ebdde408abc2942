import RuleAnalysis.Config.Basic
import RuleAnalysis.Depmap.Entry
import RuleAnalysis.Exec.Executable
import RuleAnalysis.Text.ShellWord
import RuleAnalysis.Value.Equality

namespace RuleAnalysis

/-!
# The work of actions

An action runs a program, fetches something, unpacks an archive, builds a
tree or analyzes a target under other options. Its work is declared here and
carried out by the host.
-/

/-- A part of a command line. Templated and response-file arguments are expanded by the host once
it knows the contents of their source. -/
inductive Argument where
  | literal (text : String)
  | templated (template : String) (source : Label)
  | respfile (template : String) (source : Label)
  | label (l : Label)
  deriving DecidableEq, Repr

namespace Argument

def display : Argument → String
  | literal text => text
  | templated template _ => template
  | respfile template _ => template
  | label l => l.text

def templatedSentinel : String := "$trellis_argument_templated"

def respfileSentinel : String := "$trellis_argument_respfile"

def encode : Argument → Json
  | literal text => .string text
  | templated template source =>
      .object [(templatedSentinel, .string template), ("source", source.encode)]
  | respfile template source =>
      .object [(respfileSentinel, .string template), ("source", source.encode)]
  | label l => l.encode

/-- An argument whose template stands under a sentinel, beside its source. -/
def decodeTemplate (sentinel : String) (build : String → Label → Argument) : Decoder Argument
  | .object entries closed =>
      Decoder.members
        (.cons sentinel .required Decoder.string (.cons "source" .required Label.decode .nil))
        build entries closed
  | _ => .error .malformed

/-- The forms are tried in their order on what has been read to its end. Which of them fails, and
why, is not told. -/
def decode : Decoder Argument := fun d =>
  if d.tree?.isNone then .error .malformed
  else
    let attempts : List (Decoder Argument) :=
      [fun d => (Decoder.string d).map literal, decodeTemplate templatedSentinel templated,
        decodeTemplate respfileSentinel respfile, fun d => (Label.decode d).map label]
    match attempts.findSome? fun attempt => (attempt d).toOption with
    | some argument => .ok argument
    | none => .error .malformed

end Argument

/-- How the host reads a program's output that consists of structured messages. -/
structure StructuredMessages where
  levelMap : Dictionary String
  humanMessages : List String
  deriving DecidableEq, Repr

structure Run where
  executable : Executable
  arguments : List Argument
  /-- The tree in which the program works. -/
  input : Option Label
  workingDirectory : Option String
  environment : Dictionary String
  environmentFiles : List Label
  /-- Filled in before the action is handed to the host, unless the rule has supplied it. -/
  platform : Option Provider
  hideStdout : Bool
  hideStderr : Bool
  structuredMessages : Option StructuredMessages
  deriving DecidableEq

namespace Run

def ofCommand (executable : Executable) (arguments : List Argument) : Run where
  executable := executable
  arguments := arguments
  input := none
  workingDirectory := none
  environment := []
  environmentFiles := []
  platform := none
  hideStdout := false
  hideStderr := false
  structuredMessages := none

/-- The arguments as a command line that can be pasted into a shell, if there is one. -/
def commandLine (r : Run) : String :=
  let words := r.arguments.map Argument.display
  (Text.shellLine? words).getD (" ".intercalate words)

end Run

structure Download where
  /-- The addresses, which are tried in their order. -/
  urls : List String
  hash : Option String
  filename : Option String
  executable : Bool
  userAgent : String
  deriving DecidableEq, Repr

namespace Download

def defaultUserAgent : String := "trellis"

def ofUrls (urls : List String) : Download :=
  ⟨urls, none, none, false, defaultUserAgent⟩

end Download

structure Transition where
  label : Label
  changedOptions : List (TypeRef × TypeRef)
  deriving DecidableEq, Repr

inductive ActionData where
  | run (r : Run)
  | download (d : Download)
  | gitClone (url revision : String)
  | dockerDownload (image architecture : String)
  | extract (archive : Label) (stripPrefix : Option String)
  | buildDepmap (entries : List (LabelPath × DepmapEntry))
  | transition (t : Transition)
  deriving DecidableEq

namespace ActionData

def kind : ActionData → String
  | run _ => "run"
  | download _ => "download"
  | gitClone .. => "git_clone"
  | dockerDownload .. => "docker_download"
  | extract .. => "extract"
  | buildDepmap _ => "build_depmap"
  | transition _ => "transition"

/-- The kinds in the order of their declaration. -/
def kinds : List String :=
  ["run", "download", "git_clone", "docker_download", "extract", "build_depmap", "transition"]

/-- The work as it is compared with other work: no zero in a platform's data has a sign. -/
def withUnsignedZeros : ActionData → ActionData
  | run r => run { r with platform := r.platform.map Provider.withUnsignedZeros }
  | data => data

def defaultMnemonic : ActionData → String
  | run r => r.executable.fileName
  | download _ => "Download"
  | gitClone .. => "GitClone"
  | dockerDownload .. => "DockerPull"
  | extract .. => "Extract"
  | buildDepmap _ => "BuildDepmap"
  | transition _ => "Transition"

def defaultProgressMessage : ActionData → String
  | run r => r.commandLine
  | download d => d.urls.head?.getD ""
  | gitClone url revision => url ++ "#" ++ revision
  | dockerDownload image _ => image
  | extract archive _ => archive.text
  | buildDepmap _ => ""
  | transition _ => ""

end ActionData

end RuleAnalysis
