import RuleAnalysis.Schema.Provider
import RuleAnalysis.Value.Codec
import RuleAnalysis.Value.Reader

namespace RuleAnalysis

/-!
# Executables

An executable is a program that an action can run, together with the tree
that it needs beside it. It travels as a provider of a builtin type, so any
rule can produce or consume it.
-/

/-- Refuses a provider that is not of the expected builtin type. -/
def checkType (p : Provider) (expected : TypeRef) : Except SchemaError Unit :=
  if p.isInstanceOf expected then .ok ()
  else
    .error (.wrongShape ("provider " ++ p.reference.display)
      "provider of a builtin execution type" "provider")

/-- The file that defines the providers of execution. -/
def execSource : String := "exec"

structure Executable where
  name : Option String
  /-- The tree that is mounted beside the program. -/
  context : Option Label
  /-- The path of the program in its tree. -/
  path : String
  searchPaths : List String
  librarySearchPaths : List String
  deriving DecidableEq, Repr

namespace Executable

def reference : TypeRef := .builtin execSource "Executable"

def schema : ProviderSchema where
  reference := reference
  fields :=
    [⟨"name", some .null⟩, ⟨"context", some .null⟩, ⟨"executable_path", none⟩,
      ⟨"search_paths", some (.list [])⟩, ⟨"library_search_paths", some (.list [])⟩]

/-- The part of the path behind its last slash. -/
def fileName (e : Executable) : String :=
  match Text.cutLast? (· = '/') e.path.toList with
  | some (_, last) => String.ofList last
  | none => e.path

def toProvider (e : Executable) : Provider where
  reference := reference
  data :=
    [("context", (e.context.map .label).getD .null),
      ("executable_path", .string e.path),
      ("library_search_paths", .strings e.librarySearchPaths),
      ("name", .ofOption e.name),
      ("search_paths", .strings e.searchPaths)]

def ofProvider (p : Provider) : Except SchemaError Executable := do
  checkType p reference
  let name ← p.field Reader.string.optional "name"
  let context ← p.field Reader.label.optional "context"
  let path ← p.field Reader.string "executable_path"
  let searchPaths ← p.field Reader.string.list.optional "search_paths"
  let librarySearchPaths ← p.field Reader.string.list.optional "library_search_paths"
  return ⟨name, context, path, searchPaths.getD [], librarySearchPaths.getD []⟩

def encode (e : Executable) : Json := e.toProvider.encode

def decode : Decoder Executable := fun d => do
  Decoder.refusing SchemaError.message (ofProvider (← Provider.decode d))

end Executable

end RuleAnalysis
