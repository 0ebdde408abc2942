import RuleAnalysis.Text.Quoted

namespace RuleAnalysis

/-!
# Faults of addresses

Every way in which a label, a path inside a tree or a filename pattern can be
malformed, with the text at fault.
-/

inductive LabelError where
  | empty
  | invalidCharacter (label : String) (character : Char)
  | malformedWorkspace (label : String)
  | leadingSlash (label : String)
  | notWorkspaceAbsolute (label : String)
  | notDescendant (label ancestor : String)
  | escapesRoot (path : String)
  | absolutePath (path : String)
  | invalidGlob (pattern : String)
  deriving DecidableEq, Repr

namespace LabelError

open Text (quote quoteChar)

def message : LabelError → String
  | empty => "labels must not be empty"
  | invalidCharacter label character =>
      "label " ++ quote label ++ " contains invalid character " ++ quoteChar character
  | malformedWorkspace label =>
      "label " ++ quote label ++ " has a malformed workspace prefix, expected @name//"
  | leadingSlash label => "label " ++ quote label ++ " must not start with a single slash"
  | notWorkspaceAbsolute label => "label " ++ quote label ++ " must be workspace absolute"
  | notDescendant label ancestor =>
      "label " ++ quote label ++ " is not beneath " ++ quote ancestor
  | escapesRoot path => "path " ++ quote path ++ " escapes the root"
  | absolutePath path => "path " ++ quote path ++ " must be relative"
  | invalidGlob pattern => "unsupported glob pattern " ++ quote pattern

/-- The name under which a fault is reported. -/
def kind : LabelError → String
  | empty => "Label.Empty"
  | invalidCharacter .. => "Label.InvalidCharacter"
  | malformedWorkspace _ => "Label.MalformedWorkspace"
  | leadingSlash _ => "Label.LeadingSlash"
  | notWorkspaceAbsolute _ => "Label.NotWorkspaceAbsolute"
  | notDescendant .. => "Label.NotDescendant"
  | escapesRoot _ => "Label.EscapesRoot"
  | absolutePath _ => "Label.AbsolutePath"
  | invalidGlob _ => "Label.InvalidGlob"

end LabelError

end RuleAnalysis
