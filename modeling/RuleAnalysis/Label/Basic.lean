import RuleAnalysis.Label.Error
import RuleAnalysis.Text.Blank
import RuleAnalysis.Text.Cut

namespace RuleAnalysis

/-!
# Labels

A label addresses a target, a package or a file. Its form is decided by how
its text begins:

* workspace-absolute, `@workspace//package:target`;
* workspace-relative, `//package:target`;
* package-relative, anything else, such as `:file.txt` or `sub/dir`.

A text falls into its *root* (`@workspace//`, `//` or nothing) and the rest,
whose segments are separated by slashes and colons. Every operation is a
function of the text.
-/

/-- An address, given by its text. Texts read by `parse` are well formed. -/
structure Label where
  text : String
  deriving DecidableEq, Repr

namespace Label

open Text

inductive Form where
  | packageRelative
  | workspaceRelative
  | workspaceAbsolute
  deriving DecidableEq, Repr

/-- The name of the workspace that holds the engine's own definitions. -/
def builtinWorkspace : String := "trellis.builtin"

def isSeparator (c : Char) : Bool :=
  c = '/' || c = ':'

/-- The form, root and rest of a text. -/
def anatomy : List Char → Form × List Char × List Char
  | '@' :: cs =>
      match cutDoubleSlash? cs with
      | some (name, rest) => (.workspaceAbsolute, '@' :: name ++ ['/', '/'], rest)
      | none => (.workspaceAbsolute, [], '@' :: cs)
  | '/' :: '/' :: rest => (.workspaceRelative, ['/', '/'], rest)
  | cs => (.packageRelative, [], cs)

def chars (l : Label) : List Char := l.text.toList

def form (l : Label) : Form := (anatomy l.chars).1

def root (l : Label) : List Char := (anatomy l.chars).2.1

def rest (l : Label) : List Char := (anatomy l.chars).2.2

def ofChars (cs : List Char) : Label := ⟨String.ofList cs⟩

/-- The first fault of a text as a label, if it has one. -/
def fault? (text : String) : Option LabelError :=
  let cs := text.toList
  if cs.isEmpty then some .empty
  else
    match cs.find? fun c => isBlank c || isControl c with
    | some c => some (.invalidCharacter text c)
    | none =>
        match cs with
        | '@' :: tail =>
            match cutDoubleSlash? tail with
            | some (name, _) =>
                if name.isEmpty || name.any isSeparator then some (.malformedWorkspace text)
                else none
            | none => some (.malformedWorkspace text)
        | '/' :: tail => if tail.head? = some '/' then none else some (.leadingSlash text)
        | _ => none

def parse (text : String) : Except LabelError Label :=
  match fault? text with
  | some fault => .error fault
  | none => .ok ⟨text⟩

/-- The label's text has no fault. -/
def WellFormed (l : Label) : Prop := fault? l.text = none

instance (l : Label) : Decidable l.WellFormed :=
  inferInstanceAs (Decidable (fault? l.text = none))

theorem parse_eq_ok_iff {text : String} {l : Label} :
    parse text = .ok l ↔ l.WellFormed ∧ l.text = text := by
  unfold parse WellFormed
  constructor
  · intro parsed
    split at parsed
    · cases parsed
    · next clean =>
        cases parsed
        exact ⟨clean, rfl⟩
  · rintro ⟨clean, rfl⟩
    simp [clean]

/-- A file of the builtin workspace. -/
def builtinFile (file : String) : Label :=
  ⟨"@" ++ builtinWorkspace ++ "//:" ++ file⟩

/-- The name between `@` and `//` of a workspace-absolute label. -/
def workspaceName? (l : Label) : Option String :=
  match l.chars with
  | '@' :: cs => (cutDoubleSlash? cs).map fun parts => String.ofList parts.1
  | _ => none

/-- The last segment. -/
def fileName (l : Label) : String :=
  match cutLast? isSeparator l.rest with
  | some (_, last) => String.ofList last
  | none => String.ofList l.rest

/-- The text without the slashes at its end; the root is kept whole. -/
def trimmed (l : Label) : List Char :=
  l.root ++ dropTrailing (· = '/') l.rest

/-- Resolves a label against this one. Absolute labels stand for themselves, workspace-relative
ones take this label's workspace, and all others are appended with one separator. -/
def join (base rhs : Label) : Label :=
  match rhs.form with
  | .workspaceAbsolute => rhs
  | .workspaceRelative =>
      match base.workspaceName? with
      | some workspace => ⟨"@" ++ workspace ++ rhs.text⟩
      | none => rhs
  | .packageRelative =>
      if rhs.chars.head? = some ':' then ofChars (base.trimmed ++ rhs.chars)
      else if base.chars.getLast?.any isSeparator then ofChars (base.chars ++ rhs.chars)
      else ofChars (base.chars ++ '/' :: rhs.chars)

def joinText (base : Label) (rhs : String) : Except LabelError Label := do
  return base.join (← parse rhs)

/-- The address of the output tree of an action that this target owns. One slash at the end gives
way to the colon; a double slash ends a root and stays. -/
def joinAction (owner : Label) (id : String) : Label :=
  match owner.chars.reverse with
  | '/' :: '/' :: _ => ofChars (owner.chars ++ ':' :: id.toList)
  | '/' :: front => ofChars (front.reverse ++ ':' :: id.toList)
  | _ => ofChars (owner.chars ++ ':' :: id.toList)

/-- The label without its last segment; a single segment leaves its root, if it has one. -/
def parent? (l : Label) : Option Label :=
  if l.rest.isEmpty then none
  else
    match cutLast? isSeparator l.rest with
    | some (before, _) => some (ofChars (l.root ++ before))
    | none => if l.root.isEmpty then none else some (ofChars l.root)

/-- The part of a target label before its first colon. -/
def package? (l : Label) : Option Label :=
  (cutFirst? (· = ':') l.rest).map fun parts => ofChars (l.root ++ parts.1)

end Label

end RuleAnalysis
