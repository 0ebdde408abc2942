import RuleAnalysis.Text.Cut

namespace RuleAnalysis

/-!
# File paths

File paths are compared component by component. Repeated slashes, slashes at
the end and `.` components are passed over, except for a `.` at the very
beginning of a relative path; `..` is a component like any other, because a
path is never resolved against a file system here.

A remainder that is left when a prefix has been taken away keeps its own
inner text, so only its ends are cleaned.
-/

structure FilePath where
  text : String
  deriving DecidableEq, Repr

namespace FilePath

open Text

inductive Component where
  | root
  | here
  | name (chars : List Char)
  deriving DecidableEq, Repr

namespace Component

def text : Component → String
  | root => "/"
  | here => "."
  | name chars => String.ofList chars

end Component

/-- Pieces between slashes that are passed over. -/
def isSilent (piece : List Char) : Bool :=
  piece.isEmpty || piece = ['.']

/-- The component a path may begin with and the pieces behind it. -/
def anatomy : List Char → Option Component × List (List Char)
  | '/' :: cs => (some .root, pieces (· = '/') cs)
  | ['.'] => (some .here, [])
  | '.' :: '/' :: cs => (some .here, pieces (· = '/') cs)
  | cs => (none, pieces (· = '/') cs)

def chars (p : FilePath) : List Char := p.text.toList

def anchor (p : FilePath) : Option Component := (anatomy p.chars).1

def body (p : FilePath) : List (List Char) := (anatomy p.chars).2

def isAbsolute (p : FilePath) : Bool := p.anchor = some .root

def components (p : FilePath) : List Component :=
  p.anchor.toList ++ (p.body.filter fun piece => !isSilent piece).map .name

/-- Drops pieces until the given number of components has gone. -/
def dropComponents : Nat → List (List Char) → List (List Char)
  | 0, pieces => pieces
  | _ + 1, [] => []
  | n + 1, piece :: rest =>
      if isSilent piece then dropComponents (n + 1) rest else dropComponents n rest

def dropTrailingSilent (pieces : List (List Char)) : List (List Char) :=
  (pieces.reverse.dropWhile isSilent).reverse

def ofPieces (pieces : List (List Char)) : FilePath :=
  ⟨String.ofList (glue '/' pieces)⟩

/-- The path without its silent end; what it begins with stays. -/
def cleanEnd (p : FilePath) : FilePath :=
  let pieces := dropTrailingSilent p.body
  match p.anchor with
  | some .root => ⟨String.ofList ('/' :: glue '/' pieces)⟩
  | some .here => if pieces.isEmpty then ⟨"."⟩ else ⟨String.ofList ('.' :: '/' :: glue '/' pieces)⟩
  | _ => ofPieces pieces

/-- The path behind its first components, of which it has at least as many. -/
def remainder (p : FilePath) : Nat → FilePath
  | 0 => p.cleanEnd
  | n + 1 =>
      let named := if p.anchor.isSome then n else n + 1
      ofPieces (dropTrailingSilent ((dropComponents named p.body).dropWhile isSilent))

def stripPrefix? (p base : FilePath) : Option FilePath :=
  if base.components.isPrefixOf p.components then some (p.remainder base.components.length)
  else none

/-- The first component and the path behind it. -/
def uncons? (p : FilePath) : Option (Component × FilePath) :=
  p.components.head?.map fun first => (first, p.remainder 1)

/-- Appends a path with one slash between; an absolute path stands for itself. -/
def join (base : FilePath) (rhs : String) : FilePath :=
  if rhs.toList.head? = some '/' then ⟨rhs⟩
  else if base.text = "" || base.chars.getLast? = some '/' then ⟨base.text ++ rhs⟩
  else ⟨base.text ++ "/" ++ rhs⟩

end FilePath

end RuleAnalysis
