import RuleAnalysis.Label.Error
import RuleAnalysis.Text.Cut

namespace RuleAnalysis

/-!
# Label paths

A label path leads through the directories of an output tree. Its components
are the non-empty pieces between slashes; the empty path is the root, which
may also be written as a single dot.
-/

structure LabelPath where
  text : String
  deriving DecidableEq, Repr

namespace LabelPath

open Text

/-- The path of a text; a single dot is the root. -/
def parse (text : String) : LabelPath :=
  if text = "." then ⟨""⟩ else ⟨text⟩

def top : LabelPath := ⟨""⟩

def chars (p : LabelPath) : List Char := p.text.toList

def isTop (p : LabelPath) : Bool := p.text = ""

def isAbsolute (p : LabelPath) : Bool := p.chars.head? = some '/'

def components (p : LabelPath) : List (List Char) :=
  (pieces (· = '/') p.chars).filter fun piece => !piece.isEmpty

/-- The path with the given components, relative or absolute. -/
def ofComponents (absolute : Bool) (components : List (List Char)) : LabelPath :=
  ⟨String.ofList (if absolute then '/' :: glue '/' components else glue '/' components)⟩

/-- The last component, or nothing for the root. -/
def name (p : LabelPath) : String :=
  String.ofList (p.components.getLast?.getD [])

def parent (p : LabelPath) : LabelPath :=
  ofComponents p.isAbsolute p.components.dropLast

/-- Appends a relative path; an absolute one stands for itself, and the root changes nothing. -/
def join (base rhs : LabelPath) : LabelPath :=
  if rhs.isAbsolute || base.isTop then rhs
  else if rhs.isTop then base
  else ⟨String.ofList (dropTrailing (· = '/') base.chars ++ '/' :: rhs.chars)⟩

/-- What follows the components of the base, if the path begins with them. -/
def relativeTo? (p base : LabelPath) : Option LabelPath :=
  if p.isAbsolute != base.isAbsolute then none
  else if base.components.isPrefixOf p.components then
    some (ofComponents false (p.components.drop base.components.length))
  else none

/-- One component's effect on the components so far, which stand last first. A climb undoes a name;
where there is none to undo it is kept in a relative path and lost in an absolute one. -/
def collapseStep (absolute : Bool) (stack : List (List Char)) (component : List Char) :
    List (List Char) :=
  if component = ['.'] then stack
  else if component = ['.', '.'] then
    match stack with
    | top :: below => if top = ['.', '.'] then component :: stack else below
    | [] => if absolute then [] else [component]
  else component :: stack

def collapse (absolute : Bool) (components : List (List Char)) : List (List Char) :=
  (components.foldl (collapseStep absolute) []).reverse

/-- The path without `.` components and with every `..` applied that has a name to undo. -/
def normalize (p : LabelPath) : LabelPath :=
  ofComponents p.isAbsolute (collapse p.isAbsolute p.components)

/-- Normalizes a path that must stay beneath the root it is relative to. -/
def normalizeDescending (p : LabelPath) : Except LabelError LabelPath :=
  if p.isAbsolute then .error (.absolutePath p.text)
  else if p.normalize.components.contains ['.', '.'] then .error (.escapesRoot p.text)
  else .ok p.normalize

end LabelPath

end RuleAnalysis
