import RuleAnalysis.Glob.Set
import RuleAnalysis.Label.Path
import RuleAnalysis.TypeRef

namespace RuleAnalysis

/-!
# Values

The values that attributes and the fields of providers carry: plain data,
addresses, providers, references to options, sets of filename patterns, and
selections, whose value depends on the build configuration.
-/

mutual

inductive Value where
  | null
  | bool (b : Bool)
  | number (n : Number)
  | string (s : String)
  | list (items : List Value)
  | map (entries : List (String × Value))
  | label (l : Label)
  | labelPath (p : LabelPath)
  | provider (p : Provider)
  | option (reference : TypeRef)
  | selection (s : Selection)
  | globSet (set : GlobSet)

/-- A typed record that one target's analysis produces and others consume. Its data are listed by
increasing name. -/
structure Provider where
  reference : TypeRef
  data : List (String × Value)

/-- A value for each of some options, and one for the case that none of them is selected. -/
structure Selection where
  mapping : List (TypeRef × Value)
  default : Value

end

instance : Inhabited Value := ⟨.null⟩

namespace Value

/-- The name of a value's form in messages. -/
def typeName : Value → String
  | null => "null"
  | bool _ => "bool"
  | number _ => "number"
  | string _ => "string"
  | list _ => "list"
  | map _ => "map"
  | label _ => "label"
  | labelPath _ => "label path"
  | provider _ => "provider"
  | option _ => "option"
  | selection _ => "selection"
  | globSet _ => "glob set"

def isNull : Value → Bool
  | null => true
  | _ => false

mutual

/-- Whether a value depends on the build configuration: a selection does, and so does a list or map
that contains one. -/
def isUnresolved : Value → Bool
  | selection _ => true
  | list items => anyUnresolved items
  | map entries => anyEntryUnresolved entries
  | _ => false

def anyUnresolved : List Value → Bool
  | [] => false
  | item :: rest => item.isUnresolved || anyUnresolved rest

def anyEntryUnresolved : List (String × Value) → Bool
  | [] => false
  | (_, value) :: rest => value.isUnresolved || anyEntryUnresolved rest

end

def string? : Value → Option String
  | string s => some s
  | _ => none

def label? : Value → Option Label
  | label l => some l
  | _ => none

def provider? : Value → Option Provider
  | provider p => some p
  | _ => none

/-- An absent text is null. -/
def ofOption : Option String → Value
  | some s => string s
  | none => null

def strings (texts : List String) : Value :=
  list (texts.map string)

end Value

namespace Provider

def isInstanceOf (p : Provider) (reference : TypeRef) : Bool :=
  p.reference = reference

def get? (p : Provider) (name : String) : Option Value :=
  Dictionary.get? p.data name

end Provider

end RuleAnalysis
