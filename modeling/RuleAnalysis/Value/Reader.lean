import RuleAnalysis.Schema.Error
import RuleAnalysis.Value.Basic

namespace RuleAnalysis

/-!
# Typed readings of values

A reader takes a value for something of a definite type, or finds that the
value has not the shape it expects.
-/

structure Reader (α : Type) where
  expected : String
  read? : Value → Option α

namespace Reader

variable {α β : Type}

def map (f : α → β) (r : Reader α) : Reader β :=
  ⟨r.expected, fun v => (r.read? v).map f⟩

def value : Reader Value := ⟨"any value", some⟩

def string : Reader String := ⟨"string", Value.string?⟩

def bool : Reader Bool where
  expected := "bool"
  read?
    | .bool b => some b
    | _ => none

/-- An integer of 64 bits with a sign. -/
def integer : Reader Int where
  expected := "integer"
  read?
    | .number n => n.signed?
    | _ => none

/-- An integer of 32 bits without a sign. -/
def natural : Reader Nat where
  expected := "unsigned integer"
  read?
    | .number n => n.unsigned32?
    | _ => none

def label : Reader Label := ⟨"label", Value.label?⟩

/-- A text may stand for the path it spells. -/
def labelPath : Reader LabelPath where
  expected := "label path"
  read?
    | .labelPath p => some p
    | .string s => some (.parse s)
    | _ => none

def provider : Reader Provider := ⟨"provider", Value.provider?⟩

def globSet : Reader GlobSet where
  expected := "glob set"
  read?
    | .globSet set => some set
    | _ => none

/-- Null stands for an absent value. -/
def optional (r : Reader α) : Reader (Option α) where
  expected := r.expected
  read?
    | .null => some none
    | v => (r.read? v).map some

def list (r : Reader α) : Reader (List α) where
  expected := "list"
  read?
    | .list items => items.mapM r.read?
    | _ => none

def dictionary (r : Reader α) : Reader (Dictionary α) where
  expected := "map"
  read?
    | .map entries => entries.mapM fun entry => (r.read? entry.2).map (entry.1, ·)
    | _ => none

/-- The readers that have a name. What they read is given as a value again. -/
def named? : String → Option (Reader Value)
  | "any" => some value
  | "string" => some (string.map .string)
  | "bool" => some (bool.map .bool)
  | "i64" => some (integer.map ofInt)
  | "u32" => some (natural.map ofNat)
  | "label" => some (label.map .label)
  | "label_path" => some (labelPath.map .labelPath)
  | "provider" => some (provider.map .provider)
  | "glob_set" => some (globSet.map .globSet)
  | "opt_string" => some (string.optional.map (orNull .string))
  | "opt_bool" => some (bool.optional.map (orNull .bool))
  | "opt_label" => some (label.optional.map (orNull .label))
  | "list_string" => some (string.list.map (each .string))
  | "list_i64" => some (integer.list.map (each ofInt))
  | "list_label" => some (label.list.map (each .label))
  | "list_label_path" => some (labelPath.list.map (each .labelPath))
  | "opt_list_string" => some (string.list.optional.map (orNull (each .string)))
  | "list_opt_u32" => some (natural.optional.list.map (each (orNull ofNat)))
  | "map_string" => some (string.dictionary.map (under .string))
  | "map_list_label" => some (label.list.dictionary.map (under (each .label)))
  | _ => none
where
  ofInt (n : Int) : Value := .number (.integer n)
  ofNat (n : Nat) : Value := .number (.integer n)
  orNull {α : Type} (f : α → Value) (a : Option α) : Value := (a.map f).getD .null
  each {α : Type} (f : α → Value) (as : List α) : Value := .list (as.map f)
  under {α : Type} (f : α → Value) (d : Dictionary α) : Value :=
    .map (d.map fun entry => (entry.1, f entry.2))

end Reader

namespace Value

/-- Reads a value in a context that is named if the shape is wrong. -/
def extract {α : Type} (v : Value) (r : Reader α) (context : String) : Except SchemaError α :=
  match r.read? v with
  | some a => .ok a
  | none => .error (.wrongShape context r.expected v.typeName)

end Value

namespace Provider

/-- Reads a field of a provider. -/
def field {α : Type} (p : Provider) (r : Reader α) (name : String) : Except SchemaError α :=
  match p.get? name with
  | some v =>
      v.extract r ("field " ++ Text.quote name ++ " of provider " ++ p.reference.qualifiedName)
  | none => .error (.missingField p.reference.qualifiedName name)

end Provider

end RuleAnalysis
