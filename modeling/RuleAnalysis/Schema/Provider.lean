import RuleAnalysis.Dictionary
import RuleAnalysis.Schema.Error
import RuleAnalysis.Value.Basic

namespace RuleAnalysis

/-!
# Provider schemas

A schema declares the fields of a provider type. An instance has a value for
every declared field, given or by default, and for no other.
-/

/-- The first of some names that also stands further ahead. -/
def firstRepeated? (names : List String) : Option String :=
  let rec search (before : List String) : List String → Option String
    | [] => none
    | name :: rest => if before.contains name then some name else search (name :: before) rest
  search [] names

structure Field where
  name : String
  /-- A field without a default is required. -/
  default? : Option Value

/-- The fields of a provider type, whose names are all different. -/
structure ProviderSchema where
  reference : TypeRef
  fields : List Field

namespace ProviderSchema

def declare (reference : TypeRef) (fields : List Field) : Except SchemaError ProviderSchema :=
  match firstRepeated? (fields.map Field.name) with
  | some name => .error (.duplicateField reference.qualifiedName name)
  | none => .ok ⟨reference, fields⟩

def declares (schema : ProviderSchema) (name : String) : Bool :=
  schema.fields.any fun field => field.name = name

/-- Takes the given values in their order; the last value for a name holds. -/
def collect (schema : ProviderSchema) :
    List (String × Value) → Dictionary Value → Except SchemaError (Dictionary Value)
  | [], d => .ok d
  | (name, value) :: rest, d =>
      if schema.declares name then collect schema rest (d.insert name value)
      else .error (.unknownField schema.reference.qualifiedName name)

/-- Fills in the defaults of fields that have no value yet, in the order of declaration. -/
def complete (provider : String) :
    List Field → Dictionary Value → Except SchemaError (Dictionary Value)
  | [], d => .ok d
  | field :: rest, d =>
      if d.contains field.name then complete provider rest d
      else
        match field.default? with
        | some value => complete provider rest (d.insert field.name value)
        | none => .error (.missingField provider field.name)

def instantiate (schema : ProviderSchema) (data : List (String × Value)) :
    Except SchemaError Provider := do
  let given ← schema.collect data []
  let data ← complete schema.reference.qualifiedName schema.fields given
  return ⟨schema.reference, data⟩

end ProviderSchema

end RuleAnalysis
