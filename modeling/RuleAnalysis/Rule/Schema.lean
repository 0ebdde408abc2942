import RuleAnalysis.Rule.Attribute
import RuleAnalysis.Rule.Invocation
import RuleAnalysis.Schema.Provider

namespace RuleAnalysis

/-!
# Rule schemas

A rule declares its attributes. It is invoked with values for them: every
value is coerced at once, what is left out takes its default, and what has
none may not be left out.
-/

/-- The attributes of a rule, whose names are all different. -/
structure RuleSchema where
  reference : TypeRef
  attributes : List Attribute

namespace RuleSchema

def declare (reference : TypeRef) (attributes : List Attribute) :
    Except SchemaError RuleSchema :=
  match firstRepeated? (attributes.map Attribute.name) with
  | some name => .error (.duplicateAttribute reference.qualifiedName name)
  | none => .ok ⟨reference, attributes⟩

def declared? (schema : RuleSchema) (name : String) : Option Attribute :=
  schema.attributes.find? fun a => a.name = name

/-- Coerces the supplied values in their order; the last value for a name holds. -/
def collect (schema : RuleSchema) (package? : Option Label) :
    List (String × Value) → Dictionary Value → Except SchemaError (Dictionary Value)
  | [], d => .ok d
  | (name, value) :: rest, d =>
      match schema.declared? name with
      | none => .error (.unknownAttribute schema.reference.qualifiedName name)
      | some a => do
          let coerced ← a.coerceSource value package?
          collect schema package? rest (d.insert name coerced)

/-- Fills in the coerced defaults of attributes that have been left out, in the order of
declaration. -/
def complete (rule : String) (package? : Option Label) :
    List Attribute → Dictionary Value → Except SchemaError (Dictionary Value)
  | [], d => .ok d
  | a :: rest, d =>
      if d.contains a.name then complete rule package? rest d
      else if !a.isOptional then .error (.missingAttribute rule a.name)
      else
        match a.default? with
        | some value => do
            let coerced ← a.coerceSource value package?
            complete rule package? rest (d.insert a.name coerced)
        | none => complete rule package? rest d

/-- Instantiates the rule as a target. -/
def invoke (schema : RuleSchema) (name : String) (values : List (String × Value))
    (package? : Option Label) : Except SchemaError RuleInvocation := do
  if name = "" then throw (.invalidName schema.reference.qualifiedName)
  let given ← schema.collect package? values []
  let input ← complete schema.reference.qualifiedName package? schema.attributes given
  return ⟨name, schema.reference, input, []⟩

end RuleSchema

end RuleAnalysis
