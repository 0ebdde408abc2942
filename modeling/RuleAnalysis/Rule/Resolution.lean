import RuleAnalysis.Protocol.Answer
import RuleAnalysis.Rule.Attribute

namespace RuleAnalysis

/-!
# Resolving attributes

When a target is analyzed its build configuration is known, so every attribute
has a definite value. Some are at hand; a provider has to be asked for, from a
target or from those that are registered globally.
-/

/-- Picks the one provider of a type among those of a target. -/
def singleProvider (type : TypeRef) (target : Label) (ps : List Provider) :
    Except AnalysisError Provider :=
  match ps.filter fun p => p.isInstanceOf type with
  | [p] => .ok p
  | [] => .error (.resolve (.noMatchingProvider type.display target.text))
  | _ => .error (.resolve (.ambiguousProvider type.display target.text))

/-- How the value of an attribute is come by. -/
inductive Resolution where
  | value (v : Value)
  | provider (type : TypeRef) (target : Label) (host : Bool)
  | globalProvider (type : TypeRef) (host : Bool)

namespace Attribute

/-- A provider that is looked up at the target which a value names. -/
def lookUp (a : Attribute) (type : TypeRef) (host : Bool) (v : Value) :
    Except SchemaError Resolution :=
  (a.coerceLabel v none).map fun target => .provider type target host

/-- The resolution of a supplied value, or of the default if none has been supplied. Selections are
resolved in what has been supplied; a default is taken as it is. -/
def resolution (a : Attribute) (config : BuildConfig) (supplied : Option Value) :
    Except SchemaError Resolution :=
  let given :=
    match supplied with
    | some v => some (v.resolveSelections config)
    | none => a.default?
  match a.kind with
  | .provider type host => a.lookUp type host (given.getD .null)
  | .globalProvider type host =>
      match given with
      | none | some .null => .ok (.globalProvider type host)
      | some (.provider p) => .ok (.value (.provider p))
      | some v => a.lookUp type host v
  | _ => (a.coerceValue (given.getD .null)).map .value

end Attribute

end RuleAnalysis
