import RuleAnalysis.Config.Resolution
import RuleAnalysis.Value.Reader

namespace RuleAnalysis

/-!
# Attributes

An attribute is what a rule is told about a target. A supplied value is
coerced when the rule is invoked: texts become labels, labels are anchored to
the invoking package, and lists of patterns become glob sets. A value that
depends on the build configuration is left alone until the configuration is
known.
-/

inductive AttributeKind where
  /-- Any value, unchecked. -/
  | any
  | label
  /-- A label of a file. -/
  | file
  | labelList
  /-- A map of names to labels or lists of labels. -/
  | labelMap
  /-- The provider of a type that the labelled target yields. -/
  | provider (type : TypeRef) (host : Bool)
  /-- The globally registered provider of a type, unless a target is named. -/
  | globalProvider (type : TypeRef) (host : Bool)
  | globSet
  deriving DecidableEq, Repr

structure Attribute where
  name : String
  kind : AttributeKind
  default? : Option Value

namespace AttributeKind

/-- Providers are looked up for the host; other kinds are not affected. -/
def forHost : AttributeKind → AttributeKind
  | provider type _ => provider type true
  | globalProvider type _ => globalProvider type true
  | kind => kind

end AttributeKind

namespace Attribute

/-- Whether an invocation may leave the attribute out. -/
def isOptional (a : Attribute) : Bool :=
  match a.kind with
  | .globalProvider .. => true
  | _ => a.default?.isSome

def wrongShape (a : Attribute) (expected : String) (actual : Value) : SchemaError :=
  .wrongShape ("attribute " ++ Text.quote a.name) expected actual.typeName

/-- A label, given as such or by its text. -/
def readLabel (a : Attribute) : Value → Except SchemaError Label
  | .label l => .ok l
  | .string s => (Label.parse s).mapError .label
  | v => .error (a.wrongShape "label" v)

/-- Anchors a label to a package; a bare name is the name of a file in it. -/
def anchor (package? : Option Label) (l : Label) : Except SchemaError Label :=
  match package? with
  | none => .ok l
  | some package =>
      if l.form = .packageRelative && !l.chars.contains ':' then
        ((Label.parse (":" ++ l.text)).mapError .label).map package.join
      else .ok (package.join l)

def coerceLabel (a : Attribute) (v : Value) (package? : Option Label) :
    Except SchemaError Label := do
  anchor package? (← a.readLabel v)

def coerceLabelList (a : Attribute) (v : Value) (package? : Option Label) :
    Except SchemaError Value :=
  match v with
  | .list items =>
      (items.mapM fun item => (a.coerceLabel item package?).map .label).map .list
  | v => .error (a.wrongShape "list of labels" v)

/-- One binding of a label map. -/
def coerceBinding (a : Attribute) (package? : Option Label) (v : Value) :
    Except SchemaError Value :=
  match v with
  | .list _ => a.coerceLabelList v package?
  | v => (a.coerceLabel v package?).map .label

def readPattern (a : Attribute) : Value → Except SchemaError String
  | .string s => .ok s
  | v => .error (a.wrongShape "glob pattern" v)

/-- Coerces a value that no longer depends on the configuration. -/
def coerceValue (a : Attribute) (v : Value) : Except SchemaError Value :=
  match a.kind with
  | .globSet =>
      match v with
      | .globSet _ => .ok v
      | .list items => do
          let patterns ← items.mapM a.readPattern
          let set ← (GlobSet.parse patterns).mapError .label
          return .globSet set
      | v => .error (a.wrongShape "glob set or list of patterns" v)
  | .label | .file =>
      match v with
      | .string _ => (a.coerceLabel v none).map .label
      | v => .ok v
  | _ => .ok v

/-- Coerces a value that is supplied for an invocation from a package, if it is from one. -/
def coerceSource (a : Attribute) (v : Value) (package? : Option Label) :
    Except SchemaError Value :=
  if v.isUnresolved then .ok v
  else
    match a.kind with
    | .label | .file | .provider .. | .globalProvider .. =>
        (a.coerceLabel v package?).map .label
    | .labelList => a.coerceLabelList v package?
    | .labelMap =>
        match v with
        | .map entries =>
            (entries.mapM fun entry =>
              (a.coerceBinding package? entry.2).map fun value => (entry.1, value)).map .map
        | v => .error (a.wrongShape "map of labels" v)
    | .any | .globSet => a.coerceValue v

end Attribute

end RuleAnalysis
