import RuleAnalysis.Label.Error

namespace RuleAnalysis

/-!
# Faults of declarations and of what is supplied for them

Rules declare attributes and providers declare fields. Whatever is supplied
is checked against the declaration before a host is asked for anything.
-/

inductive SchemaError where
  | invalidName (rule : String)
  | unknownAttribute (rule name : String)
  | missingAttribute (rule name : String)
  | duplicateAttribute (rule name : String)
  | duplicateField (provider name : String)
  | wrongShape (context expected actual : String)
  | unknownField (provider name : String)
  | missingField (provider name : String)
  | label (fault : LabelError)
  deriving DecidableEq, Repr

namespace SchemaError

open Text (quote)

def message : SchemaError → String
  | invalidName rule => "expected a non-empty target name for rule " ++ rule
  | unknownAttribute rule name => "rule " ++ rule ++ " has no attribute named " ++ quote name
  | missingAttribute rule name =>
      "rule " ++ rule ++ " expects a value for attribute " ++ quote name
  | duplicateAttribute rule name =>
      "attribute " ++ quote name ++ " declared more than once on rule " ++ rule
  | duplicateField provider name =>
      "field " ++ quote name ++ " declared more than once on provider " ++ provider
  | wrongShape context expected actual => context ++ ": expected " ++ expected ++ ", got " ++ actual
  | unknownField provider name => "provider " ++ provider ++ " has no field " ++ quote name
  | missingField provider name => "provider " ++ provider ++ " requires field " ++ quote name
  | label fault => fault.message

def kind : SchemaError → String
  | invalidName _ => "Schema.InvalidName"
  | unknownAttribute .. => "Schema.UnknownAttribute"
  | missingAttribute .. => "Schema.MissingAttribute"
  | duplicateAttribute .. => "Schema.DuplicateAttribute"
  | duplicateField .. => "Schema.DuplicateField"
  | wrongShape .. => "Schema.WrongShape"
  | unknownField .. => "Schema.UnknownField"
  | missingField .. => "Schema.MissingField"
  | label fault => "Schema." ++ fault.kind

end SchemaError

end RuleAnalysis
