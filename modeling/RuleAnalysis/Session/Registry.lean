import RuleAnalysis.Analysis.Lifecycle

namespace RuleAnalysis

/-!
# Registries of rules

A registry holds the rules that can be analyzed, each under its reference. A
rule that is registered again takes the place of the one before it.
-/

structure Registry (ν : Type) where
  rules : List (Rule ν)

namespace Registry

variable {ν : Type}

def empty : Registry ν := ⟨[]⟩

def reference (rule : Rule ν) : TypeRef := rule.schema.reference

def register (registry : Registry ν) (rule : Rule ν) : Registry ν :=
  ⟨registry.rules.filter (fun other => reference other ≠ reference rule) ++ [rule]⟩

def ofList (rules : List (Rule ν)) : Registry ν :=
  rules.foldl register empty

def get? (registry : Registry ν) (r : TypeRef) : Option (Rule ν) :=
  registry.rules.find? fun rule => reference rule = r

def size (registry : Registry ν) : Nat := registry.rules.length

def isEmpty (registry : Registry ν) : Bool := registry.rules.isEmpty

end Registry

end RuleAnalysis
