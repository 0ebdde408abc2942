import RuleAnalysis.Analysis.Lifecycle
import RuleAnalysis.Recipe.Instruction

namespace RuleAnalysis
namespace Recipe

/-!
# Recipes

A recipe is a routine that is written down: statements that are carried out
one after another, together, or with their failure caught. What they yield is
logged, and the log is the last provider of the target.
-/

inductive Statement where
  | once (i : Instruction)
  /-- Carries out statements together. -/
  | gather (items : List Statement)
  /-- Carries out statements together that have names. -/
  | gatherMap (items : List (String × Statement))
  /-- Yields the report of a failure in its place. -/
  | attempt (s : Statement)

instance : Inhabited Statement := ⟨.gather []⟩

/-- A report as a value. -/
def failure (r : Report) : Value :=
  let message : Dictionary Value := (r.message.map fun text => ("message", Value.string text)).toList
  .map (message.insert "error" (.string r.kind))

namespace Statement

mutual

def work : Statement → Doing Value
  | once i => i.work
  | gather items => do return .list (← Work.gather (works items))
  | gatherMap items => do return .map (← Work.gatherMap (namedWorks items))
  | attempt s => s.work.orElse fun e => pure (failure e.report)

def works : List Statement → List (Doing Value)
  | [] => []
  | s :: rest => s.work :: works rest

def namedWorks : List (String × Statement) → List (String × Doing Value)
  | [] => []
  | (name, s) :: rest => (name, s.work) :: namedWorks rest

end

end Statement

/-- The type of the provider that holds the log of a recipe. -/
def logType : TypeRef := .builtin "oracle" "Log"

/-- Carries out statements in their order and provides the log. -/
def work (statements : List Statement) : Doing Value := do
  let log ← statements.mapM Statement.work
  Work.provide ⟨logType, [("log", .list log)]⟩
  return .null

/-- A rule as it is written down, with a recipe or without. -/
structure WrittenRule where
  spec : RuleSpec
  recipe : Option (List Statement)

namespace WrittenRule

/-- The rule. Without a recipe its analysis does nothing and provides nothing. -/
def read (r : WrittenRule) : Reading (Rule Notes) := do
  let schema ← r.spec.read
  let routine := (r.recipe.map fun statements => (work statements).routine).getD (.finish (.ok .null))
  return ⟨schema, routine, []⟩

end WrittenRule

end Recipe
end RuleAnalysis
