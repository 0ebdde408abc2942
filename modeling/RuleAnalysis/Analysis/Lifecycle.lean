import RuleAnalysis.Analysis.Work

namespace RuleAnalysis

/-!
# The course of an analysis

The attributes of a target are resolved together. Then the rule's routine
runs, and when it has succeeded the actions it has recorded are prepared. The
first failure ends the analysis; nothing is tried again or taken back.
-/

/-- A rule that can be analyzed. -/
structure Rule (ν : Type) where
  schema : RuleSchema
  routine : Routine ν
  /-- What the notes of the routine are at first. -/
  notes : ν

namespace Attribute

/-- The value of an attribute in an analysis. -/
def resolve {ν : Type} (a : Attribute) : Work ν Value := do
  let c ← Work.context
  match ← Work.ofExcept
      ((a.resolution c.config (c.attributesInput.get? a.name)).mapError .schema) with
  | .value v => return v
  | .provider type target host => return .provider (← Work.resolveProvider type target host)
  | .globalProvider type host => return .provider (← Work.resolveGlobalProvider type host)

end Attribute

namespace AnalysisProgram

variable {ν : Type}

def enter (phase : Phase) (next : AnalysisProgram ν) : AnalysisProgram ν :=
  .modify (·.changeContext (·.enter phase)) next

/-- Resolves the attributes of a rule together. -/
def resolveAttributes (attributes : List Attribute)
    (next : Except AnalysisError Unit → AnalysisProgram ν) : AnalysisProgram ν :=
  .group (attributes.map fun a => a.resolve.routine.program) fun outcomes =>
    match gathered outcomes with
    | .error e => next (.error e)
    | .ok values =>
        .modify
          (·.changeContext (·.settleAttributes ((attributes.map Attribute.name).zip values)))
          (next (.ok ()))

end AnalysisProgram

namespace Rule

open AnalysisProgram

/-- The whole analysis of a target. -/
def analysis {ν : Type} (rule : Rule ν) : AnalysisProgram ν :=
  enter .resolvingAttributes <|
    resolveAttributes rule.schema.attributes fun
      | .error e => .done (.error e)
      | .ok () =>
          enter .analyzing <|
            rule.routine.program.bind fun
              | .error e => .done (.error e)
              | .ok v =>
                  enter .preparingActions <|
                    .perform AnalysisProcedure.prepareAll fun
                      | .error e => .done (.error e)
                      | .ok () => enter .done (.done (.ok v))

end Rule

end RuleAnalysis
