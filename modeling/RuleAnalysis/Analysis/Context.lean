import RuleAnalysis.Analysis.Error
import RuleAnalysis.Config.Family
import RuleAnalysis.Exec.Platform
import RuleAnalysis.Protocol.Message
import RuleAnalysis.Rule.Schema

namespace RuleAnalysis

/-!
# The context of an analysis

The context of a target holds what is known about the target from the start
and what its analysis has come to so far. Actions are only ever added behind
those that have been recorded, and a recorded action changes in one way only:
it is given the execution platform that it lacks.
-/

inductive Phase where
  | instantiated
  | resolvingAttributes
  | analyzing
  | preparingActions
  | done
  deriving DecidableEq, Repr

namespace Phase

def text : Phase → String
  | instantiated => "Instantiated"
  | resolvingAttributes => "ResolvingAttributes"
  | analyzing => "Analyzing"
  | preparingActions => "PreparingActions"
  | done => "Done"

end Phase

structure Context where
  rule : RuleSchema
  name : String
  label : Label
  attributesInput : Dictionary Value
  config : BuildConfig
  resolved : Dictionary Value
  actions : List Action
  /-- The execution platform of the host, once it has been asked for. -/
  executePlatform : Option Provider
  syntheticTargets : List RuleInvocation
  providers : List Provider
  phase : Phase

namespace Context

/-- A target that has been instantiated and not yet analyzed. -/
def ofTarget (rule : RuleSchema) (name : String) (label : Label)
    (attributesInput : Dictionary Value) (config : BuildConfig) : Context where
  rule := rule
  name := name
  label := label
  attributesInput := attributesInput
  config := config
  resolved := []
  actions := []
  executePlatform := none
  syntheticTargets := []
  providers := []
  phase := .instantiated

/-- The package of the target; a target outside of any package is its own. -/
def package (c : Context) : Label :=
  c.label.package?.getD c.label

/-- The resolved value of an attribute. -/
def attributeValue (c : Context) (name : String) : Except AnalysisError Value :=
  match c.resolved.get? name with
  | some v => .ok v
  | none => .error (.resolve (.unresolvedAttribute name))

def enter (c : Context) (phase : Phase) : Context := { c with phase := phase }

/-- Settles the values of attributes, which are given by name. -/
def settleAttributes (c : Context) (values : List (String × Value)) : Context :=
  { c with
    resolved := values.foldl (fun d entry => d.insert entry.1 entry.2) c.resolved }

def record (c : Context) (a : Action) : Context := { c with actions := c.actions ++ [a] }

def declareTarget (c : Context) (i : RuleInvocation) : Context :=
  { c with syntheticTargets := c.syntheticTargets ++ [i] }

def provide (c : Context) (p : Provider) : Context := { c with providers := c.providers ++ [p] }

/-- Keeps the execution platform of the host, so that it need not be asked for again. -/
def keepPlatform (c : Context) (platform : Provider) : Context :=
  { c with executePlatform := some platform }

/-- The places of the actions that lack an execution platform. -/
def unprepared (c : Context) : List Nat :=
  (List.range c.actions.length).filter fun i => c.actions[i]?.any Action.needsPlatform

/-- Gives an execution platform to the actions in some places. -/
def fillPlatforms (c : Context) (places : List Nat) (platform : Provider) : Context :=
  { c with actions := places.foldl (fun as i => as.modify i (·.fillPlatform platform)) c.actions }

/-- The type of the provider that describes execution on the host. -/
def executePlatformType (c : Context) : Except AnalysisError TypeRef :=
  match (c.config.getHost? (OptionFamily.family Os)).bind OptionFamily.ofReference? with
  | none => .error (.resolve (.noExecutePlatform "unset"))
  | some os =>
      match Os.executePlatform? os with
      | some type => .ok type
      | none => .error (.resolve (.noExecutePlatform os.text))

/-- What the analysis has come to. -/
def analysis (c : Context) : Analysis := ⟨c.actions, c.syntheticTargets, c.providers⟩

end Context

end RuleAnalysis
