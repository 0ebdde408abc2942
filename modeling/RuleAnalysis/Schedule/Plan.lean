import RuleAnalysis.Schedule.Task

namespace RuleAnalysis

/-!
# Plans

A plan is a small program that is written down: it asks whether targets exist,
one after another or all at once, and combines other plans in sequence or as
groups. What it comes to is a tree that shows the answers.
-/

inductive Plan where
  /-- Asks about one target after another. -/
  | probes (targets : List Label)
  /-- Asks about all targets at once. -/
  | burst (targets : List Label)
  | sequence (plans : List Plan)
  | group (members : List Plan)
  | stall
  | constant (tree : Json)

instance : Inhabited Plan := ⟨.stall⟩

namespace Plan

/-- How a response is shown: the truth that it tells, or its kind. -/
def shown : Response → Json
  | .boolean value => .bool value
  | r => .string r.kind

/-- What a plan comes to. -/
abbrev Result := Except ProtocolError Json

abbrev PlanProgram := Program Unit Result

def probe (target : Label) (next : Json → PlanProgram) : PlanProgram :=
  .ask (.query (.targetExists target)) fun response => next (shown response)

def probeEach (next : List Json → PlanProgram) : List Label → List Json → PlanProgram
  | [], answers => next answers
  | target :: rest, answers =>
      probe target fun answer => probeEach next rest (answers ++ [answer])

/-- The value of a member of a group; a failure is shown by its report. -/
def memberValue : Result → Json
  | .ok tree => tree
  | .error e => e.report.encode

mutual

def programThen : Plan → (Result → PlanProgram) → PlanProgram
  | probes targets, next => probeEach (fun answers => next (.ok (.array answers))) targets []
  | burst targets, next =>
      .group (targets.map fun target => probe target fun answer => .done (.ok answer))
        fun results => next (results.map fun answers => .array (answers.map memberValue))
  | sequence plans, next => sequenceThen plans [] next
  | group members, next =>
      .group (programs members)
        fun results => next (results.map fun values => .array (values.map memberValue))
  | stall, _ => .stall
  | constant tree, next => next (.ok tree)

def sequenceThen : List Plan → List Json → (Result → PlanProgram) → PlanProgram
  | [], values, next => next (.ok (.array values))
  | plan :: rest, values, next =>
      programThen plan fun
        | .error e => next (.error e)
        | .ok v => sequenceThen rest (values ++ [v]) next

def programs : List Plan → List PlanProgram
  | [] => []
  | plan :: rest => programThen plan .done :: programs rest

end

def program (plan : Plan) : PlanProgram := plan.programThen .done

/-- The steps of a task that carries out the plan, and whether it has finished after each. -/
def run (plan : Plan) (batches : List (List Response)) :
    List (Except ProtocolError (Step Result) × Bool) :=
  resumeAll (.ofProgram plan.program) batches
where
  resumeAll (t : Task Unit Result) :
      List (List Response) → List (Except ProtocolError (Step Result) × Bool)
    | [] => []
    | batch :: rest =>
        let (step, t, _) := t.resume batch ()
        (step, t.isFinished) :: resumeAll t rest

end Plan

end RuleAnalysis
