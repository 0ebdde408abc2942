import RuleAnalysis.Schedule.Group

namespace RuleAnalysis

/-!
# Tasks

A task runs one program, one exchange with the host at a time. Each
resumption brings the answers to the last batch of requests; the first brings
none. A finished task cannot be resumed.
-/

namespace TaskOf

variable {σ ρ κ : Type}

def isFinished (t : Task σ ρ κ) : Bool := t.activity?.isNone

/-- Brings the answers to the last batch and runs until the next one. -/
def resume (t : Task σ ρ κ) : Resumption σ ρ κ :=
  match t.activity? with
  | none => fun _ s => (.error .finished, t, s)
  | some activity => t.resumeBy activity.poll

end TaskOf

end RuleAnalysis
