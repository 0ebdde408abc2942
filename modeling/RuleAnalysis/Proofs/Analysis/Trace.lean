import RuleAnalysis.Analysis.Lifecycle
import RuleAnalysis.Proofs.Schedule.Annotation

namespace RuleAnalysis

/-!
# Traced analyses

A traced analysis is an analysis that keeps notes of what it does. Its requests
tell what they are sent for, and it writes down every action as it was when it
was recorded, every id that it has been told and every address that it has been
given. The notes change nothing: seen without them, the course of a traced
analysis is the course of the analysis.
-/

inductive Purpose where
  /-- The rule has asked by itself. -/
  | own
  /-- Actions are being prepared. -/
  | platform
  /-- The output of an action is awaited. So many actions had been recorded when the call began. -/
  | output (known : Nat)
  deriving DecidableEq

/-- A request and what it is sent for. -/
structure Asked where
  purpose : Purpose
  request : Request

namespace Asked

/-- A request of a procedure that prepares actions. -/
def preparing (q : Request) : Asked := ⟨.platform, q⟩

/-- A request of a procedure that awaits an output. -/
def awaiting (known : Nat) : Request → Asked
  | .query q => preparing (.query q)
  | .actionOutput a all => ⟨.output known, .actionOutput a all⟩

end Asked

structure Traced (ν : Type) where
  desk : Desk ν
  /-- The actions as they were when they were recorded. -/
  recorded : List Action
  /-- The ids that have been told and the places of their actions. -/
  told : List (Nat × String)
  /-- The addresses that have been given and the places of their actions. -/
  addressed : List (Nat × Label)

namespace Traced

variable {ν : Type}

/-- Nothing has been noted yet. -/
def begin (desk : Desk ν) : Traced ν := ⟨desk, [], [], []⟩

def context (t : Traced ν) : Context := t.desk.context

def actions (t : Traced ν) : List Action := t.context.actions

def seat (t : Traced ν) (desk : Desk ν) : Traced ν := { t with desk := desk }

def changeContext (t : Traced ν) (change : Context → Context) : Traced ν :=
  t.seat (t.desk.changeContext change)

def record (t : Traced ν) (a : Action) : Traced ν :=
  { t.changeContext (·.record a) with recorded := t.recorded ++ [a] }

/-- Notes an id if one has been told. -/
def tell (t : Traced ν) (place : Nat) : Except AnalysisError String → Traced ν
  | .ok id => { t with told := t.told ++ [(place, id)] }
  | .error _ => t

/-- Notes an address if one has been given. -/
def address (t : Traced ν) (place : Nat) : Except AnalysisError Label → Traced ν
  | .ok tree => { t with addressed := t.addressed ++ [(place, tree)] }
  | .error _ => t

@[simp] theorem tell_desk (t : Traced ν) (place : Nat) (id : Except AnalysisError String) :
    (t.tell place id).desk = t.desk := by
  cases id <;> rfl

@[simp] theorem address_desk (t : Traced ν) (place : Nat) (tree : Except AnalysisError Label) :
    (t.address place tree).desk = t.desk := by
  cases tree <;> rfl

end Traced

abbrev TracedProgram (ν : Type) := Program (Traced ν) Outcome Asked

namespace Procedure

variable {ν α : Type}

/-- The procedure with requests that tell what they are sent for. -/
def traced (asked : Request → Asked) : Procedure (Desk ν) α → Procedure (Traced ν) α Asked
  | .done a => .done a
  | .ask q next => .ask (asked q) fun response => (next response).traced asked
  | .read next => .read fun t => (next t.desk).traced asked
  | .write desk next => .read fun t => .write (t.seat desk) (next.traced asked)

end Procedure

namespace Routine

variable {ν : Type}

mutual

/-- The program of a routine, traced. -/
def traced : Routine ν → TracedProgram ν
  | finish outcome => .done outcome
  | ask q next => .ask ⟨.own, .query q⟩ fun response => (next response).traced
  | inspect next => .read fun t => (next t.desk).traced
  | note notes next => .modify (fun t => t.seat { t.desk with notes := notes }) next.traced
  | record action next => .read fun t => .write (t.record action) (next t.actions.length).traced
  | build depmap next =>
      .read fun t =>
        let tree := depmap.action.files t.context.label
        .write ((t.record depmap.action).address t.actions.length (.ok tree)) (next tree).traced
  | identify place next =>
      .perform ((AnalysisProcedure.identify place).traced Asked.preparing) fun id =>
        .modify (·.tell place id) (next id).traced
  | locate place next =>
      .perform ((AnalysisProcedure.locate place).traced Asked.preparing) fun tree =>
        .modify (·.address place tree) (next tree).traced
  | await place next =>
      .read fun t =>
        .perform ((AnalysisProcedure.output place).traced (Asked.awaiting t.actions.length))
          fun output => (next output).traced
  | declare target next => .modify (·.changeContext (·.declareTarget target)) next.traced
  | provide p next => .modify (·.changeContext (·.provide p)) next.traced
  | gather members next => .group (tracedAll members) fun outcomes => (next outcomes).traced

def tracedAll : List (Routine ν) → List (TracedProgram ν)
  | [] => []
  | member :: rest => member.traced :: tracedAll rest

end

end Routine

namespace TracedProgram

variable {ν : Type}

def enter (phase : Phase) (next : TracedProgram ν) : TracedProgram ν :=
  .modify (·.changeContext (·.enter phase)) next

def resolveAttributes (attributes : List Attribute)
    (next : Except AnalysisError Unit → TracedProgram ν) : TracedProgram ν :=
  .group (attributes.map fun a => a.resolve.routine.traced) fun outcomes =>
    match gathered outcomes with
    | .error e => next (.error e)
    | .ok values =>
        .modify
          (·.changeContext (·.settleAttributes ((attributes.map Attribute.name).zip values)))
          (next (.ok ()))

end TracedProgram

namespace Rule

open TracedProgram

/-- The whole analysis of a target, traced. -/
def traced {ν : Type} (rule : Rule ν) : TracedProgram ν :=
  enter .resolvingAttributes <|
    resolveAttributes rule.schema.attributes fun
      | .error e => .done (.error e)
      | .ok () =>
          enter .analyzing <|
            rule.routine.traced.bind fun
              | .error e => .done (.error e)
              | .ok v =>
                  enter .preparingActions <|
                    .perform (AnalysisProcedure.prepareAll.traced Asked.preparing) fun
                      | .error e => .done (.error e)
                      | .ok () => enter .done (.done (.ok v))

end Rule

/-! ## The notes change nothing -/

section

variable {ν α : Type}

/-- The program is a traced copy of the other. -/
abbrev Program.Traces (p' : TracedProgram ν) (p : AnalysisProgram ν) : Prop :=
  Program.Annotates Traced.desk Asked.request p' p

theorem Asked.awaiting_request (known : Nat) (q : Request) :
    (Asked.awaiting known q).request = q := by
  cases q <;> rfl

theorem Program.Traces.perform {asked : Request → Asked} (same : ∀ q, (asked q).request = q)
    {next' : α → TracedProgram ν} {next : α → AnalysisProgram ν}
    (traces : ∀ a, (next' a).Traces (next a)) (procedure : Procedure (Desk ν) α) :
    Program.Traces (.perform (procedure.traced asked) next') (.perform procedure next) := by
  induction procedure with
  | done a => exact traces a
  | ask q more ih =>
      have copied : Traces _ (.ask (asked q).request _) := .ask (asked q) ih
      rw [same] at copied
      exact copied
  | read more ih => exact .read fun t => ih t.desk
  | write desk more ih => exact .look fun t => .write rfl ih

theorem Program.Traces.modify {change' : Traced ν → Traced ν} {change : Desk ν → Desk ν}
    (same : ∀ t, (change' t).desk = change t.desk) {p' : TracedProgram ν} {p : AnalysisProgram ν}
    (traces : p'.Traces p) : Program.Traces (.modify change' p') (.modify change p) :=
  .read fun t => .write (same t) traces

namespace Routine

mutual

theorem traces : (routine : Routine ν) → routine.traced.Traces routine.program
  | finish outcome => .done outcome
  | ask q next => .ask (Asked.mk .own (.query q)) fun response => traces (next response)
  | inspect next => .read fun t => traces (next t.desk)
  | note _ next => .modify (fun _ => rfl) (traces next)
  | record _ next => .read fun _ => .write rfl (traces (next _))
  | build _ next => .read fun _ => .write rfl (traces (next _))
  | identify place next =>
      .perform (fun _ => rfl)
        (fun id => .jot (fun t => t.tell_desk place id) fun _ => traces (next id)) _
  | locate place next =>
      .perform (fun _ => rfl)
        (fun tree => .jot (fun t => t.address_desk place tree) fun _ => traces (next tree)) _
  | await _ next =>
      .look fun _ =>
        Program.Traces.perform (Asked.awaiting_request _) (fun output => traces (next output)) _
  | declare _ next => .modify (fun _ => rfl) (traces next)
  | provide _ next => .modify (fun _ => rfl) (traces next)
  | gather members next =>
      .group (tracesAll members).1 (tracesAll members).2 fun outcomes => traces (next outcomes)

theorem tracesAll : (members : List (Routine ν)) →
    (tracedAll members).length = (programs members).length ∧
      ∀ pair ∈ (tracedAll members).zip (programs members), pair.1.Traces pair.2
  | [] => ⟨rfl, nofun⟩
  | member :: rest =>
      ⟨congrArg (· + 1) (tracesAll rest).1,
        List.forall_mem_cons.mpr ⟨traces member, (tracesAll rest).2⟩⟩

end

mutual

/-- A routine never stalls. -/
theorem live : (routine : Routine ν) → routine.program.Live
  | finish outcome => .done outcome
  | ask _ next => .ask fun response => live (next response)
  | inspect next => .read fun desk => live (next desk)
  | note _ next => (live next).modify _
  | record _ next => .read fun _ => .write (live (next _))
  | build _ next => .read fun _ => .write (live (next _))
  | identify _ next => .perform (fun id => live (next id)) _
  | locate _ next => .perform (fun tree => live (next tree)) _
  | await _ next => .perform (fun output => live (next output)) _
  | declare _ next => (live next).modify _
  | provide _ next => (live next).modify _
  | gather members next => .group (liveAll members) fun _ => live (next _)

theorem liveAll : (members : List (Routine ν)) → ∀ p ∈ programs members, p.Live
  | [] => nofun
  | member :: rest => List.forall_mem_cons.mpr ⟨live member, liveAll rest⟩

end

end Routine

end

/-! ## The course of an analysis -/

/-- Nothing has been recorded yet, and the host has not been asked for a platform. -/
structure Desk.Fresh {ν : Type} (desk : Desk ν) : Prop where
  actions : desk.context.actions = []
  platform : desk.context.executePlatform = none

/-- What the host hands over at a visit: its answers to the last batch, and files. -/
structure Delivery where
  responses : List Response
  files : OpenFiles → OpenFiles

namespace Delivery

variable {ν : Type}

def touch (d : Delivery) (desk : Desk ν) : Desk ν := { desk with files := d.files desk.files }

def visit (d : Delivery) : Visit (Desk ν) := ⟨d.responses, d.touch⟩

/-- The visit as a traced analysis has it. -/
def tracedVisit (d : Delivery) : Visit (Traced ν) :=
  ⟨d.responses, fun t => t.seat (d.touch t.desk)⟩

end Delivery

namespace Rule

variable {ν : Type}

theorem traces (rule : Rule ν) : rule.traced.Traces rule.analysis := by
  refine .modify (fun _ => rfl) (.group (by simp) ?_ fun outcomes => ?_)
  · rw [List.zip_map']
    exact List.forall_mem_map.mpr fun a _ => a.resolve.routine.traces
  · cases gathered outcomes with
    | error e => exact .done _
    | ok values =>
        refine Program.Traces.modify (fun _ => rfl)
          (Program.Traces.modify (fun _ => rfl) (rule.routine.traces.bind fun r => ?_))
        cases r with
        | error e => exact .done _
        | ok v =>
            refine Program.Traces.modify (fun _ => rfl) (.perform (fun _ => rfl) (fun outcome => ?_) _)
            cases outcome with
            | error e => exact .done _
            | ok _ => exact Program.Traces.modify (fun _ => rfl) (.done _)

theorem live (rule : Rule ν) : rule.analysis.Live := by
  refine .modify (.group ?_ fun outcomes => ?_) _
  · exact List.forall_mem_map.mpr fun a _ => a.resolve.routine.live
  · cases gathered (.ok outcomes) with
    | error e => exact .done _
    | ok values =>
        refine .modify (.modify (rule.routine.live.bind fun r => ?_) _) _
        cases r with
        | error e => exact .done _
        | ok v =>
            refine .modify (.perform (fun outcome => ?_) _) _
            cases outcome with
            | error e => exact .done _
            | ok _ => exact .modify (.done _) _

/-- The course of the task that analyzes a target. It begins with a visit that answers nothing. -/
def course (rule : Rule ν) (desk : Desk ν) (deliveries : List Delivery) :
    Course (Desk ν) Outcome Request :=
  (TaskOf.ofProgram rule.analysis).course desk (⟨[], id⟩ :: deliveries.map Delivery.visit)

def tracedCourse (rule : Rule ν) (desk : Desk ν) (deliveries : List Delivery) :
    Course (Traced ν) Outcome Asked :=
  (TaskOf.ofProgram rule.traced).course (.begin desk)
    (⟨[], id⟩ :: deliveries.map Delivery.tracedVisit)

/-- Seen without its notes, the course of a traced analysis is that of the analysis. -/
theorem tracedCourse_seen (rule : Rule ν) (desk : Desk ν) (deliveries : List Delivery) :
    (rule.tracedCourse desk deliveries).seen Traced.desk Asked.request =
      rule.course desk deliveries := by
  have copied := Program.Annotates.course
    (fun (touch : Desk ν → Desk ν) (t : Traced ν) => (rfl : (t.seat (touch t.desk)).desk = _))
    rule.traces rule.live id (.begin desk) (deliveries.map Delivery.visit)
  rw [List.map_cons, List.map_map] at copied
  exact copied

theorem tracedCourse_actions (rule : Rule ν) (desk : Desk ν) (deliveries : List Delivery) :
    (rule.tracedCourse desk deliveries).state.actions =
      (rule.course desk deliveries).state.context.analysis.actions := by
  rw [← rule.tracedCourse_seen desk deliveries]
  rfl

end Rule

/-! ## A plain target

A target without attributes on a Linux host shows what routines come to.
-/

namespace PlainTarget

def reference : TypeRef := .builtin "rules" "Plain"

def config : BuildConfig := ⟨[], [(OptionFamily.family Os, OptionFamily.reference Os.linux)]⟩

def desk : Desk Unit :=
  ⟨.ofTarget ⟨reference, []⟩ "plain" ⟨"//plain"⟩ [] config, (), .empty⟩

theorem desk_fresh : desk.Fresh := ⟨rfl, rfl⟩

def rule (routine : Routine Unit) : Rule Unit := ⟨⟨reference, []⟩, routine, ()⟩

/-- A program that has been given no platform. -/
def program (path : String) : Action := .ofData (.run (.ofCommand ⟨none, none, path, [], []⟩ []))

def platform : Provider := ⟨reference, []⟩

end PlainTarget

end RuleAnalysis
