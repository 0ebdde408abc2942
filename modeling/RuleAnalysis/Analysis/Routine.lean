import RuleAnalysis.Analysis.Context
import RuleAnalysis.Depmap.Basic
import RuleAnalysis.Protocol.Answer
import RuleAnalysis.Protocol.OpenFiles
import RuleAnalysis.Schedule.Program

namespace RuleAnalysis

/-!
# Routines

A routine is what a rule does to analyze a target. It works on the target's
context through a fixed set of steps, so it cannot take back or change what it
has recorded. The members of a group are routines on the same context; they
take turns, and each runs until it has to wait for the host.

An action is prepared before its id is told or its output is asked for: a
program without an execution platform is given the host's.
-/

/-- What a routine has before it: the context, notes of its own and the files that the host has
handed over. -/
structure Desk (ν : Type) where
  context : Context
  notes : ν
  files : OpenFiles

/-- What a routine or a member of a group ends with. -/
abbrev Outcome := Except AnalysisError Value

inductive Routine (ν : Type) where
  | finish (outcome : Outcome)
  | ask (q : Query) (next : Response → Routine ν)
  | inspect (next : Desk ν → Routine ν)
  | note (notes : ν) (next : Routine ν)
  /-- Records an action and goes on with its place. -/
  | record (action : Action) (next : Nat → Routine ν)
  /-- Records the action that builds a depmap and goes on with the address of the tree. -/
  | build (depmap : Depmap) (next : Label → Routine ν)
  /-- Prepares the action in a place and goes on with its id. -/
  | identify (place : Nat) (next : Except AnalysisError String → Routine ν)
  /-- Prepares the action in a place and goes on with the address of its tree. -/
  | locate (place : Nat) (next : Except AnalysisError Label → Routine ν)
  /-- Prepares all actions and waits for the output of the one in a place. -/
  | await (place : Nat) (next : Except AnalysisError ActionOutput → Routine ν)
  | declare (target : RuleInvocation) (next : Routine ν)
  | provide (p : Provider) (next : Routine ν)
  /-- Runs routines together. -/
  | gather (members : List (Routine ν))
      (next : Except ProtocolError (List Outcome) → Routine ν)

/-- A program of an analysis. -/
abbrev AnalysisProgram (ν : Type) := Program (Desk ν) Outcome

/-- A procedure of an analysis that may fail. -/
abbrev AnalysisProcedure (ν α : Type) := Procedure (Desk ν) (Except AnalysisError α)

namespace Desk

variable {ν : Type}

def changeContext (desk : Desk ν) (change : Context → Context) : Desk ν :=
  { desk with context := change desk.context }

end Desk

/-! ## Preparing actions -/

namespace AnalysisProcedure

variable {ν : Type}

/-- The execution platform of the host. It is asked for unless it has been kept, and is kept when
the answer has come. -/
def hostPlatform : AnalysisProcedure ν Provider :=
  .read fun desk =>
    match desk.context.executePlatform with
    | some platform => .done (.ok platform)
    | none =>
        match desk.context.executePlatformType with
        | .error e => .done (.error e)
        | .ok type =>
            let q := Query.loadGlobalProvider type (desk.context.config.forRequest true)
            .ask (.query q) fun response =>
              match Answer.globalProvider q type response with
              | .error e => .done (.error e)
              | .ok platform =>
                  .modify (·.changeContext (·.keepPlatform platform)) (.ok platform)

/-- Gives the platform of the host to the actions in some places, if there are any. -/
def fill (places : List Nat) : AnalysisProcedure ν Unit :=
  if places.isEmpty then .done (.ok ())
  else
    hostPlatform.andThen fun platform =>
      .modify (·.changeContext (·.fillPlatforms places platform)) (.ok ())

/-- Prepares the action in a place. Whether it has to be is decided before anything is asked. -/
def prepare (place : Nat) : AnalysisProcedure ν Unit :=
  .read fun desk =>
    fill (if desk.context.actions[place]?.any Action.needsPlatform then [place] else [])

/-- Prepares all actions that have been recorded so far. -/
def prepareAll : AnalysisProcedure ν Unit :=
  .read fun desk => fill desk.context.unprepared

/-- The action in a place and all that have been recorded. -/
def recorded (place : Nat) : AnalysisProcedure ν (Action × List Action) :=
  .read fun desk =>
    match desk.context.actions[place]? with
    | some a => .done (.ok (a, desk.context.actions))
    | none => .done (.error (.rule ("action #" ++ toString place ++ " is no longer recorded")))

/-- The id of an action, which is prepared first. -/
def identify (place : Nat) : AnalysisProcedure ν String :=
  (prepare place).andThen fun _ =>
    (recorded place).andThen fun found => .done (.ok found.1.id)

/-- The address of the tree that an action puts out. -/
def locate (place : Nat) : AnalysisProcedure ν Label :=
  (identify place).andThen fun id =>
    .read fun desk => .done (.ok (desk.context.label.joinAction id))

/-- The output of an action. Whatever has been recorded is prepared first and sent along. -/
def output (place : Nat) : AnalysisProcedure ν ActionOutput :=
  prepareAll.andThen fun _ =>
    (recorded place).andThen fun found =>
      .ask (.actionOutput found.1 found.2) fun response => .done (Answer.output response)

end AnalysisProcedure

namespace Routine

variable {ν : Type}

mutual

/-- The program that a routine stands for. -/
def program : Routine ν → AnalysisProgram ν
  | finish outcome => .done outcome
  | ask q next => .ask (.query q) fun response => (next response).program
  | inspect next => .read fun desk => (next desk).program
  | note notes next => .modify (fun desk => { desk with notes := notes }) next.program
  | record action next =>
      .read fun desk =>
        .write (desk.changeContext (·.record action)) (next desk.context.actions.length).program
  | build depmap next =>
      .read fun desk =>
        .write (desk.changeContext (·.record depmap.action))
          (next (depmap.action.files desk.context.label)).program
  | identify place next => .perform (AnalysisProcedure.identify place) fun id => (next id).program
  | locate place next => .perform (AnalysisProcedure.locate place) fun tree => (next tree).program
  | await place next =>
      .perform (AnalysisProcedure.output place) fun output => (next output).program
  | declare target next => .modify (·.changeContext (·.declareTarget target)) next.program
  | provide p next => .modify (·.changeContext (·.provide p)) next.program
  | gather members next => .group (programs members) fun outcomes => (next outcomes).program

def programs : List (Routine ν) → List (AnalysisProgram ν)
  | [] => []
  | member :: rest => member.program :: programs rest

end

end Routine

/-- The values of members that have all succeeded, or the first failure in the order of
submission. -/
def gathered (outcomes : Except ProtocolError (List Outcome)) : Except AnalysisError (List Value) :=
  match outcomes with
  | .error e => .error (.protocol e)
  | .ok outcomes => outcomes.mapM id

end RuleAnalysis
