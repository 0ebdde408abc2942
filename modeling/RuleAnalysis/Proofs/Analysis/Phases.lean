import RuleAnalysis.Proofs.Analysis.Trace
import RuleAnalysis.Proofs.Schedule.Stages

namespace RuleAnalysis

/-!
# The phases of an analysis

Routines add to the context of a target and take nothing back. What they can
add to is not all of it: the target, its configuration, the values of its
attributes and the phase of its analysis are out of their reach. The phase is
moved on by the analysis alone, and only forward.
-/

/-! ## The order of the phases -/

namespace Phase

def rank : Phase → Nat
  | instantiated => 0
  | resolvingAttributes => 1
  | analyzing => 2
  | preparingActions => 3
  | done => 4

instance : LE Phase := ⟨fun before after => before.rank ≤ after.rank⟩

instance (before after : Phase) : Decidable (before ≤ after) :=
  inferInstanceAs (Decidable (before.rank ≤ after.rank))

theorem onward : Onward (· ≤ · : Phase → Phase → Prop) :=
  ⟨fun phase => Nat.le_refl phase.rank, Nat.le_trans⟩

end Phase

variable {ν α : Type}

/-! ## What routines leave alone -/

/-- The context without what routines add to. -/
def Context.outline (c : Context) : Context :=
  { c with actions := [], executePlatform := none, syntheticTargets := [], providers := [] }

/-- The stage shows nothing of what routines do. -/
def Desk.Beyond (stage : Desk ν → α) : Prop :=
  ∀ ⦃desk desk'⦄, desk.context.outline = desk'.context.outline → stage desk = stage desk'

namespace Desk

theorem beyond_phase : Beyond fun desk : Desk ν => desk.context.phase := by
  intro desk desk' same
  have phases : desk.context.outline.phase = desk'.context.outline.phase := by
    rw [same]
  exact phases

theorem beyond_resolved : Beyond fun desk : Desk ν => desk.context.resolved := by
  intro desk desk' same
  have values : desk.context.outline.resolved = desk'.context.outline.resolved := by
    rw [same]
  exact values

theorem Beyond.unseen {stage : Desk ν → α} (beyond : Beyond stage) (change : Context → Context)
    (same : ∀ c, (change c).outline = c.outline) (desk : Desk ν) :
    stage (desk.changeContext change) = stage desk :=
  beyond (same desk.context)

end Desk

variable {stage : Desk ν → α} {a : α}

namespace AnalysisProcedure

theorem stays_hostPlatform (beyond : Desk.Beyond stage) : hostPlatform.Stays stage a := by
  refine .read fun desk _ => ?_
  cases desk.context.executePlatform with
  | some platform => exact .done _
  | none =>
      cases desk.context.executePlatformType with
      | error e => exact .done _
      | ok type =>
          refine .ask fun response => ?_
          split
          · exact .done _
          · exact .modify (beyond.unseen (·.keepPlatform _) fun _ => rfl) _

theorem stays_fill (beyond : Desk.Beyond stage) (places : List Nat) :
    (fill places).Stays stage a := by
  unfold fill
  split
  · exact .done _
  · exact (stays_hostPlatform beyond).andThen fun _ =>
      .modify (beyond.unseen (·.fillPlatforms places _) fun _ => rfl) _

theorem stays_prepareAll (beyond : Desk.Beyond stage) : prepareAll.Stays stage a :=
  .read fun _ _ => stays_fill beyond _

theorem stays_recorded (place : Nat) : (recorded place).Stays stage a := by
  refine .read fun desk _ => ?_
  split <;> exact .done _

theorem stays_identify (beyond : Desk.Beyond stage) (place : Nat) :
    (identify place).Stays stage a := by
  have prepared : (prepare place).Stays stage a := .read fun _ _ => stays_fill beyond _
  exact prepared.andThen fun _ => (stays_recorded place).andThen fun _ => .done _

theorem stays_locate (beyond : Desk.Beyond stage) (place : Nat) : (locate place).Stays stage a :=
  (stays_identify beyond place).andThen fun _ => .read fun _ _ => .done _

theorem stays_output (beyond : Desk.Beyond stage) (place : Nat) : (output place).Stays stage a :=
  (stays_prepareAll beyond).andThen fun _ =>
    (stays_recorded place).andThen fun _ => .ask fun _ => .done _

end AnalysisProcedure

namespace Routine

/-- An action is recorded beyond the stage. -/
theorem moves_record (beyond : Desk.Beyond stage) (action : Action) {p : Desk ν → AnalysisProgram ν}
    (moves : ∀ desk, (p desk).Moves stage Eq a) :
    Program.Moves stage Eq (.read fun desk => .write (desk.changeContext (·.record action)) (p desk))
      a := by
  refine .read fun desk here => ?_
  have stays : stage (desk.changeContext (·.record action)) = a :=
    (beyond.unseen (·.record action) (fun _ => rfl) desk).trans here
  exact .write stays.symm (stays ▸ moves desk)

mutual

theorem moves (beyond : Desk.Beyond stage) : (routine : Routine ν) → routine.program.Moves stage Eq a
  | finish outcome => .done outcome
  | ask _ next => .ask fun response => moves beyond (next response)
  | inspect next => .read fun desk _ => moves beyond (next desk)
  | note _ next => .modify_unseen .eq (fun _ => beyond rfl) (moves beyond next)
  | record action next => moves_record beyond action fun _ => moves beyond (next _)
  | build depmap next => moves_record beyond depmap.action fun _ => moves beyond (next _)
  | identify place next =>
      .perform .eq (AnalysisProcedure.stays_identify beyond place) fun id => moves beyond (next id)
  | locate place next =>
      .perform .eq (AnalysisProcedure.stays_locate beyond place) fun tree => moves beyond (next tree)
  | await place next =>
      .perform .eq (AnalysisProcedure.stays_output beyond place) fun output =>
        moves beyond (next output)
  | declare _ next => .modify_unseen .eq (beyond.unseen _ fun _ => rfl) (moves beyond next)
  | provide _ next => .modify_unseen .eq (beyond.unseen _ fun _ => rfl) (moves beyond next)
  | gather members next => .group (movesAll beyond members) fun rs => moves beyond (next (.ok rs))

theorem movesAll (beyond : Desk.Beyond stage) : (members : List (Routine ν)) →
    ∀ p ∈ programs members, p.Moves stage Eq a
  | [] => nofun
  | member :: rest => List.forall_mem_cons.mpr ⟨moves beyond member, movesAll beyond rest⟩

end

end Routine

/-! ## The analysis of a target -/

namespace Rule

open AnalysisProgram

/-- What is left of an analysis when the attributes have been resolved. -/
def body (rule : Rule ν) : AnalysisProgram ν :=
  enter .analyzing <|
    rule.routine.program.bind fun
      | .error e => .done (.error e)
      | .ok v =>
          enter .preparingActions <|
            .perform AnalysisProcedure.prepareAll fun
              | .error e => .done (.error e)
              | .ok () => enter .done (.done (.ok v))

/-- What follows the outcomes of the attributes. -/
def settled (rule : Rule ν) (outcomes : Except ProtocolError (List Outcome)) : AnalysisProgram ν :=
  match gathered outcomes with
  | .error e => .done (.error e)
  | .ok values =>
      .modify
        (·.changeContext
          (·.settleAttributes ((rule.schema.attributes.map Attribute.name).zip values)))
        rule.body

theorem analysis_eq (rule : Rule ν) :
    rule.analysis =
      enter .resolvingAttributes
        (.group (rule.schema.attributes.map fun a => a.resolve.routine.program) rule.settled) :=
  rfl

theorem moves_enter {may : Phase → Phase → Prop} {before after : Phase} {next : AnalysisProgram ν}
    (allowed : may before after)
    (moves : next.Moves (fun desk => desk.context.phase) may after) :
    (enter after next).Moves (fun desk => desk.context.phase) may before :=
  .modify (fun _ _ => allowed) fun _ _ => moves

theorem body_moves_phase (rule : Rule ν) :
    rule.body.Moves (fun desk => desk.context.phase) (· ≤ ·) .resolvingAttributes := by
  refine moves_enter (by decide) ?_
  refine .bind Phase.onward (rule.routine.moves Desk.beyond_phase) fun r => ?_
  cases r with
  | error e => exact .done _
  | ok v =>
      refine moves_enter (by decide) ?_
      refine .perform Phase.onward (AnalysisProcedure.stays_prepareAll Desk.beyond_phase) fun r => ?_
      cases r with
      | error e => exact .done _
      | ok _ => exact moves_enter (by decide) (.done _)

/-- The phase only moves forward. -/
theorem moves_phase (rule : Rule ν) :
    rule.analysis.Moves (fun desk => desk.context.phase) (· ≤ ·) .instantiated := by
  rw [analysis_eq]
  refine moves_enter (by decide) (.group ?_ fun outcomes => ?_)
  · exact List.forall_mem_map.mpr fun a _ => a.resolve.routine.moves Desk.beyond_phase
  · unfold settled
    split
    · exact .done _
    · exact .modify_unseen Phase.onward (fun _ => rfl) rule.body_moves_phase

/-- Values are not changed when they have been settled. -/
theorem body_moves_resolved (rule : Rule ν) {values : Dictionary Value} :
    rule.body.Moves (fun desk => desk.context.resolved) Eq values := by
  refine .modify_unseen .eq (fun _ => rfl) ?_
  refine .bind .eq (rule.routine.moves Desk.beyond_resolved) fun r => ?_
  cases r with
  | error e => exact .done _
  | ok v =>
      refine .modify_unseen .eq (fun _ => rfl) ?_
      refine .perform .eq (AnalysisProcedure.stays_prepareAll Desk.beyond_resolved) fun r => ?_
      cases r with
      | error e => exact .done _
      | ok _ => exact .modify_unseen .eq (fun _ => rfl) (.done _)

theorem body_live (rule : Rule ν) : rule.body.Live := by
  refine .modify (rule.routine.live.bind fun r => ?_) _
  cases r with
  | error e => exact .done _
  | ok v =>
      refine .modify (.perform (fun outcome => ?_) _) _
      cases outcome with
      | error e => exact .done _
      | ok _ => exact .modify (.done _) _

/-- The body leaves the values alone, in its first turn and behind every visit. -/
theorem follow_body_resolved (rule : Rule ν) (desk : Desk ν) {visits : List (Visit (Desk ν))}
    (unseen : ∀ v ∈ visits, ∀ desk, (v.touch desk).context = desk.context) :
    let turn := rule.body.settle desk
    (turn.1.follow turn.2 visits).state.context.resolved = desk.context.resolved := by
  intro turn
  have moved := rule.body_moves_resolved.settle .eq (rfl : desk.context.resolved = _)
  have rests := rule.body_live.atRest desk
  have live := rule.body_live.settle desk
  have stayed := moved.moves.follow .eq rests live rfl fun v member desk =>
    congrArg Context.resolved (unseen v member desk)
  exact (moved.moved.trans stayed).symm

end Rule

end RuleAnalysis
