import RuleAnalysis.Proofs.Analysis.Preparation

namespace RuleAnalysis

/-!
# Routines keep the discipline

A routine is made up of steps that keep the discipline of an analysis, in any
order and in groups of any depth. The analysis of a target keeps it as a whole.
Nobody else works on its context, so that at its end, when its last actions
have been prepared, none is left that is not.
-/

variable {ν : Type} {accepts : Option Provider → Prop}

open Traced (discipline)

theorem Depmap.action_prepared (d : Depmap) : d.action.needsPlatform = false := by
  unfold Depmap.action
  cases d.id <;> rfl

namespace Traced

theorem keeps_unmoved {rely : Traced ν → Traced ν → Prop} {post : Outcome → Traced ν → Prop}
    {change : Traced ν → Traced ν} {t : Traced ν} (unmoved : Unmoved t (change t))
    (sound : (discipline accepts).holds t) {next : TracedProgram ν}
    (goesOn : (discipline accepts).holds (change t) →
      (discipline accepts).Keeps rely post (fun _ => True) next (change t)) :
    (discipline accepts).Keeps rely post (fun _ => True) (.modify change next) t :=
  .read (.write unmoved.advances (sound.unmoved unmoved) (goesOn (sound.unmoved unmoved)))

theorem tell_advances (t : Traced ν) (place : Nat) (id : Except AnalysisError String) :
    Advances (fun p => accepts (some p)) t (t.tell place id) := by
  cases id <;> exact ⟨rfl, rfl, .refl _, fun kept => kept⟩

theorem address_advances (t : Traced ν) (place : Nat) (tree : Except AnalysisError Label) :
    Advances (fun p => accepts (some p)) t (t.address place tree) := by
  cases tree <;> exact ⟨rfl, rfl, .refl _, fun kept => kept⟩

/-- The action that builds a depmap has nothing to prepare: its address is final from the start. -/
theorem Sound.build {given : Provider → Prop} {t : Traced ν} (sound : Sound given t)
    (depmap : Depmap) :
    let tree := depmap.action.files t.context.label
    Sound given ((t.record depmap.action).address t.actions.length (.ok tree)) ∧
      Advances given t ((t.record depmap.action).address t.actions.length (.ok tree)) := by
  rcases sound.record depmap.action with ⟨recorded, advances⟩
  refine ⟨recorded.address fun tree same => ?_, advances.trans ⟨rfl, rfl, .refl _, id⟩⟩
  cases same
  exact ⟨depmap.action, List.getElem?_concat_length, rfl, depmap.action_prepared⟩

end Traced

namespace Routine

mutual

/-- Whatever it relies on within the discipline, a routine keeps it. -/
theorem keeps {rely : Traced ν → Traced ν → Prop}
    (within : ∀ t t', rely t t' → (discipline accepts).step t t') :
    (routine : Routine ν) → (t : Traced ν) → (discipline accepts).holds t →
      (discipline accepts).Keeps rely (fun _ => (discipline accepts).holds) (fun _ => True)
        routine.traced t
  | finish _, _, sound => .done trivial sound
  | ask q next, _, _ =>
      .ask trivial ⟨q, rfl⟩ fun r t' _ _ holds =>
        (keeps within (next r) t' holds).answering nofun
  | inspect next, t, sound => .read (keeps within (next t.desk) t sound)
  | note _ next, _, sound =>
      Traced.keeps_unmoved ⟨rfl, rfl, rfl, rfl, rfl, rfl, rfl⟩ sound (keeps within next _)
  | record action next, _, sound =>
      .read (.write (sound.record action).2 (sound.record action).1
        (keeps within (next _) _ (sound.record action).1))
  | build depmap next, _, sound =>
      .read (.write (sound.build depmap).2 (sound.build depmap).1
        (keeps within (next _) _ (sound.build depmap).1))
  | identify place next, _, sound =>
      Traced.keeps_identify within (fun _ => rfl) sound place fun outcome t' _ sound' final =>
        .read (.write (t'.tell_advances place outcome) (sound'.tell final)
          (keeps within (next outcome) _ (sound'.tell final)))
  | locate place next, _, sound =>
      Traced.keeps_locate within (fun _ => rfl) sound place fun outcome t' _ sound' final =>
        .read (.write (t'.address_advances place outcome) (sound'.address final)
          (keeps within (next outcome) _ (sound'.address final)))
  | await place next, _, sound =>
      .read (Traced.keeps_output within sound place fun outcome t' _ sound' =>
        keeps within (next outcome) t' sound')
  | declare _ next, _, sound =>
      Traced.keeps_unmoved ⟨rfl, rfl, rfl, rfl, rfl, rfl, rfl⟩ sound (keeps within next _)
  | provide _ next, _, sound =>
      Traced.keeps_unmoved ⟨rfl, rfl, rfl, rfl, rfl, rfl, rfl⟩ sound (keeps within next _)
  | gather members next, _, _ =>
      .group trivial (fun m member t' _ holds => keepsAll members m member t' holds)
        fun rs t' _ holds => keeps within (next (.ok rs)) t' holds

theorem keepsAll : (members : List (Routine ν)) → ∀ m ∈ tracedAll members, ∀ t,
    (discipline accepts).holds t →
      (discipline accepts).Keeps (discipline accepts).step (fun _ _ => True) (fun _ => True) m t
  | [] => nofun
  | member :: rest =>
      List.forall_mem_cons.mpr
        ⟨fun t sound => (keeps (fun _ _ step => step) member t sound).weaken fun _ _ _ => trivial,
          keepsAll rest⟩

end

end Routine

/-! ## The analysis of a target -/

namespace Traced

/-- Files have been handed over, and nothing else has been touched. -/
def Handed (t t' : Traced ν) : Prop := ∃ files, t' = t.seat { t.desk with files := files }

theorem Handed.unmoved {t t' : Traced ν} (handed : Handed t t') : Unmoved t t' := by
  rcases handed with ⟨files, rfl⟩
  exact ⟨rfl, rfl, rfl, rfl, rfl, rfl, rfl⟩

/-- What is so at the end of an analysis. -/
def Ended (accepts : Option Provider → Prop) (outcome : Outcome) (t : Traced ν) : Prop :=
  (discipline accepts).holds t ∧
    ∀ v, outcome = .ok v → ∀ a ∈ t.actions, a.needsPlatform = false

theorem fair : (discipline accepts).Fair (Handed : Traced ν → Traced ν → Prop) (Ended accepts) := by
  refine ⟨fun t t' handed => handed.unmoved.advances, ?_⟩
  rintro outcome t t' ⟨sound, prepared⟩ handed
  refine ⟨sound.unmoved handed.unmoved, ?_⟩
  rw [handed.unmoved.actions]
  exact prepared

/-- When nobody else records actions, all of them are prepared in the end. -/
theorem Filled.all {t t' : Traced ν} (filled : Filled Handed t.context.unprepared t t')
    (step : (discipline accepts).step t t') : ∀ a ∈ t'.actions, a.needsPlatform = false := by
  have counted : t'.actions.length = t.actions.length := by
    cases filled with
    | nothing _ => rfl
    | @behind mid before platform _ waited same =>
        change (before.context.fillPlatforms _ platform).actions.length = _
        rw [Context.fillPlatforms_length]
        change before.actions.length = _
        rw [same]
        rcases waited with rfl | handed
        · rfl
        · rw [handed.unmoved.actions]
  intro a member
  rcases List.getElem_of_mem member with ⟨i, inside, rfl⟩
  exact filled.known step (counted ▸ inside) (List.getElem?_eq_getElem inside)

end Traced

namespace Rule

open Traced

/-- The analysis of a target keeps the discipline. -/
theorem keeps (rule : Rule ν) {t : Traced ν} (sound : (discipline accepts).holds t) :
    (discipline accepts).Keeps Handed (Ended accepts) (fun _ => True) rule.traced t := by
  have within : ∀ t t' : Traced ν, Handed t t' → (discipline accepts).step t t' := fair.within
  have failed : ∀ e t', (discipline accepts).holds t' →
      (discipline accepts).Keeps Handed (Ended accepts) (fun _ => True)
        (.done (.error e) : TracedProgram ν) t' :=
    fun e t' sound' => .done trivial ⟨sound', nofun⟩
  apply keeps_unmoved ⟨rfl, rfl, rfl, rfl, rfl, rfl, rfl⟩ sound
  intro sound
  refine .group trivial ?_ fun outcomes t' _ sound => ?_
  · rw [List.forall_mem_map]
    intro a _ t' _ sound
    exact (a.resolve.routine.keeps (fun _ _ step => step) t' sound).weaken fun _ _ _ => trivial
  · cases gathered (.ok outcomes) with
    | error e => exact failed e t' sound
    | ok values =>
        apply keeps_unmoved ⟨rfl, rfl, rfl, rfl, rfl, rfl, rfl⟩ sound
        intro sound
        apply keeps_unmoved ⟨rfl, rfl, rfl, rfl, rfl, rfl, rfl⟩ sound
        intro sound
        refine Discipline.Keeps.bind ((rule.routine.keeps within _ sound).weaken
          fun r t' sound => ?_) (by simp)
        cases r with
        | error e => exact failed e t' sound
        | ok v =>
            apply keeps_unmoved ⟨rfl, rfl, rfl, rfl, rfl, rfl, rfl⟩ sound
            intro sound
            apply keeps_prepareAll within (fun _ => rfl) sound
            intro outcome t' step sound filled
            cases outcome with
            | error e => exact failed e t' sound
            | ok _ =>
                apply keeps_unmoved ⟨rfl, rfl, rfl, rfl, rfl, rfl, rfl⟩ sound
                intro sound
                exact .done trivial ⟨sound, fun _ _ => (filled rfl).all step⟩

theorem gentle (deliveries : List Delivery) :
    (discipline accepts).Gentle Handed (deliveries.map (Delivery.tracedVisit (ν := ν))) := by
  refine List.forall_mem_map.mpr fun d _ t => ?_
  have handed : Handed t (d.tracedVisit.touch t) := ⟨d.files t.desk.files, rfl⟩
  exact ⟨handed, fun sound => sound.unmoved handed.unmoved⟩

section

variable (rule : Rule ν) {desk : Desk ν} (fresh : desk.Fresh) (deliveries : List Delivery)
  (obliges : (discipline accepts).Obliges (rule.tracedCourse desk deliveries)
    (deliveries.map Delivery.tracedVisit))

include fresh obliges

/-- Driven as a task, the analysis of a fresh target goes through a run of the discipline. -/
theorem run :
    (discipline accepts).Run Handed (Ended accepts) (rule.traced.settle (.begin desk)).1
      (rule.traced.settle (.begin desk)).2 (rule.tracedCourse desk deliveries) := by
  have sound : (discipline accepts).holds (.begin desk) := .begin fresh.actions fresh.platform
  exact (rule.keeps sound).run fair (rule.traces.live rule.live) sound (gentle deliveries) obliges

/-- The discipline is kept to the end. -/
theorem kept :
    (discipline accepts).Kept (Ended accepts) (.begin desk) (rule.tracedCourse desk deliveries) := by
  have sound : (discipline accepts).holds (.begin desk) := .begin fresh.actions fresh.platform
  exact (rule.keeps sound).course fair (rule.traces.live rule.live) sound (gentle deliveries) obliges

end

/-- Whatever the host answers, the discipline is kept that accepts everything. -/
theorem kept_freely (rule : Rule ν) {desk : Desk ν} (fresh : desk.Fresh)
    (deliveries : List Delivery) :
    (discipline fun _ => True).Kept (Ended fun _ => True) (.begin desk)
      (rule.tracedCourse desk deliveries) :=
  rule.kept fresh deliveries fun _ _ _ _ _ _ _ _ => trivial

end Rule

end RuleAnalysis
