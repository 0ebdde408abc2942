import RuleAnalysis.Analysis.Work
import RuleAnalysis.Proofs.Analysis.Evolution
import RuleAnalysis.Proofs.Schedule.Completion
import RuleAnalysis.Proofs.Schedule.Growth
import RuleAnalysis.Proofs.Schedule.Lanes
import RuleAnalysis.Proofs.Schema.Bindings

namespace RuleAnalysis

/-!
# Gathered work

Work that is gathered is never cancelled. A failure of one member is kept until
all have ended: the others go on asking and recording, and what they record
stays. Only then is one failure reported. It is the first in the order in which
the members were submitted, however late it has come; under names that is the
order of the names. When nobody has failed, every member's own value stands in
its place or under its name.
-/

variable {ν α : Type}

/-! ## What routines add to -/

/-- What has been recorded, declared and provided is still there. Only an action that lacked an
execution platform may have been given one. -/
structure Context.Grows (c c' : Context) : Prop where
  actions : Action.Evolve (fun _ => True) c.actions c'.actions
  targets : c.syntheticTargets <+: c'.syntheticTargets
  providers : c.providers <+: c'.providers

def Desk.Grows (desk desk' : Desk ν) : Prop := desk.context.Grows desk'.context

namespace Context

theorem grows_refl (c : Context) : c.Grows c :=
  ⟨.refl _, List.prefix_refl _, List.prefix_refl _⟩

theorem grows_record (c : Context) (a : Action) : c.Grows (c.record a) :=
  ⟨(Action.Evolve.refl _).append [a], List.prefix_refl _, List.prefix_refl _⟩

theorem grows_fillPlatforms (c : Context) (places : List Nat) (platform : Provider) :
    c.Grows (c.fillPlatforms places platform) :=
  ⟨c.fillPlatforms_evolve places trivial, List.prefix_refl _, List.prefix_refl _⟩

end Context

theorem Desk.onward_grows : Onward (Grows : Desk ν → Desk ν → Prop) :=
  ⟨fun desk => desk.context.grows_refl, fun first second =>
    ⟨first.actions.trans second.actions, first.targets.trans second.targets,
      first.providers.trans second.providers⟩⟩

namespace AnalysisProcedure

theorem within_hostPlatform (desk : Desk ν) : hostPlatform.Within Desk.Grows desk := by
  refine .read ?_
  cases desk.context.executePlatform with
  | some platform => exact .done _ _
  | none =>
      cases desk.context.executePlatformType with
      | error e => exact .done _ _
      | ok type =>
          refine .ask fun response later => ?_
          split
          · exact .done _ _
          · exact .modify ⟨.refl _, List.prefix_refl _, List.prefix_refl _⟩ _

theorem within_fill (places : List Nat) (desk : Desk ν) :
    (fill places).Within Desk.Grows desk := by
  unfold fill
  split
  · exact .done _ _
  · exact (within_hostPlatform desk).andThen fun platform later =>
      .modify (later.context.grows_fillPlatforms places platform) _

theorem within_recorded (place : Nat) (desk : Desk ν) :
    (recorded place).Within Desk.Grows desk := by
  refine .read ?_
  split <;> exact .done _ _

theorem within_identify (place : Nat) (desk : Desk ν) :
    (identify place).Within Desk.Grows desk := by
  have prepared : (prepare place).Within Desk.Grows desk := .read (within_fill _ desk)
  exact prepared.andThen fun _ later => (within_recorded place later).andThen fun _ _ => .done _ _

theorem within_locate (place : Nat) (desk : Desk ν) : (locate place).Within Desk.Grows desk :=
  (within_identify place desk).andThen fun _ _ => .read (.done _ _)

theorem within_output (place : Nat) (desk : Desk ν) : (output place).Within Desk.Grows desk := by
  have prepared : prepareAll.Within Desk.Grows desk := .read (within_fill _ desk)
  exact prepared.andThen fun _ later =>
    (within_recorded place later).andThen fun _ _ => .ask fun _ _ => .done _ _

end AnalysisProcedure

namespace Routine

mutual

/-- Whatever it finds, a routine only adds to it. -/
theorem within : (routine : Routine ν) → (desk : Desk ν) →
    routine.program.Within Desk.Grows desk
  | finish outcome, desk => .done outcome desk
  | ask _ next, _ => .ask fun response later => within (next response) later
  | inspect next, desk => .read (within (next desk) desk)
  | note _ next, desk => .modify desk.context.grows_refl (within next _)
  | record action next, desk =>
      .read (.write (desk.context.grows_record action) (within (next _) _))
  | build depmap next, desk =>
      .read (.write (desk.context.grows_record depmap.action) (within (next _) _))
  | identify place next, desk =>
      .perform (AnalysisProcedure.within_identify place desk) fun id later =>
        within (next id) later
  | locate place next, desk =>
      .perform (AnalysisProcedure.within_locate place desk) fun tree later =>
        within (next tree) later
  | await place next, desk =>
      .perform (AnalysisProcedure.within_output place desk) fun output later =>
        within (next output) later
  | declare target next, _ =>
      .modify ⟨.refl _, List.prefix_append _ [target], List.prefix_refl _⟩ (within next _)
  | provide p next, _ =>
      .modify ⟨.refl _, List.prefix_refl _, List.prefix_append _ [p]⟩ (within next _)
  | gather members next, _ =>
      .group (withinAll members) fun rs later => within (next (.ok rs)) later

theorem withinAll : (members : List (Routine ν)) →
    ∀ p ∈ programs members, ∀ desk, p.Within Desk.Grows desk
  | [] => nofun
  | member :: rest => List.forall_mem_cons.mpr ⟨within member, withinAll rest⟩

end

theorem programs_eq_map (members : List (Routine ν)) :
    programs members = members.map program := by
  induction members with
  | nil => rfl
  | cons member rest ih => rw [programs, ih, List.map_cons]

end Routine

/-! ## What is reported -/

variable {σ κ : Type}

/-- The report on members that have ended: the first failure in the order of submission, or all
values in that order. -/
inductive Reported (seats : List (Seat σ Outcome κ)) : Except AnalysisError (List Value) → Prop
  | failed {e : AnalysisError} :
      Success.FirstToFail (fun m e => m.result = some (.error e)) seats e → Reported seats (.error e)
  | succeeded {values : List Value} :
      List.Forall₂ (fun m v => m.result = some (.ok v)) seats values → Reported seats (.ok values)

/-- The report under names: the failure of the least name of one that has failed, or the value of
each member under its own name. -/
inductive ReportedUnder (names : List String) (seats : List (Seat σ Outcome κ)) :
    Except AnalysisError (Dictionary Value) → Prop
  | failed {name : String} {m : Seat σ Outcome κ} {e : AnalysisError} :
      (name, m) ∈ names.zip seats → m.result = some (.error e) →
      (∀ other ∈ names.zip seats, other.1 < name → ∃ v, other.2.result = some (.ok v)) →
      ReportedUnder names seats (.error e)
  | succeeded {d : Dictionary Value} :
      d.keys = names →
      (∀ name, Option.Rel (fun m v => m.result = some (.ok v)) ((names.zip seats).lookup name)
        (d.get? name)) →
      ReportedUnder names seats (.ok d)

theorem reported_gathered {seats : List (Seat σ Outcome κ)} {outcomes : List Outcome}
    (ended : List.Forall₂ (fun m outcome => m.result = some outcome) seats outcomes) :
    Reported seats (gathered (.ok outcomes)) := by
  change Reported seats (outcomes.mapM id)
  induction ended with
  | nil => exact .succeeded .nil
  | @cons m outcome seats outcomes first _ ih =>
      rw [List.mapM_cons]
      cases outcome with
      | error e => exact .failed (Success.firstToFail_cons_iff.mpr (.inl first))
      | ok v =>
          generalize outcomes.mapM id = report at ih ⊢
          cases ih with
          | failed later =>
              refine .failed (Success.firstToFail_cons_iff.mpr (.inr ⟨fun e failed => ?_, later⟩))
              cases first.symm.trans failed
          | succeeded values => exact .succeeded (.cons first values)

theorem forall₂_under {β γ : Type} {r : β → γ → Prop} {as : List β} {bs : List γ}
    (each : List.Forall₂ r as bs) (names : List String) :
    List.Forall₂ (fun a b => b.1 = a.1 ∧ r a.2 b.2) (names.zip as) (names.zip bs) := by
  induction each generalizing names with
  | nil =>
      rw [List.zip_nil_right, List.zip_nil_right]
      exact .nil
  | cons first _ ih =>
      cases names with
      | nil => exact .nil
      | cons name names => exact .cons ⟨rfl, first⟩ (ih names)

/-- The name of a member, and those before it and behind it. -/
theorem exists_name {β : Type} {names : List String} {front : List β} {m : β} {back : List β}
    (named : names.length = (front ++ m :: back).length) :
    ∃ before name behind, names = before ++ name :: behind ∧ before.length = front.length := by
  have inside : front.length < names.length := by
    rw [named, List.length_append, List.length_cons]
    omega
  refine ⟨names.take front.length, names[front.length], names.drop (front.length + 1), ?_, ?_⟩
  · rw [← List.drop_eq_getElem_cons inside, List.take_append_drop]
  · exact List.length_take_of_le (Nat.le_of_lt inside)

/-- Under names in their order, the first in the order of submission is that of the least name. -/
theorem Reported.under {names : List String} (ordered : names.Pairwise (· < ·))
    {seats : List (Seat σ Outcome κ)} (named : names.length = seats.length)
    (ended : ∀ m ∈ seats, m.result ≠ none) {report : Except AnalysisError (List Value)}
    (reported : Reported seats report) : ReportedUnder names seats (report.map names.zip) := by
  cases reported with
  | @succeeded values each =>
      refine .succeeded (List.map_fst_zip ?_) (Dictionary.lookup_forall₂ (forall₂_under each names))
      rw [named, each.length_eq]
  | @failed e first =>
      rcases first with ⟨front, m, back, rfl, unfailing, failed⟩
      have succeeded : ∀ earlier ∈ front, ∃ v, earlier.result = some (.ok v) := by
        intro earlier known
        rcases Option.ne_none_iff_exists'.mp (ended earlier (List.mem_append_left _ known)) with
          ⟨e' | v, result⟩
        · exact absurd result (unfailing earlier known e')
        · exact ⟨v, result⟩
      rcases exists_name named with ⟨before, name, behind, rfl, same⟩
      rcases List.pairwise_append.mp ordered with ⟨_, inOrder, _⟩
      have zipped : (before ++ name :: behind).zip (front ++ m :: back) =
          before.zip front ++ (name, m) :: behind.zip back := by
        rw [List.zip_append same, List.zip_cons_cons]
      have listed : (name, m) ∈ (before ++ name :: behind).zip (front ++ m :: back) := by
        rw [zipped]
        exact List.mem_append_right _ List.mem_cons_self
      refine .failed listed failed ?_
      rintro ⟨key, other⟩ listed less
      rw [zipped] at listed
      rcases List.mem_append.mp listed with earlier | later
      · exact succeeded other (List.of_mem_zip earlier).2
      · rcases List.mem_cons.mp later with here | later
        · cases here
          exact absurd less (String.lt_irrefl _)
        · have more := List.rel_of_pairwise_cons inOrder (List.of_mem_zip later).1
          exact absurd less (String.lt_asymm more)

/-! ## Members that come to their ends -/

/-- How members have been run, and what has come of the task that runs them. -/
structure Attended (goOn : List (Seat (Desk ν) Outcome Request) → Routine ν → Prop)
    (seats : List (Seat (Desk ν) Outcome Request)) (rounds stints : List (Stint (Desk ν) Request))
    (result : Option Outcome) : Prop where
  /-- The task goes on when all members have ended and not before. -/
  together : Together (seats.map Seat.toLog) (fun _ p => ∃ more, goOn seats more ∧ p = more.program)
    rounds stints result
  /-- The requests of a member stand in a row among those of the task. -/
  sent : ∀ m ∈ seats, ∀ (k : Nat) (x : Stint (Desk ν) Request), m.stints[k]? = some x →
    ∃ y, stints[k]? = some y ∧ x.sent <:+: y.sent
  grown : ∀ m ∈ seats, ∀ x ∈ m.stints, x.found.Grows x.left
  /-- If nobody else takes anything away, then what a member has recorded is there at last. -/
  kept : Untroubled Desk.Grows stints → ∀ m ∈ seats, Untroubled Desk.Grows m.stints ∧
    ∀ x ∈ m.stints, ∀ z, stints.getLast? = some z → x.left.Grows z.left

/-- The routine runs its members to their ends and goes on with what has become of them. -/
structure Routine.Gathers (routine : Routine ν) (members : List (Routine ν))
    (goOn : List (Seat (Desk ν) Outcome Request) → Routine ν → Prop) : Prop where
  /-- It comes to its own end if its requests are answered. -/
  ends : ∀ host : Host (Desk ν) Request, ∃ stints outcome,
    (TaskOf.ofProgram routine.program).Runs stints (some outcome) ∧ host.Conducts [] stints
  attends : ∀ first stints result,
    (TaskOf.ofProgram routine.program).Runs (first :: stints) result →
      ∃ (seats : List (Seat (Desk ν) Outcome Request)) (rounds : List (Stint (Desk ν) Request)),
        seats.map Seat.program = members.map Routine.program ∧
          Attended goOn seats rounds (first :: stints) result

theorem forall₂_results {seats : List (Seat σ Outcome κ)} {outcomes : List Outcome}
    (ended : (seats.map Seat.toLog).map Log.result = outcomes.map some) :
    List.Forall₂ (fun m outcome => m.result = some outcome) seats outcomes := by
  rw [← List.forall₂_eq_eq_eq, List.map_map, List.forall₂_map_left_iff,
    List.forall₂_map_right_iff] at ended
  exact ended

theorem Routine.gathers {members : List (Routine ν)}
    {next : Except ProtocolError (List Outcome) → Routine ν}
    {goOn : List (Seat (Desk ν) Outcome Request) → Routine ν → Prop}
    (goesOn : ∀ seats outcomes, seats.map Seat.program = members.map program →
      List.Forall₂ (fun m outcome => m.result = some outcome) seats outcomes →
      goOn seats (next (.ok outcomes))) :
    (gather members next).Gathers members goOn := by
  refine ⟨fun host => (gather members next).live.exists_runs host, fun first stints result runs => ?_⟩
  rw [program] at runs
  rcases Program.exists_seats (liveAll members) (fun rs => (next (.ok rs)).live) runs with
    ⟨seats, rounds, seated, together⟩
  have membersRun : ∀ m ∈ seats, m.program ∈ programs members := fun m member => by
    rw [← seated]
    exact List.mem_map_of_mem member
  have grown : ∀ m ∈ seats, ∀ x ∈ m.stints, x.found.Grows x.left := fun m member =>
    m.runs.changed Desk.onward_grows (liveAll members _ (membersRun m member))
      (withinAll members _ (membersRun m member))
  rw [programs_eq_map] at seated
  refine ⟨seats, rounds, seated, together.imp ?_, fun m member k x found => ?_, grown,
    fun untroubled m member => ?_⟩
  · rintro outcomes _ ended rfl
    exact ⟨_, goesOn seats outcomes seated (forall₂_results ended), rfl⟩
  · exact together.sent (List.mem_map_of_mem member) found
  · refine together.left_last Desk.onward_grows ?_ ?_ untroubled _ (List.mem_map_of_mem member)
    · exact List.forall_mem_map.mpr grown
    · rintro outcomes _ rfl
      exact ⟨(next (.ok outcomes)).live, (next (.ok outcomes)).within⟩

namespace Work

theorem gatherMap_eq (named : List (String × Work ν Value)) :
    gatherMap named = fun next =>
      gather (named.map Prod.snd) fun report => next (report.map (named.map Prod.fst).zip) := by
  funext next
  apply congrArg (Routine.gather _)
  funext outcomes
  cases gathered outcomes with
  | error e => rfl
  | ok values => rfl

/-- Gathered work is never cancelled. If its requests are answered it comes to its end. Until all
members have ended the task does nothing but run them, each as a task of its own and as long as it
takes, whoever has failed before. All that they ask is asked, and all that they record is kept. Then
the task goes on with the first failure in the order of submission, or with all values in that order.
Under names it goes on with the failure of the least name, or with each value under the name of the
member whose value it is. -/
theorem gather_completes_in_order :
    (∀ (works : List (Work ν Value)) (next : Except AnalysisError (List Value) → Routine ν),
      (gather works next).Gathers (works.map routine) fun seats more =>
        ∃ report, Reported seats report ∧ more = next report) ∧
    (∀ named : Dictionary (Work ν Value), named.Ordered →
      ∀ next : Except AnalysisError (Dictionary Value) → Routine ν,
        (gatherMap named next).Gathers (named.map fun entry => entry.2.routine) fun seats more =>
          ∃ report, ReportedUnder named.keys seats report ∧ more = next report) := by
  constructor
  · intro works next
    refine Routine.gathers fun seats outcomes _ ended => ?_
    exact ⟨_, reported_gathered ended, rfl⟩
  · intro named ordered next
    rw [gatherMap_eq, ← Function.comp_def, ← List.map_map]
    refine Routine.gathers fun seats outcomes seated ended => ?_
    have counted : named.keys.length = seats.length := by
      have sizes := congrArg List.length seated
      rw [List.length_map, List.length_map, List.length_map, List.length_map] at sizes
      rw [Dictionary.keys, List.length_map, sizes]
    refine ⟨_, (reported_gathered ended).under ordered counted fun m member => ?_, rfl⟩
    rcases Success.exists_right_of_forall₂ ended member with ⟨outcome, _, same⟩
    rw [same]
    exact Option.some_ne_none outcome

open PlainTarget in
/-- What fails first here is the second, which has recorded an action before. What is reported is
the failure of the first, a round later. -/
theorem gather_completes_in_order_late :
    let slow : Work Unit Value := do
      let _ ← probe (.targetExists ⟨"//a:first"⟩)
      let _ ← probe (.targetExists ⟨"//a:second"⟩)
      fail (.rule "late")
    let quick : Work Unit Value := do
      let _ ← record (program "cc")
      let _ ← probe (.targetExists ⟨"//b:only"⟩)
      fail (.rule "early")
    let named : Dictionary (Work Unit Value) := [("a", slow), ("b", quick)]
    let next : Except AnalysisError (Dictionary Value) → Routine Unit := fun report =>
      .finish (report.map fun _ => .null)
    named.Ordered ∧ ∃ stints : List (Stint (Desk Unit) Request),
      (TaskOf.ofProgram (gatherMap named next).program).Runs stints (some (.error (.rule "late"))) ∧
      stints.map (fun x => x.sent.length) = [2, 1, 0] ∧
      stints.map (fun x => x.left.context.actions) =
        [[program "cc"], [program "cc"], [program "cc"]] ∧
      ∃ seats rounds, seats.map Seat.program = [slow.routine.program, quick.routine.program] ∧
        Attended
          (fun seats more => ∃ report, ReportedUnder ["a", "b"] seats report ∧ more = next report)
          seats rounds stints (some (.error (.rule "late"))) := by
  intro slow quick named next
  have ordered : named.Ordered := by
    decide
  let p := (gatherMap named next).program
  let yes := Response.boolean true
  let first := p.opening PlainTarget.desk
  let p₁ := (p.settle PlainTarget.desk).1
  let second := p₁.stint [yes, yes] first.left
  let p₂ := (p₁.answer [yes, yes] first.left).1
  let third := p₂.stint [yes] second.left
  have ended : (p₂.answer [yes] second.left).1 = .done (.error (.rule "late")) :=
    Program.outcome?_eq_some_iff.mp (by decide +kernel)
  have lastly : p₂.Goes [third] (some (.error (.rule "late"))) :=
    .stint (by decide +kernel) (by decide +kernel) (by rw [ended]; exact .ended _)
  have runs : (TaskOf.ofProgram p).Runs [first, second, third] (some (.error (.rule "late"))) :=
    (TaskOf.runs_ofProgram_iff (Routine.live _)).mpr
      ⟨rfl, .stint (by decide +kernel) (by decide +kernel) lastly⟩
  exact ⟨ordered, [first, second, third], runs, by decide +kernel, by decide +kernel,
    (gather_completes_in_order.2 named ordered next).attends _ _ _ runs⟩

end Work

end RuleAnalysis
