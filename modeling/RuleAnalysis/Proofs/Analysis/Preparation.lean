import RuleAnalysis.Proofs.Analysis.Evolution
import RuleAnalysis.Proofs.Schedule.Discipline

namespace RuleAnalysis

/-!
# The discipline of an analysis

The members of a group work on one context, and any of them may record and
prepare actions while another waits for the host. What they can rely on is that
the context only evolves. Each procedure is shown to keep this discipline from
whatever state it begins in, and to leave behind what it is for: actions that
are prepared, and ids and addresses that are final.
-/

variable {ν : Type}

namespace Asked

/-- The provider that a response gives to whoever has asked for a platform. -/
def granted? (q : Asked) (r : Response) : Option Provider :=
  match q.request with
  | .query (.loadGlobalProvider type config) =>
      (Answer.globalProvider (.loadGlobalProvider type config) type r).toOption
  | _ => none

/-- What is so of the state in which the request is sent. -/
def Due (q : Asked) (t : Traced ν) : Prop :=
  match q.purpose with
  | .own => ∃ query, q.request = .query query
  | .platform =>
      t.context.executePlatform = none ∧
        ∃ type, t.context.executePlatformType = .ok type ∧
          q.request = .query (.loadGlobalProvider type (t.context.config.forRequest true))
  | .output known =>
      ∃ (place : Nat) (a : Action), q.request = .actionOutput a t.actions ∧
        t.actions[place]? = some a ∧ known ≤ t.actions.length ∧
        ∀ (i : Nat) (b : Action), i < known → t.actions[i]? = some b → b.needsPlatform = false

end Asked

/-- The discipline of an analysis whose requests for a platform are answered in accepted ways. -/
def Traced.discipline (accepts : Option Provider → Prop) : Discipline (Traced ν) Asked where
  holds := Sound fun p => accepts (some p)
  step := Advances fun p => accepts (some p)
  sent t q := q.Due t
  allowed q r := q.purpose = .platform → accepts (q.granted? r)
  answered q r t :=
    q.purpose = .platform → q.granted? r ≠ none → t.context.executePlatform ≠ none
  step_refl := Advances.refl
  step_trans := Advances.trans
  answered_stays answered advances isPlatform isGranted :=
    advances.platform (answered isPlatform isGranted)

/-- Goes on from a traced procedure with the next one if it has succeeded. -/
theorem Procedure.perform_andThen {α β : Type} {asked : Request → Asked}
    (first : AnalysisProcedure ν α) (more : α → AnalysisProcedure ν β)
    (next : Except AnalysisError β → TracedProgram ν) :
    Program.perform ((first.andThen more).traced asked) next =
      Program.perform (first.traced asked) fun
        | .ok a => Program.perform ((more a).traced asked) next
        | .error e => next (.error e) := by
  unfold Procedure.andThen
  induction first with
  | done result => cases result <;> rfl
  | ask q rest ih =>
      apply congrArg (Program.ask (asked q))
      funext response
      exact ih response
  | read rest ih =>
      apply congrArg Program.read
      funext t
      exact ih t.desk
  | write desk rest ih =>
      apply congrArg Program.read
      funext t
      exact congrArg (Program.write (t.seat desk)) ih

namespace Traced

variable {accepts : Option Provider → Prop} {rely : Traced ν → Traced ν → Prop}
  {post : Outcome → Traced ν → Prop} {asked : Request → Asked}

/-- The state behind a wait for others, or the same state if nobody has been waited for. -/
def Behind (rely : Traced ν → Traced ν → Prop) (t mid : Traced ν) : Prop := mid = t ∨ rely t mid

/-- A procedure that changes the context. -/
theorem keeps_modify {α : Type} {debt : Traced ν → Prop} {t : Traced ν}
    {change : Context → Context} (holds : (discipline accepts).holds (t.changeContext change))
    (step : (discipline accepts).step t (t.changeContext change)) {a : α}
    {next : α → TracedProgram ν}
    (goesOn : (discipline accepts).Keeps rely post debt (next a) (t.changeContext change)) :
    (discipline accepts).Keeps rely post debt
      (.perform ((Procedure.modify (·.changeContext change) a).traced asked) next) t :=
  .read (.read (.write step holds goesOn))

/-- The platform of the host is asked for once it is needed and not at hand. -/
theorem keeps_hostPlatform (within : ∀ t t', rely t t' → (discipline accepts).step t t')
    (asks : ∀ q, asked (.query q) = .preparing (.query q)) {t : Traced ν}
    (sound : (discipline accepts).holds t) {next : Except AnalysisError Provider → TracedProgram ν}
    (goesOn : ∀ outcome t', (∃ mid, Behind rely t mid ∧ t'.actions = mid.actions) →
      (discipline accepts).step t t' → (discipline accepts).holds t' →
      (∀ p, outcome = .ok p → accepts (some p)) →
      (discipline accepts).Keeps rely post (fun _ => True) (next outcome) t') :
    (discipline accepts).Keeps rely post (fun _ => True)
      (.perform (AnalysisProcedure.hostPlatform.traced asked) next) t := by
  have here : ∃ mid, Behind rely t mid ∧ t.actions = mid.actions := ⟨t, Or.inl rfl, rfl⟩
  have still : (discipline accepts).step t t := .refl t
  refine .read ?_
  cases kept : t.desk.context.executePlatform with
  | some platform =>
      simp only [kept, Procedure.traced, Program.perform]
      apply goesOn _ t here still sound
      intro p same
      cases same
      exact sound.platform _ kept
  | none =>
      cases known : t.desk.context.executePlatformType with
      | error e =>
          simp only [kept, known, Procedure.traced, Program.perform]
          exact goesOn _ t here still sound fun p impossible => by cases impossible
      | ok type =>
          simp only [kept, known, Procedure.traced, Program.perform]
          refine .ask trivial ?_ fun r mid allowed moved holds => ?_
          · rw [asks]
            exact ⟨kept, type, known, rfl⟩
          · rw [asks] at allowed ⊢
            have step := within _ _ moved
            cases read : Answer.globalProvider
              (Query.loadGlobalProvider type (t.desk.context.config.forRequest true)) type r with
            | error e =>
                simp only [Procedure.traced, Program.perform]
                refine (goesOn _ mid ⟨mid, Or.inr moved, rfl⟩ step holds fun p impossible =>
                  by cases impossible).answering fun _ isGranted => ?_
                simp [Asked.granted?, Asked.preparing, read, Except.toOption] at isGranted
            | ok platform =>
                have granted : accepts (some platform) := by
                  simpa [Asked.granted?, Asked.preparing, read, Except.toOption] using allowed rfl
                rcases holds.keep granted with ⟨sound', advances⟩
                refine keeps_modify sound' advances ?_
                refine (goesOn _ (mid.changeContext (·.keepPlatform platform))
                  ⟨mid, Or.inr moved, rfl⟩ (.trans step advances) sound'
                  fun p same => ?_).answering fun _ _ => nofun
                cases same
                exact granted

/-- What has become of a state in which some places are filled. Nobody is waited for if there are
none. -/
inductive Filled (rely : Traced ν → Traced ν → Prop) (places : List Nat) (t : Traced ν) :
    Traced ν → Prop
  | nothing : places = [] → Filled rely places t t
  | behind {mid before : Traced ν} (platform : Provider) :
      places ≠ [] → Behind rely t mid → before.actions = mid.actions →
      Filled rely places t (before.changeContext (·.fillPlatforms places platform))

theorem Filled.prepared {places : List Nat} {t t' : Traced ν} (filled : Filled rely places t t')
    {i : Nat} (member : i ∈ places) {a : Action} (found : t'.actions[i]? = some a) :
    a.needsPlatform = false := by
  cases filled with
  | nothing none_left => rw [none_left] at member; cases member
  | @behind mid before platform _ _ _ =>
      exact before.context.fillPlatforms_prepared platform member found

/-- Whatever was recorded when all actions were to be prepared has been. -/
theorem Filled.known {t t' : Traced ν} (filled : Filled rely t.context.unprepared t t')
    (step : (discipline accepts).step t t') {i : Nat} (known : i < t.actions.length) {a : Action}
    (found : t'.actions[i]? = some a) : a.needsPlatform = false := by
  by_cases member : i ∈ t.context.unprepared
  · exact filled.prepared member found
  · have before : t.actions[i]? = some t.actions[i] := List.getElem?_eq_getElem known
    have isPrepared : t.actions[i].needsPlatform = false := by
      rw [Context.mem_unprepared] at member
      exact Bool.eq_false_iff.mpr fun needs => member ⟨_, before, needs⟩
    rw [Advances.prepared step before isPrepared] at found
    cases found
    exact isPrepared

theorem keeps_recorded {debt : Traced ν → Prop} (place : Nat) {t : Traced ν}
    {next : Except AnalysisError (Action × List Action) → TracedProgram ν}
    (goesOn : ∀ outcome, (∀ found, outcome = .ok found →
        t.actions[place]? = some found.1 ∧ found.2 = t.actions) →
      (discipline accepts).Keeps rely post debt (next outcome) t) :
    (discipline accepts).Keeps rely post debt
      (.perform ((AnalysisProcedure.recorded place).traced asked) next) t := by
  refine .read ?_
  cases there : t.desk.context.actions[place]? with
  | none =>
      simp only [there]
      exact goesOn _ fun _ impossible => by cases impossible
  | some a =>
      simp only [there]
      apply goesOn _
      intro found same
      cases same
      exact ⟨there, rfl⟩

section

variable (within : ∀ t t', rely t t' → (discipline accepts).step t t')
  (asks : ∀ q, asked (.query q) = .preparing (.query q)) {t : Traced ν}
  (sound : (discipline accepts).holds t)

include within asks sound

theorem keeps_fill (places : List Nat) {next : Except AnalysisError Unit → TracedProgram ν}
    (goesOn : ∀ outcome t', (discipline accepts).step t t' → (discipline accepts).holds t' →
      (outcome = .ok () → Filled rely places t t') →
      (discipline accepts).Keeps rely post (fun _ => True) (next outcome) t') :
    (discipline accepts).Keeps rely post (fun _ => True)
      (.perform ((AnalysisProcedure.fill places).traced asked) next) t := by
  unfold AnalysisProcedure.fill
  split
  · exact goesOn _ t (.refl t) sound fun _ => .nothing (List.isEmpty_iff.mp (by assumption))
  · rw [Procedure.perform_andThen]
    apply keeps_hostPlatform within asks sound
    intro outcome t' behind step sound' granted
    cases outcome with
    | error e => exact goesOn _ t' step sound' nofun
    | ok platform =>
        rcases Sound.fill sound' places (granted platform rfl) with ⟨filledSound, advances⟩
        refine keeps_modify filledSound advances
          (goesOn _ _ (.trans step advances) filledSound fun _ => ?_)
        rcases behind with ⟨mid, waited, same⟩
        exact .behind platform (fun none_left => absurd (List.isEmpty_iff.mpr none_left)
          (by assumption)) waited same

theorem keeps_prepare (place : Nat) {next : Except AnalysisError Unit → TracedProgram ν}
    (goesOn : ∀ outcome t', (discipline accepts).step t t' → (discipline accepts).holds t' →
      (outcome = .ok () → ∀ a, t'.actions[place]? = some a → a.needsPlatform = false) →
      (discipline accepts).Keeps rely post (fun _ => True) (next outcome) t') :
    (discipline accepts).Keeps rely post (fun _ => True)
      (.perform ((AnalysisProcedure.prepare place).traced asked) next) t := by
  refine .read (keeps_fill within asks sound _ fun outcome t' step sound' filled => ?_)
  apply goesOn outcome t' step sound'
  intro done a found
  cases needs : t.desk.context.actions[place]?.any Action.needsPlatform with
  | true =>
      rw [needs] at filled
      exact (filled done).prepared (List.mem_singleton.mpr rfl) found
  | false =>
      rw [needs] at filled
      cases filled done with
      | nothing _ =>
          change t.desk.context.actions[place]? = some a at found
          rw [found, Option.any_some] at needs
          exact needs
      | behind _ some_left _ _ => exact absurd rfl some_left

theorem keeps_prepareAll {next : Except AnalysisError Unit → TracedProgram ν}
    (goesOn : ∀ outcome t', (discipline accepts).step t t' → (discipline accepts).holds t' →
      (outcome = .ok () → Filled rely t.context.unprepared t t') →
      (discipline accepts).Keeps rely post (fun _ => True) (next outcome) t') :
    (discipline accepts).Keeps rely post (fun _ => True)
      (.perform (AnalysisProcedure.prepareAll.traced asked) next) t :=
  .read (keeps_fill within asks sound _ goesOn)

/-- The id that is told is that of a prepared action in the place. -/
theorem keeps_identify (place : Nat) {next : Except AnalysisError String → TracedProgram ν}
    (goesOn : ∀ outcome t', (discipline accepts).step t t' → (discipline accepts).holds t' →
      (∀ id, outcome = .ok id →
        ∃ a, t'.actions[place]? = some a ∧ a.id = id ∧ a.needsPlatform = false) →
      (discipline accepts).Keeps rely post (fun _ => True) (next outcome) t') :
    (discipline accepts).Keeps rely post (fun _ => True)
      (.perform ((AnalysisProcedure.identify place).traced asked) next) t := by
  unfold AnalysisProcedure.identify
  rw [Procedure.perform_andThen]
  apply keeps_prepare within asks sound place
  intro outcome t' step sound' isPrepared
  cases outcome with
  | error e => exact goesOn _ t' step sound' nofun
  | ok _ =>
      simp only
      rw [Procedure.perform_andThen]
      apply keeps_recorded place
      intro outcome there
      cases outcome with
      | error e => exact goesOn _ t' step sound' nofun
      | ok found =>
          rcases there found rfl with ⟨known, _⟩
          apply goesOn _ t' step sound'
          intro id same
          cases same
          exact ⟨found.1, known, rfl, isPrepared rfl _ known⟩

/-- The address that is given is that of the tree of a prepared action in the place. -/
theorem keeps_locate (place : Nat) {next : Except AnalysisError Label → TracedProgram ν}
    (goesOn : ∀ outcome t', (discipline accepts).step t t' → (discipline accepts).holds t' →
      (∀ tree, outcome = .ok tree →
        ∃ a, t'.actions[place]? = some a ∧ a.files t'.context.label = tree ∧
          a.needsPlatform = false) →
      (discipline accepts).Keeps rely post (fun _ => True) (next outcome) t') :
    (discipline accepts).Keeps rely post (fun _ => True)
      (.perform ((AnalysisProcedure.locate place).traced asked) next) t := by
  unfold AnalysisProcedure.locate
  rw [Procedure.perform_andThen]
  apply keeps_identify within asks sound place
  intro outcome t' step sound' told
  cases outcome with
  | error e => exact goesOn _ t' step sound' nofun
  | ok id =>
      rcases told id rfl with ⟨a, found, same, isPrepared⟩
      refine .read (goesOn _ t' step sound' fun tree given => ?_)
      cases given
      exact ⟨a, found, by rw [Action.files, same]; rfl, isPrepared⟩

end

/-- The output of an action is asked for when everything that had been recorded has been prepared. -/
theorem keeps_output (within : ∀ t t', rely t t' → (discipline accepts).step t t') {t : Traced ν}
    (sound : (discipline accepts).holds t) (place : Nat)
    {next : Except AnalysisError ActionOutput → TracedProgram ν}
    (goesOn : ∀ outcome t', (discipline accepts).step t t' → (discipline accepts).holds t' →
      (discipline accepts).Keeps rely post (fun _ => True) (next outcome) t') :
    (discipline accepts).Keeps rely post (fun _ => True)
      (.perform ((AnalysisProcedure.output place).traced (Asked.awaiting t.actions.length)) next)
      t := by
  unfold AnalysisProcedure.output
  rw [Procedure.perform_andThen]
  have asks : ∀ q, Asked.awaiting t.actions.length (.query q) = .preparing (.query q) := fun _ => rfl
  apply keeps_prepareAll within asks sound
  intro outcome t' step sound' filled
  cases outcome with
  | error e => exact goesOn _ t' step sound'
  | ok _ =>
      simp only
      rw [Procedure.perform_andThen]
      apply keeps_recorded place
      intro outcome there
      cases outcome with
      | error e => exact goesOn _ t' step sound'
      | ok found =>
          rcases there found rfl with ⟨known, all⟩
          refine .ask trivial ⟨place, found.1, by rw [all]; rfl, known, ?_, fun i b early here => ?_⟩
            fun r mid _ moved holds => ?_
          · exact step.actions.length_le
          · exact (filled rfl).known step early here
          · exact (goesOn _ mid (.trans step (within _ _ moved)) holds).answering nofun

end Traced

end RuleAnalysis
