import RuleAnalysis.Proofs.Analysis.Conduct
import RuleAnalysis.Proofs.Schedule.Once

namespace RuleAnalysis

/-!
# How often the host is asked for its platform

The platform of the host is kept once it has been handed over, and nobody asks
for it again. It is looked up before the host is asked and kept when the answer
has come. In between, other members of a group find nothing and ask as well, and
a host that does not always answer the same makes their actions differ.
-/

variable {ν : Type}

/-- The requests of a course that have been answered, with their answers. -/
def Course.answered {σ ρ κ : Type} (c : Course σ ρ κ) (replies : List (List Response)) :
    List (κ × Response) :=
  (List.zipWith List.zip c.batches replies).flatten

section

variable {σ ρ κ : Type} {c : Course σ ρ κ} {replies : List (List Response)}

theorem Course.mem_answered {k : Nat} {qs : List κ} {rs : List Response}
    (sent : c.batches[k]? = some qs) (replied : replies[k]? = some rs) {pair : κ × Response}
    (member : pair ∈ qs.zip rs) : pair ∈ c.answered replies := by
  have zipped : (List.zipWith List.zip c.batches replies)[k]? = some (qs.zip rs) := by
    rw [List.getElem?_zipWith, sent, replied]
  exact List.mem_flatten.mpr ⟨qs.zip rs, List.mem_of_getElem? zipped, member⟩

theorem zip_requests_sublist (qs : List κ) (rs : List Response) :
    ((qs.zip rs).map Prod.fst).Sublist qs := by
  induction qs generalizing rs with
  | nil => exact List.Sublist.slnil
  | cons q qs ih =>
      cases rs with
      | nil => exact List.nil_sublist _
      | cons r rs => exact (ih rs).cons_cons q

theorem Course.answered_sublist :
    ((c.answered replies).map Prod.fst).Sublist c.batches.flatten := by
  unfold answered
  generalize c.batches = batches
  induction batches generalizing replies with
  | nil => exact List.Sublist.slnil
  | cons qs rest ih =>
      cases replies with
      | nil => exact List.nil_sublist _
      | cons rs more =>
          rw [List.zipWith_cons_cons, List.flatten_cons, List.flatten_cons, List.map_append]
          exact (zip_requests_sublist qs rs).append ih

theorem Course.mem_answered_sent {pair : κ × Response} (answered : pair ∈ c.answered replies) :
    ∃ batch ∈ c.batches, pair.1 ∈ batch :=
  List.mem_flatten.mp (answered_sublist.subset (List.mem_map_of_mem answered))

end

namespace Asked

/-- The request is sent to prepare actions. -/
def forPlatform (q : Asked) : Bool := q.purpose = .platform

/-- The platform that an answer hands over to those who prepare actions. -/
def platform? (q : Asked) (r : Response) : Option Provider :=
  if q.purpose = .platform then q.granted? r else none

theorem platform?_eq_some {q : Asked} {r : Response} {p : Provider} :
    q.platform? r = some p ↔ q.purpose = .platform ∧ q.granted? r = some p := by
  rw [platform?, Option.ite_none_right_eq_some]

end Asked

/-- The platforms that the host has handed over. -/
def Course.platforms (c : Course (Traced ν) Outcome Asked) (deliveries : List Delivery) :
    List Provider :=
  (c.answered (deliveries.map Delivery.responses)).filterMap fun pair => pair.1.platform? pair.2

/-- No more platforms are handed over than are asked for. -/
theorem Course.length_platforms_le (c : Course (Traced ν) Outcome Asked)
    (deliveries : List Delivery) :
    (c.platforms deliveries).length ≤ c.times Asked.forPlatform := by
  rw [platforms, List.length_filterMap_eq_countP]
  calc (c.answered (deliveries.map Delivery.responses)).countP
          (fun pair => (pair.1.platform? pair.2).isSome)
      ≤ (c.answered (deliveries.map Delivery.responses)).countP
          (fun pair => pair.1.forPlatform) := by
        apply List.countP_mono_left
        intro pair _ isSome
        rcases Option.isSome_iff_exists.mp isSome with ⟨p, granted⟩
        exact decide_eq_true (Asked.platform?_eq_some.mp granted).1
    _ = ((c.answered (deliveries.map Delivery.responses)).map Prod.fst).countP Asked.forPlatform := by
        rw [List.countP_map]
        rfl
    _ ≤ c.times Asked.forPlatform := answered_sublist.countP_le

/-- The platform that an action runs on. -/
def Action.platform? (a : Action) : Option Provider :=
  match a.data with
  | .run r => r.platform
  | _ => none

/-! ## Who does not ask -/

/-- Nobody prepares an action, neither the program itself nor a member of a group. -/
abbrev TracedProgram.Silent (p : TracedProgram ν) : Prop :=
  p.Asks (fun q => q.forPlatform = false) (fun q => q.forPlatform = false)

/-- The work prepares no action, though what follows may. -/
def Work.Silent {α : Type} (work : Work ν α) : Prop :=
  ∀ next : Except AnalysisError α → Routine ν, (∀ result, TracedProgram.Silent (next result).traced) →
    TracedProgram.Silent (work next).traced

namespace Work.Silent

variable {α β : Type}

theorem pure (a : α) : Work.Silent (ν := ν) (Pure.pure a) := fun _ silent => silent (.ok a)

theorem bind {work : Work ν α} {more : α → Work ν β} (first : work.Silent)
    (later : ∀ a, (more a).Silent) : (work >>= more).Silent := by
  intro next silent
  apply first _
  intro result
  cases result with
  | ok a => exact later a next silent
  | error e => exact silent (.error e)

theorem ofExcept (result : Except AnalysisError α) : Work.Silent (ν := ν) (.ofExcept result) :=
  fun _ silent => silent result

theorem context : Work.Silent (Work.context (ν := ν)) :=
  fun _ silent => .read fun _ => silent _

theorem ask (q : Query) (read : Answer α) : Work.Silent (Work.ask (ν := ν) q read) :=
  fun _ silent => .ask rfl fun r => silent (read r)

end Work.Silent

theorem Attribute.resolve_silent (a : Attribute) : Work.Silent (a.resolve (ν := ν)) := by
  refine .bind .context fun c => .bind (.ofExcept _) fun found => ?_
  cases found with
  | value v => exact .pure v
  | provider type target host =>
      have loaded : Work.Silent (Work.loadProviders (ν := ν) target host) :=
        .bind .context fun c => .ask _ _
      exact .bind (.bind loaded fun ps => .ofExcept _) fun p => .pure (Value.provider p)
  | globalProvider type host =>
      exact .bind (.bind .context fun c => .ask _ _) fun p => .pure (Value.provider p)

namespace Program.Asks

variable {own inside : Asked → Prop}

theorem modify {p : TracedProgram ν} (asks : p.Asks own inside)
    (change : Traced ν → Traced ν) : Asks own inside (.modify change p) :=
  .read fun _ => .write asks

theorem perform {α : Type} {asked : Request → Asked} (may : ∀ q, own (asked q))
    {next : α → TracedProgram ν} (asks : ∀ a, (next a).Asks own inside)
    (procedure : Procedure (Desk ν) α) :
    Asks own inside (.perform (procedure.traced asked) next) := by
  induction procedure with
  | done a => exact asks a
  | ask q more ih => exact .ask (may q) ih
  | read more ih => exact .read fun t => ih t.desk
  | write desk more ih => exact .read fun _ => .write ih

end Program.Asks

/-- If no member of a group prepares actions in the routine of a rule, none does in the analysis. -/
theorem Rule.asks {rule : Rule ν}
    (asks : rule.routine.traced.Asks (fun _ => True) (fun q => q.forPlatform = false)) :
    rule.traced.Asks (fun _ => True) (fun q => q.forPlatform = false) := by
  refine .modify (.group ?_ fun outcomes => ?_) _
  · exact List.forall_mem_map.mpr fun a _ => a.resolve_silent _ fun result => .done result
  · cases gathered (.ok outcomes) with
    | error e => exact .done _
    | ok values =>
        refine .modify (.modify (asks.bind fun r => ?_) _) _
        cases r with
        | error e => exact .done _
        | ok v =>
            refine .modify (.perform (fun _ => trivial) (fun outcome => ?_) _) _
            cases outcome with
            | error e => exact .done _
            | ok _ => exact .modify (.done _) _

/-! ## How often it is asked for -/

/-- The discipline of an analysis whose host hands over some platforms and no others. -/
abbrev Traced.grants (given : Provider → Prop) : Discipline (Traced ν) Asked :=
  Traced.discipline (·.elim False given)

theorem Traced.once (given : Provider → Prop) :
    (Traced.grants (ν := ν) given).Once Asked.forPlatform
      fun t => t.context.executePlatform ≠ none := by
  refine ⟨fun kept step => step.platform kept, fun {q r t} isKind allowed answered => ?_,
    fun {q t} kept due => decide_eq_false fun isPlatform => ?_⟩
  · have isPlatform : q.purpose = .platform := of_decide_eq_true isKind
    have accepted := allowed isPlatform
    apply answered isPlatform
    intro refused
    rw [refused] at accepted
    exact accepted
  · have due : q.Due t := due
    rw [Asked.Due, isPlatform] at due
    exact kept due.1

/-- The host answers every request for its platform with a provider. -/
def Course.HandsOver (c : Course (Traced ν) Outcome Asked) (deliveries : List Delivery) : Prop :=
  ∀ pair ∈ c.answered (deliveries.map Delivery.responses),
    pair.1.purpose = .platform → pair.1.granted? pair.2 ≠ none

/-- Requests that are equal are answered equally. -/
def Course.Steady (c : Course (Traced ν) Outcome Asked) (deliveries : List Delivery) : Prop :=
  ∀ pair ∈ c.answered (deliveries.map Delivery.responses),
    ∀ pair' ∈ c.answered (deliveries.map Delivery.responses),
      pair.1.request = pair'.1.request → pair.2 = pair'.2

namespace Rule

section

variable (rule : Rule ν) {desk : Desk ν} (fresh : desk.Fresh) (deliveries : List Delivery)
  (handsOver : (rule.tracedCourse desk deliveries).HandsOver deliveries)

include handsOver

theorem obliges_platforms :
    (Traced.grants (· ∈ (rule.tracedCourse desk deliveries).platforms deliveries)).Obliges
      (rule.tracedCourse desk deliveries) (deliveries.map Delivery.tracedVisit) := by
  intro k qs v sent visited pair member isPlatform
  rw [List.getElem?_map, Option.map_eq_some_iff] at visited
  rcases visited with ⟨d, delivered, rfl⟩
  have replied : (deliveries.map Delivery.responses)[k]? = some d.responses := by
    rw [List.getElem?_map, delivered]
    rfl
  have answered := Course.mem_answered sent replied member
  rcases Option.ne_none_iff_exists'.mp (handsOver pair answered isPlatform) with ⟨p, granted⟩
  rw [granted]
  exact List.mem_filterMap.mpr ⟨pair, answered, Asked.platform?_eq_some.mpr ⟨isPlatform, granted⟩⟩

include fresh

/-- All requests for the platform are one and the same. -/
theorem platform_request :
    ∀ batch ∈ (rule.tracedCourse desk deliveries).batches, ∀ q ∈ batch, q.purpose = .platform →
      ∃ type, desk.context.executePlatformType = .ok type ∧
        q.request = .query (.loadGlobalProvider type (desk.context.config.forRequest true)) := by
  intro batch sent q asked isPlatform
  have kept := rule.kept fresh deliveries (rule.obliges_platforms deliveries handsOver)
  rcases kept.sent batch sent q asked with ⟨t, step, due, _⟩
  have due : q.Due t := due
  rw [Asked.Due, isPlatform] at due
  rcases due with ⟨_, type, known, same⟩
  refine ⟨type, ?_, ?_⟩
  · rw [← known]
    exact step.executePlatformType.symm
  · rw [same, step.config]
    rfl

/-- It is sent in two batches that follow each other, at most. -/
theorem platform_window :
    ∃ before window after,
      (rule.tracedCourse desk deliveries).batches = before ++ window ++ after ∧
      window.length ≤ 2 ∧
      (rule.tracedCourse desk deliveries).times Asked.forPlatform =
        window.flatten.countP Asked.forPlatform := by
  have run := rule.run fresh deliveries (rule.obliges_platforms deliveries handsOver)
  exact run.times_window (Traced.once _)

theorem platform_once
    (asks : rule.routine.traced.Asks (fun _ => True) (fun q => q.forPlatform = false)) :
    (rule.tracedCourse desk deliveries).times Asked.forPlatform ≤ 1 := by
  have run := rule.run fresh deliveries (rule.obliges_platforms deliveries handsOver)
  exact run.times_le_one (Traced.once _) ((Rule.asks asks).settle _)

theorem platforms_same
    (alike : (rule.tracedCourse desk deliveries).times Asked.forPlatform ≤ 1 ∨
      (rule.tracedCourse desk deliveries).Steady deliveries) :
    ∀ p ∈ (rule.tracedCourse desk deliveries).platforms deliveries,
      ∀ p' ∈ (rule.tracedCourse desk deliveries).platforms deliveries, p = p' := by
  intro p handed p' handed'
  rcases alike with once | steady
  · have few := Nat.le_trans (Course.length_platforms_le _ deliveries) once
    rcases List.getElem_of_mem handed with ⟨i, inside, rfl⟩
    rcases List.getElem_of_mem handed' with ⟨i', inside', rfl⟩
    have same : i = i' := by omega
    subst same
    rfl
  · rcases List.mem_filterMap.mp handed with ⟨pair, answered, granted⟩
    rcases List.mem_filterMap.mp handed' with ⟨pair', answered', granted'⟩
    rcases Asked.platform?_eq_some.mp granted with ⟨isPlatform, granted⟩
    rcases Asked.platform?_eq_some.mp granted' with ⟨isPlatform', granted'⟩
    have requested := rule.platform_request fresh deliveries handsOver
    rcases Course.mem_answered_sent answered with ⟨batch, sent, asked⟩
    rcases requested batch sent pair.1 asked isPlatform with ⟨type, known, same⟩
    rcases Course.mem_answered_sent answered' with ⟨batch', sent', asked'⟩
    rcases requested batch' sent' pair'.1 asked' isPlatform' with ⟨type', known', same'⟩
    rw [known] at known'
    cases known'
    have alike := steady pair answered pair' answered' (same.trans same'.symm)
    rw [Asked.granted?, same] at granted
    rw [Asked.granted?, same', ← alike] at granted'
    exact Option.some.inj (granted.symm.trans granted')

/-- A program has the platform that it was recorded with or one that the host has handed over. -/
theorem platforms_given :
    ∀ (place : Nat) (a : Action),
      (rule.tracedCourse desk deliveries).state.recorded[place]? = some a →
      ∃ a', (rule.course desk deliveries).state.context.analysis.actions[place]? = some a' ∧
        a.Becomes (· ∈ (rule.tracedCourse desk deliveries).platforms deliveries) a' := by
  have kept := rule.kept fresh deliveries (rule.obliges_platforms deliveries handsOver)
  rw [← rule.tracedCourse_actions desk deliveries]
  exact kept.holds.recorded

end

/-- A host that always hands over its platform is asked for it in two batches that follow each other,
at most, and once if no member of a group prepares actions. Programs are given what it has handed
over. That is one and the same platform if the host is asked once or always answers the same. -/
theorem platform_asked_within_two_batches (rule : Rule ν) (desk : Desk ν) (fresh : desk.Fresh)
    (deliveries : List Delivery)
    (handsOver : (rule.tracedCourse desk deliveries).HandsOver deliveries) :
    let run := rule.tracedCourse desk deliveries
    let final := (rule.course desk deliveries).state.context.analysis.actions
    run.seen Traced.desk Asked.request = rule.course desk deliveries ∧
    (∀ batch ∈ run.batches, ∀ q ∈ batch, q.purpose = .platform →
      ∃ type, desk.context.executePlatformType = .ok type ∧
        q.request = .query (.loadGlobalProvider type (desk.context.config.forRequest true))) ∧
    (∃ before window after, run.batches = before ++ window ++ after ∧ window.length ≤ 2 ∧
      run.times Asked.forPlatform = window.flatten.countP Asked.forPlatform) ∧
    (rule.routine.traced.Asks (fun _ => True) (fun q => q.forPlatform = false) →
      run.times Asked.forPlatform ≤ 1) ∧
    (∀ (place : Nat) (a : Action), run.state.recorded[place]? = some a →
      ∃ a', final[place]? = some a' ∧ a.Becomes (· ∈ run.platforms deliveries) a') ∧
    (run.times Asked.forPlatform ≤ 1 ∨ run.Steady deliveries →
      ∀ p ∈ run.platforms deliveries, ∀ p' ∈ run.platforms deliveries, p = p') :=
  ⟨rule.tracedCourse_seen desk deliveries,
    rule.platform_request fresh deliveries handsOver,
    rule.platform_window fresh deliveries handsOver,
    rule.platform_once fresh deliveries handsOver,
    rule.platforms_given fresh deliveries handsOver,
    rule.platforms_same fresh deliveries handsOver⟩

end Rule

/-! ## Contested -/

namespace PlainTarget

/-- Two members prepare an action each. -/
def contested : Rule Unit :=
  rule <| .record (program "cc") fun first => .record (program "ld") fun second =>
    .gather
      [.identify first fun _ => .finish (.ok .null), .identify second fun _ => .finish (.ok .null)]
      fun _ => .finish (.ok .null)

def otherPlatform : Provider := ⟨reference, [("name", .string "other")]⟩

def bothHandedOver : List Delivery := [⟨[.provider platform, .provider otherPlatform], id⟩]

theorem contested_handsOver :
    (contested.tracedCourse desk bothHandedOver).HandsOver bothHandedOver := by
  unfold Course.HandsOver
  decide +kernel

end PlainTarget

open PlainTarget

/-- Both have asked in the same batch. -/
theorem Rule.platform_asked_within_two_batches_contested :
    let run := contested.tracedCourse desk bothHandedOver
    let final := (contested.course desk bothHandedOver).state.context.analysis.actions
    run.times Asked.forPlatform = 2 ∧
    run.platforms bothHandedOver = [platform, otherPlatform] ∧
    (∃ before window after, run.batches = before ++ window ++ after ∧ window.length ≤ 2 ∧
      window.flatten.countP Asked.forPlatform = 2) ∧
    ∀ (place : Nat) (a : Action), run.state.recorded[place]? = some a →
      ∃ a', final[place]? = some a' ∧ a.Becomes (· ∈ [platform, otherPlatform]) a' := by
  intro run final
  have twice : run.times Asked.forPlatform = 2 := by decide +kernel
  have both : run.platforms bothHandedOver = [platform, otherPlatform] := by decide +kernel
  obtain ⟨_, _, ⟨before, window, after, same, few, counted⟩, _, given, _⟩ :=
    platform_asked_within_two_batches contested desk desk_fresh bothHandedOver contested_handsOver
  rw [both] at given
  exact ⟨twice, both, ⟨before, window, after, same, few, counted.symm.trans twice⟩, given⟩

/-- The host has handed over its platform whenever it was asked, but was asked twice, and the two
programs run on different platforms. -/
theorem Rule.platform_asked_twice :
    (contested.tracedCourse desk bothHandedOver).HandsOver bothHandedOver ∧
    (contested.tracedCourse desk bothHandedOver).times Asked.forPlatform = 2 ∧
    (contested.course desk bothHandedOver).state.context.analysis.actions.map Action.platform? =
      [some platform, some otherPlatform] ∧
    platform ≠ otherPlatform :=
  ⟨contested_handsOver, by decide +kernel, by decide +kernel, by decide +kernel⟩

end RuleAnalysis
