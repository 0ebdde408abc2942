import RuleAnalysis.Proofs.Analysis.Conduct

namespace RuleAnalysis

/-!
# What is sent along with a request for an output

When the output of an action is awaited, all recorded actions are prepared and
sent along. Which of them have to be prepared is decided before the host is
asked for its platform; which are sent is decided when the answer has come. In
between, another member of a group may have recorded a program, and that is
sent as it is.
-/

variable {ν : Type}

namespace Request

/-- The recorded actions that a request is sent with. -/
def carried : Request → List Action
  | .query _ => []
  | .actionOutput _ all => all

/-- Nothing unprepared is sent: the action whose output is asked for is one of those sent along, and
these are prepared and have the ids that the actions in their places have in the end. -/
def Prepared (final : List Action) : Request → Prop
  | .query _ => True
  | .actionOutput a all =>
      a ∈ all ∧ (∀ b ∈ all, b.needsPlatform = false) ∧
        ∀ (i : Nat) (b : Action), all[i]? = some b → ∃ b', final[i]? = some b' ∧ b'.id = b.id

theorem Prepared.carried {final : List Action} {q : Request} (prepared : q.Prepared final) :
    ∀ b ∈ q.carried, b.needsPlatform = false := by
  cases q with
  | query _ => exact fun b member => nomatch member
  | actionOutput _ _ => exact prepared.2.1

end Request

/-- A request for an output is sent by a call that awaits one. -/
theorem Asked.due_actionOutput {q : Asked} {t : Traced ν} {a : Action} {all : List Action}
    (carried : q.request = .actionOutput a all) (due : q.Due t) :
    ∃ known, q.purpose = .output known ∧ t.actions = all ∧ a ∈ all ∧ known ≤ t.actions.length ∧
      ∀ (i : Nat) (b : Action), i < known → t.actions[i]? = some b → b.needsPlatform = false := by
  unfold Due at due
  cases purpose : q.purpose with
  | own =>
      obtain ⟨query, same⟩ := by simpa only [purpose] using due
      rw [carried] at same
      cases same
  | platform =>
      obtain ⟨_, _, _, same⟩ := by simpa only [purpose] using due
      rw [carried] at same
      cases same
  | output known =>
      obtain ⟨place, b, same, found, few, early⟩ := by simpa only [purpose] using due
      rw [carried] at same
      cases same
      exact ⟨known, rfl, rfl, List.mem_of_getElem? found, few, early⟩

namespace Rule

/-- What has been recorded before the call that awaits an output is sent prepared, with the ids that
are final. So nothing unprepared is sent exactly when no program without a platform has been recorded
between the beginning of the call and its request. -/
theorem output_prepared_iff (rule : Rule ν) (desk : Desk ν) (fresh : desk.Fresh)
    (deliveries : List Delivery) :
    let run := rule.tracedCourse desk deliveries
    let final := (rule.course desk deliveries).state.context.analysis.actions
    run.seen Traced.desk Asked.request = rule.course desk deliveries ∧
    ∀ batch ∈ run.batches, ∀ q ∈ batch, ∀ a all, q.request = .actionOutput a all →
      ∃ known, q.purpose = .output known ∧ known ≤ all.length ∧
        (∀ (i : Nat) (b : Action), i < known → all[i]? = some b →
          b.needsPlatform = false ∧ final[i]? = some b) ∧
        (q.request.Prepared final ↔
          ∀ (i : Nat) (b : Action), known ≤ i → all[i]? = some b → b.needsPlatform = false) := by
  intro run final
  have kept := rule.kept_freely fresh deliveries
  have same : run.state.actions = final := rule.tracedCourse_actions desk deliveries
  refine ⟨rule.tracedCourse_seen desk deliveries, fun batch member q asked a all carried => ?_⟩
  rcases kept.sent batch member q asked with ⟨t, _, due, onward⟩
  rcases Asked.due_actionOutput carried due with ⟨known, awaited, there, among, few, early⟩
  have later : ∀ (i : Nat) (b : Action), all[i]? = some b → b.needsPlatform = false →
      final[i]? = some b := fun i b found prepared => by
    rw [← same]
    exact Traced.Advances.prepared onward (there ▸ found) prepared
  refine ⟨known, awaited, there ▸ few, fun i b before found => ?_, ?_⟩
  · have prepared := early i b before (there ▸ found)
    exact ⟨prepared, later i b found prepared⟩
  · rw [carried]
    constructor
    · rintro ⟨_, prepared, _⟩ i b _ found
      exact prepared b (List.mem_of_getElem? found)
    · intro late
      have each : ∀ (i : Nat) (b : Action), all[i]? = some b → b.needsPlatform = false := by
        intro i b found
        rcases Nat.lt_or_ge i known with before | behind
        · exact early i b before (there ▸ found)
        · exact late i b behind found
      refine ⟨among, fun b sent => ?_, fun i b found => ?_⟩
      · rcases List.getElem?_of_mem sent with ⟨i, found⟩
        exact each i b found
      · exact ⟨b, later i b found (each i b found), rfl⟩

end Rule

/-! ## Overtaken -/

namespace PlainTarget

/-- A member records a program while another waits for the platform that the first one lacks. -/
def overtaken : Rule Unit :=
  rule <| .record (program "cc") fun place =>
    .gather
      [.await place fun _ => .finish (.ok .null),
        .record (program "ld") fun _ => .finish (.ok .null)]
      fun _ => .finish (.ok .null)

def platformHandedOver : List Delivery := [⟨[.provider platform], id⟩]

end PlainTarget

open PlainTarget

/-- Of the two programs that are sent along, the second was recorded when the call had begun. -/
theorem Rule.output_prepared_iff_overtaken :
    let run := overtaken.tracedCourse desk platformHandedOver
    let final := (overtaken.course desk platformHandedOver).state.context.analysis.actions
    run.batches.map (·.map Asked.purpose) = [[.platform], [.output 1]] ∧
    ∀ batch ∈ run.batches, ∀ q ∈ batch, q.purpose = .output 1 → ¬ q.request.Prepared final := by
  intro run final
  refine ⟨by decide +kernel, fun batch member q asked awaited prepared => ?_⟩
  have second : ∀ batch ∈ run.batches, ∀ q ∈ batch, q.purpose = .output 1 →
      q.request.carried[1]?.map Action.needsPlatform = some true := by
    decide +kernel
  rcases Option.map_eq_some_iff.mp (second batch member q asked awaited) with ⟨b, found, needs⟩
  cases carried : q.request with
  | query _ => rw [carried] at found; cases found
  | actionOutput a all =>
      obtain ⟨known, awaitedKnown, _, _, exactly⟩ :=
        (output_prepared_iff overtaken desk desk_fresh platformHandedOver).2 batch member q asked a
          all carried
      rw [awaited] at awaitedKnown
      cases awaitedKnown
      rw [carried] at found
      rw [exactly.mp prepared 1 b (Nat.le_refl 1) found] at needs
      cases needs

/-- A program without a platform is sent to the host. -/
theorem Rule.output_sent_unprepared :
    ¬ ∀ batch ∈ (overtaken.course desk platformHandedOver).batches, ∀ q ∈ batch,
      q.Prepared (overtaken.course desk platformHandedOver).state.context.analysis.actions := by
  intro prepared
  have sent : ∃ batch ∈ (overtaken.course desk platformHandedOver).batches, ∃ q ∈ batch,
      ∃ b ∈ q.carried, b.needsPlatform = true := by
    decide +kernel
  rcases sent with ⟨batch, member, q, asked, b, carried, needs⟩
  rw [(prepared batch member q asked).carried b carried] at needs
  cases needs

end RuleAnalysis
