import RuleAnalysis.Proofs.Analysis.Conduct

namespace RuleAnalysis

/-!
# Addresses are final

The id of an action is a digest of what the action is, so it would change if
the action were given a platform later on. It never is: an id is told and an
address is given only of an action that has been prepared, and such an action
stays what it is, whatever the other members of a group do in the meantime.
-/

variable {ν : Type}

namespace Rule

/-- When an analysis has been completed, its actions are those that were recorded, in their order;
each is as it was recorded or has been given the platform that it lacked, and none lacks one. Every
id and every address that was handed out on the way is that of the action in its place. -/
theorem addresses_final (rule : Rule ν) (desk : Desk ν) (fresh : desk.Fresh)
    (deliveries : List Delivery) (v : Value)
    (completed : (rule.course desk deliveries).ending = some (.ok (.ok v))) :
    let run := rule.tracedCourse desk deliveries
    let final := (rule.course desk deliveries).state.context.analysis.actions
    run.seen Traced.desk Asked.request = rule.course desk deliveries ∧
    run.state.recorded.length = final.length ∧
    (∀ (place : Nat) (a : Action), run.state.recorded[place]? = some a →
      ∃ a', final[place]? = some a' ∧ a.Becomes (fun _ => True) a' ∧
        (a.needsPlatform = false → a' = a)) ∧
    (∀ place id, (place, id) ∈ run.state.told → ∃ a, final[place]? = some a ∧ a.id = id) ∧
    (∀ place tree, (place, tree) ∈ run.state.addressed →
      ∃ a, final[place]? = some a ∧ desk.context.label.joinAction a.id = tree) ∧
    ∀ a ∈ final, a.needsPlatform = false := by
  intro run final
  have seen := rule.tracedCourse_seen desk deliveries
  have kept := rule.kept_freely fresh deliveries
  have same : run.state.actions = final := rule.tracedCourse_actions desk deliveries
  have label : run.state.context.label = desk.context.label := kept.step.label
  have ended : run.ending = some (.ok (.ok v)) := by
    rw [← completed, ← seen]
    rfl
  rcases kept.ended _ ended with ⟨sound, prepared⟩
  rw [same] at prepared
  refine ⟨seen, ?_, fun place a noted => ?_, fun place id noted => ?_, fun place tree noted => ?_,
    prepared v rfl⟩
  · rw [← same, sound.counted]
  · rcases sound.recorded place a noted with ⟨a', found, becomes⟩
    exact ⟨a', same ▸ found, becomes, becomes.prepared⟩
  · rcases sound.told place id noted with ⟨a, found, isId, _⟩
    exact ⟨a, same ▸ found, isId⟩
  · rcases sound.addressed place tree noted with ⟨a, found, isTree, _⟩
    rw [label] at isTree
    exact ⟨a, same ▸ found, isTree⟩

open PlainTarget in
/-- Two members of a group prepare the same action, and both have asked for a platform. -/
theorem addresses_final_gathered :
    let rule := PlainTarget.rule <| .record (program "cc") fun place =>
      .gather
        [.identify place fun _ => .finish (.ok .null), .locate place fun _ => .finish (.ok .null)]
        fun _ => .finish (.ok .null)
    let deliveries := [⟨[.provider platform, .provider platform], id⟩]
    let run := rule.tracedCourse desk deliveries
    let final := (rule.course desk deliveries).state.context.analysis.actions
    run.state.told.map Prod.fst = [0] ∧ run.state.addressed.map Prod.fst = [0] ∧
    (∀ place id, (place, id) ∈ run.state.told → ∃ a, final[place]? = some a ∧ a.id = id) ∧
    (∀ place tree, (place, tree) ∈ run.state.addressed →
      ∃ a, final[place]? = some a ∧ desk.context.label.joinAction a.id = tree) := by
  intro rule deliveries run final
  have completed : (rule.course desk deliveries).ending = some (.ok (.ok .null)) := by
    decide +kernel
  rcases addresses_final rule desk desk_fresh deliveries .null completed
    with ⟨_, _, _, told, addressed, _⟩
  exact ⟨by decide +kernel, by decide +kernel, told, addressed⟩

end Rule

end RuleAnalysis
