import Mathlib.Data.List.Chain
import RuleAnalysis.Proofs.Schedule.Rounds
import RuleAnalysis.Proofs.Schedule.Stages

namespace RuleAnalysis

/-!
# Growth

A program may change the state in certain ways only, whatever state each of its
stints finds. If nothing else happens to the state between the stints of a group
either, then what a member has left behind goes on to change in these ways only,
to the end of the task that runs the group. It is lost neither when the member
ends nor when the group does.
-/

variable {σ ρ κ α : Type} {may : σ → σ → Prop}

namespace Program

/-- Run from the state, the program changes it only as it may, and later on whatever state it
finds. -/
inductive Within (may : σ → σ → Prop) : Program σ ρ κ → σ → Prop
  | done (r : ρ) (s : σ) : Within may (done r) s
  | ask {q : κ} {next : Response → Program σ ρ κ} {s : σ} :
      (∀ r s', Within may (next r) s') → Within may (ask q next) s
  | read {next : σ → Program σ ρ κ} {s : σ} : Within may (next s) s → Within may (read next) s
  | write {s s' : σ} {p : Program σ ρ κ} :
      may s s' → Within may p s' → Within may (write s' p) s
  | group {members : List (Program σ ρ κ)} {next : Except ProtocolError (List ρ) → Program σ ρ κ}
      {s : σ} :
      (∀ m ∈ members, ∀ s', Within may m s') → (∀ rs s', Within may (next (.ok rs)) s') →
      Within may (group members next) s

/-- A turn that has begun in the state has changed it as it may, and so will what is left to run. -/
structure Kept (may : σ → σ → Prop) (s : σ) (turn : Program σ ρ κ × σ) : Prop where
  changed : may s turn.2
  within : ∀ s', turn.1.Within may s'

theorem Within.modify {change : σ → σ} {p : Program σ ρ κ} {s : σ} (allowed : may s (change s))
    (within : p.Within may (change s)) : Within may (.modify change p) s :=
  .read (.write allowed within)

theorem settleAll_changed (onward : Onward may) {members : List (Program σ ρ κ)}
    (each : ∀ m ∈ members, ∀ s, may s (m.settle s).2) (s : σ) :
    may s (settleAll members s).2 := by
  induction members generalizing s with
  | nil =>
      rw [settleAll_nil]
      exact onward.refl s
  | cons head rest ih =>
      rcases List.forall_mem_cons.mp each with ⟨first, others⟩
      rw [settleAll_cons]
      exact onward.trans (first s) (ih others _)

theorem answerAll_changed (onward : Onward may) {members : List (Program σ ρ κ)}
    (each : ∀ m ∈ members, ∀ rs s, may s (m.answer rs s).2) (rs : List Response) (s : σ) :
    may s (answerAll members rs s).2 := by
  induction members generalizing rs s with
  | nil =>
      rw [answerAll_nil]
      exact onward.refl s
  | cons head rest ih =>
      rcases List.forall_mem_cons.mp each with ⟨first, others⟩
      rw [answerAll]
      exact onward.trans (first _ s) (ih others _ _)

/-- A group whose members have had their turns has changed the state as they have, or goes on. -/
theorem Kept.regroup (onward : Onward may) {members : List (Program σ ρ κ)}
    {next : Except ProtocolError (List ρ) → Program σ ρ κ} {s s' : σ} (changed : may s s')
    (within : ∀ m ∈ members, ∀ s, m.Within may s) (nextWithin : ∀ rs s, (next (.ok rs)).Within may s)
    (goesOn : ∀ rs, Kept may s' ((next (.ok rs)).settle s')) :
    Kept may s (regroup next members s') := by
  rw [Program.regroup]
  cases results? members with
  | some rs => exact ⟨onward.trans changed (goesOn rs).changed, (goesOn rs).within⟩
  | none => exact ⟨changed, fun _ => .group within nextWithin⟩

theorem Within.settle (onward : Onward may) {p : Program σ ρ κ} {s : σ} (within : p.Within may s) :
    Kept may s (p.settle s) := by
  induction within with
  | done r s => exact ⟨onward.refl s, .done r⟩
  | ask next _ => exact ⟨onward.refl _, fun _ => .ask next⟩
  | read _ ih => exact ih
  | write allowed _ ih => exact ⟨onward.trans allowed ih.changed, ih.within⟩
  | @group members next s _ nextWithin memberIH nextIH =>
      rw [settle_group]
      refine .regroup onward ?_ ?_ nextWithin fun rs => nextIH rs _
      · exact settleAll_changed onward (fun m member s => (memberIH m member s).changed) s
      · exact forall_settleAll (fun m member s => (memberIH m member s).within) s

theorem Within.answer (onward : Onward may) {p : Program σ ρ κ} (within : ∀ s, p.Within may s)
    (rs : List Response) (s : σ) : Kept may s (p.answer rs s) := by
  rcases (⟨s, within s⟩ : ∃ before, p.Within may before) with ⟨before, here⟩
  induction here generalizing rs s with
  | done r _ =>
      rw [answer_done]
      exact ⟨onward.refl s, within⟩
  | @ask q next _ nextWithin _ =>
      cases rs with
      | nil => exact ⟨onward.refl s, within⟩
      | cons r _ => exact (nextWithin r s).settle onward
  | read _ _ => exact ⟨onward.refl s, within⟩
  | write _ _ _ => exact ⟨onward.refl s, within⟩
  | @group members next _ membersWithin nextWithin memberIH _ =>
      have each := fun m member rs s => memberIH m member s (membersWithin m member) rs s
      rw [answer_group]
      refine .regroup onward ?_ ?_ nextWithin fun rs => (nextWithin rs _).settle onward
      · exact answerAll_changed onward (fun m member rs s => (each m member rs s).changed) rs s
      · exact forall_answerAll (fun m member rs s => (each m member rs s).within) rs s

theorem Goes.changed (onward : Onward may) {p : Program σ ρ κ} {stints : List (Stint σ κ)}
    {result : Option ρ} (goes : p.Goes stints result) (within : ∀ s, p.Within may s) :
    ∀ x ∈ stints, may x.found x.left := by
  induction goes with
  | ended r => exact nofun
  | waits _ => exact nofun
  | @stint p rs s stints result _ _ _ ih =>
      have kept := Within.answer onward within rs s
      exact List.forall_mem_cons.mpr ⟨kept.changed, ih kept.within⟩

end Program

/-! ## Procedures -/

namespace Procedure

variable {β ε : Type}

/-- Run from the state, the procedure changes it only as it may, and later on whatever state it
finds. -/
inductive Within (may : σ → σ → Prop) : Procedure σ α κ → σ → Prop
  | done (a : α) (s : σ) : Within may (done a) s
  | ask {q : κ} {next : Response → Procedure σ α κ} {s : σ} :
      (∀ r s', Within may (next r) s') → Within may (ask q next) s
  | read {next : σ → Procedure σ α κ} {s : σ} : Within may (next s) s → Within may (read next) s
  | write {s s' : σ} {next : Procedure σ α κ} :
      may s s' → Within may next s' → Within may (write s' next) s

theorem Within.bind {first : Procedure σ α κ} {more : α → Procedure σ β κ} {s : σ}
    (within : first.Within may s) (later : ∀ a s, (more a).Within may s) :
    (first.bind more).Within may s := by
  induction within with
  | done a s => exact later a s
  | ask _ ih => exact .ask ih
  | read _ ih => exact .read ih
  | write allowed _ ih => exact .write allowed ih

theorem Within.andThen {first : Procedure σ (Except ε α) κ}
    {more : α → Procedure σ (Except ε β) κ} {s : σ} (within : first.Within may s)
    (later : ∀ a s, (more a).Within may s) : (first.andThen more).Within may s := by
  apply within.bind
  intro result s
  cases result with
  | ok a => exact later a s
  | error e => exact .done _ s

theorem Within.modify {change : σ → σ} {s : σ} (allowed : may s (change s)) (a : α) :
    Within may (.modify change a : Procedure σ α κ) s :=
  .read (.write allowed (.done a _))

end Procedure

theorem Program.Within.perform {procedure : Procedure σ α κ} {s : σ}
    (within : procedure.Within may s) {next : α → Program σ ρ κ}
    (later : ∀ a s, (next a).Within may s) : (perform procedure next).Within may s := by
  induction within with
  | done a s => exact later a s
  | ask _ ih => exact .ask ih
  | read _ ih => exact .read ih
  | write allowed _ ih => exact .write allowed ih

/-! ## Stints that keep within the relation -/

open Program

/-- Every stint of a task changes the state as the program may. -/
theorem TaskOf.Runs.changed (onward : Onward may) {p : Program σ ρ κ} (live : p.Live)
    (within : ∀ s, p.Within may s) {stints : List (Stint σ κ)} {result : Option ρ}
    (runs : (ofProgram p).Runs stints result) : ∀ x ∈ stints, may x.found x.left := by
  cases stints with
  | nil => exact nofun
  | cons x stints =>
      rcases (runs_ofProgram_iff live).mp runs with ⟨same, goes⟩
      have kept := (within x.found).settle onward
      refine List.forall_mem_cons.mpr ⟨?_, goes.changed onward kept.within⟩
      rw [same]
      exact kept.changed

/-! ## What members leave behind -/

theorem Stint.Composed.grown (onward : Onward may) {whole : Stint σ κ}
    {heads : List (Option (Stint σ κ))} (composed : whole.Composed heads)
    (each : ∀ x, some x ∈ heads → may x.found x.left) :
    may whole.found whole.left ∧
      ∀ x, some x ∈ heads → may whole.found x.found ∧ may x.left whole.left := by
  induction composed with
  | nil s => exact ⟨onward.refl s, nofun⟩
  | absent _ ih =>
      rcases ih fun x member => each x (List.mem_cons_of_mem _ member) with ⟨through, others⟩
      refine ⟨through, fun x member => others x ?_⟩
      exact (List.mem_cons.mp member).resolve_left nofun
  | present own _ ih =>
      have first := each own List.mem_cons_self
      rcases ih fun x member => each x (List.mem_cons_of_mem _ member) with ⟨through, others⟩
      refine ⟨onward.trans first through, fun x member => ?_⟩
      rcases List.mem_cons.mp member with same | member
      · cases same
        exact ⟨onward.refl _, through⟩
      · rcases others x member with ⟨before, behind⟩
        exact ⟨onward.trans first before, behind⟩

/-- Between its stints nothing else happens to the state than may. -/
abbrev Untroubled (may : σ → σ → Prop) (stints : List (Stint σ κ)) : Prop :=
  stints.IsChain fun x y => may x.left y.found

theorem Untroubled.left_last (onward : Onward may) {stints : List (Stint σ κ)}
    (untroubled : Untroubled may stints) (each : ∀ x ∈ stints, may x.found x.left) :
    ∀ x ∈ stints, ∀ z, stints.getLast? = some z → may x.left z.left := by
  induction stints with
  | nil => exact nofun
  | cons first rest ih =>
      cases rest with
      | nil =>
          intro x member z lastly
          cases List.mem_singleton.mp member
          cases lastly
          exact onward.refl _
      | cons second rest =>
          rcases List.isChain_cons_cons.mp untroubled with ⟨between, later⟩
          rcases List.forall_mem_cons.mp each with ⟨_, others⟩
          intro x member z lastly
          rw [List.getLast?_cons_cons] at lastly
          rcases List.mem_cons.mp member with rfl | member
          · have onto := ih later others second List.mem_cons_self z lastly
            exact onward.trans between (onward.trans (others second List.mem_cons_self) onto)
          · exact ih later others x member z lastly

namespace InRounds

variable {logs : List (Log σ ρ κ)} {rounds : List (Stint σ κ)}

/-- A stint of a member lies within a round. -/
theorem round_around (onward : Onward may) (inRounds : InRounds logs rounds)
    (each : ∀ log ∈ logs, ∀ x ∈ log.stints, may x.found x.left) {log : Log σ ρ κ}
    (member : log ∈ logs) {k : Nat} {x : Stint σ κ} (found : log.stints[k]? = some x) :
    ∃ round, rounds[k]? = some round ∧ may round.found x.found ∧ may x.left round.left := by
  rcases inRounds.exists_round member found with ⟨round, there, composed, listed⟩
  refine ⟨round, there, (composed.grown onward fun y own => ?_).2 x listed⟩
  rcases List.mem_map.mp own with ⟨other, known, there⟩
  exact each other known y (List.mem_of_getElem? there)

theorem round_grown (onward : Onward may) (inRounds : InRounds logs rounds)
    (each : ∀ log ∈ logs, ∀ x ∈ log.stints, may x.found x.left) :
    ∀ round ∈ rounds, may round.found round.left := by
  intro round member
  rcases List.mem_iff_getElem?.mp member with ⟨k, found⟩
  refine ((inRounds.composed k round found).grown onward fun y listed => ?_).1
  rcases List.mem_map.mp listed with ⟨log, known, there⟩
  exact each log known y (List.mem_of_getElem? there)

/-- Between the stints of a member nothing else happens than in the group and between its rounds. -/
theorem untroubled (onward : Onward may) (inRounds : InRounds logs rounds)
    (each : ∀ log ∈ logs, ∀ x ∈ log.stints, may x.found x.left) (between : Untroubled may rounds)
    {log : Log σ ρ κ} (member : log ∈ logs) : Untroubled may log.stints := by
  rw [Untroubled, List.isChain_iff_getElem]
  intro k inside
  rcases inRounds.round_around onward each member
    (List.getElem?_eq_getElem (Nat.lt_of_succ_lt inside)) with ⟨round, there, _, behind⟩
  rcases inRounds.round_around onward each member
    (List.getElem?_eq_getElem inside) with ⟨nextRound, nextThere, before, _⟩
  rcases List.getElem?_eq_some_iff.mp there with ⟨_, rfl⟩
  rcases List.getElem?_eq_some_iff.mp nextThere with ⟨reached, rfl⟩
  have step := List.isChain_iff_getElem.mp between k reached
  exact onward.trans behind (onward.trans step before)

/-- What a member has left behind is in what the last round has left. -/
theorem left_last (onward : Onward may) (inRounds : InRounds logs rounds)
    (each : ∀ log ∈ logs, ∀ x ∈ log.stints, may x.found x.left) (between : Untroubled may rounds)
    {log : Log σ ρ κ} (member : log ∈ logs) {x : Stint σ κ} (own : x ∈ log.stints) {z : Stint σ κ}
    (lastly : rounds.getLast? = some z) : may x.left z.left := by
  rcases List.mem_iff_getElem?.mp own with ⟨k, found⟩
  rcases inRounds.round_around onward each member found with ⟨round, there, _, behind⟩
  refine onward.trans behind ?_
  exact between.left_last onward (inRounds.round_grown onward each) round
    (List.mem_of_getElem? there) z lastly

end InRounds

/-- What a member of a group has left behind at any time, whatever it has ended with, is still there
in the state that the last stint of the task has left. -/
theorem Together.left_last (onward : Onward may) {logs : List (Log σ ρ κ)}
    {more : List ρ → Program σ ρ κ → Prop} {rounds stints : List (Stint σ κ)} {result : Option ρ}
    (together : Together logs more rounds stints result)
    (each : ∀ log ∈ logs, ∀ x ∈ log.stints, may x.found x.left)
    (moreWithin : ∀ rs p, more rs p → p.Live ∧ ∀ s, p.Within may s)
    (between : Untroubled may stints) :
    ∀ log ∈ logs, Untroubled may log.stints ∧
      ∀ x ∈ log.stints, ∀ z, stints.getLast? = some z → may x.left z.left := by
  cases together with
  | waits inRounds _ =>
      intro log member
      exact ⟨inRounds.untroubled onward each between member, fun x own z lastly =>
        inRounds.left_last onward each between member own lastly⟩
  | @goesOn rounds last rs p sent left stints _ inRounds _ _ isMore runs =>
      rcases moreWithin rs p isMore with ⟨live, within⟩
      rcases List.forall_mem_cons.mp (runs.changed onward live within) with ⟨first, others⟩
      rcases List.isChain_append.mp between with ⟨front, back, joint⟩
      -- The last round finds what the stint finds in which the task goes on.
      have ownRounds : Untroubled may (rounds ++ [last]) := by
        refine List.isChain_append.mpr ⟨front, List.isChain_singleton _, fun x lastly y only => ?_⟩
        cases only
        exact joint x lastly ⟨last.responses, last.found, sent, left⟩ rfl
      have through := inRounds.round_grown onward each last (List.mem_append_right _ List.mem_cons_self)
      have onto := Untroubled.left_last onward back
        (List.forall_mem_cons.mpr ⟨onward.trans through first, others⟩) _ List.mem_cons_self
      intro log member
      refine ⟨inRounds.untroubled onward each ownRounds member, fun x own z lastly => ?_⟩
      have kept := inRounds.left_last onward each ownRounds member own List.getLast?_concat
      rw [List.getLast?_append_of_ne_nil _ (List.cons_ne_nil _ _)] at lastly
      exact onward.trans kept (onward.trans first (onto z lastly))

end RuleAnalysis
