import Mathlib.Data.List.Forall2
import RuleAnalysis.Proofs.Schedule.Course

namespace RuleAnalysis

/-!
# Annotated programs

To say what a program has done, a copy of it may keep notes: its state holds
more than the state of the original, and its requests tell what they are sent
for. Notes are only taken and never consulted, so the copy goes the way of the
original. Seen without the notes, the course of the copy is the course of the
original.
-/

variable {σ σ' ρ κ κ' : Type}

namespace Program

/-- The first program is a copy of the second that keeps notes. -/
inductive Annotates (view : σ' → σ) (plain : κ' → κ) : Program σ' ρ κ' → Program σ ρ κ → Prop
  | done (r : ρ) : Annotates view plain (done r) (done r)
  | stall : Annotates view plain stall stall
  | ask (q : κ') {next' : Response → Program σ' ρ κ'} {next : Response → Program σ ρ κ} :
      (∀ r, Annotates view plain (next' r) (next r)) →
      Annotates view plain (ask q next') (ask (plain q) next)
  | read {next' : σ' → Program σ' ρ κ'} {next : σ → Program σ ρ κ} :
      (∀ t, Annotates view plain (next' t) (next (view t))) →
      Annotates view plain (read next') (read next)
  | write {t : σ'} {s : σ} {p' : Program σ' ρ κ'} {p : Program σ ρ κ} :
      view t = s → Annotates view plain p' p → Annotates view plain (write t p') (write s p)
  /-- The copy may look at its state by itself. -/
  | look {next' : σ' → Program σ' ρ κ'} {p : Program σ ρ κ} :
      (∀ t, Annotates view plain (next' t) p) → Annotates view plain (read next') p
  /-- The copy may change its notes by itself. -/
  | jot {change : σ' → σ'} {next' : σ' → Program σ' ρ κ'} {p : Program σ ρ κ} :
      (∀ t, view (change t) = view t) → (∀ t, Annotates view plain (next' t) p) →
      Annotates view plain (read fun t => write (change t) (next' t)) p
  | group {members' : List (Program σ' ρ κ')} {members : List (Program σ ρ κ)}
      {next' : Except ProtocolError (List ρ) → Program σ' ρ κ'}
      {next : Except ProtocolError (List ρ) → Program σ ρ κ} :
      members'.length = members.length →
      (∀ pair ∈ members'.zip members, Annotates view plain pair.1 pair.2) →
      (∀ rs, Annotates view plain (next' rs) (next rs)) →
      Annotates view plain (group members' next') (group members next)

/-- The same of settled programs, which neither look nor write. -/
inductive Mirrors (view : σ' → σ) (plain : κ' → κ) : Program σ' ρ κ' → Program σ ρ κ → Prop
  | done (r : ρ) : Mirrors view plain (done r) (done r)
  | stall : Mirrors view plain stall stall
  | ask (q : κ') {next' : Response → Program σ' ρ κ'} {next : Response → Program σ ρ κ} :
      (∀ r, Annotates view plain (next' r) (next r)) →
      Mirrors view plain (ask q next') (ask (plain q) next)
  | group {members' : List (Program σ' ρ κ')} {members : List (Program σ ρ κ)}
      {next' : Except ProtocolError (List ρ) → Program σ' ρ κ'}
      {next : Except ProtocolError (List ρ) → Program σ ρ κ} :
      members'.length = members.length →
      (∀ pair ∈ members'.zip members, Mirrors view plain pair.1 pair.2) →
      (∀ rs, Annotates view plain (next' rs) (next rs)) →
      Mirrors view plain (group members' next') (group members next)

variable {view : σ' → σ} {plain : κ' → κ}

theorem forall₂_zip {α β : Type} {R : α → β → Prop} {as : List α} {bs : List β}
    (sized : as.length = bs.length) (each : ∀ pair ∈ as.zip bs, R pair.1 pair.2) :
    List.Forall₂ R as bs :=
  List.forall₂_iff_zip.mpr ⟨sized, fun member => each _ member⟩

/-- A copy of a program that never stalls never stalls. -/
theorem Annotates.live {p' : Program σ' ρ κ'} {p : Program σ ρ κ}
    (annotates : Annotates view plain p' p) (live : p.Live) : p'.Live := by
  induction annotates with
  | done r => exact .done r
  | stall => cases live
  | ask q _ ih =>
      cases live with
      | ask nextLive => exact .ask fun r => ih r (nextLive r)
  | read _ ih =>
      cases live with
      | read nextLive => exact .read fun t => ih t (nextLive _)
  | write _ _ ih =>
      cases live with
      | write nextLive => exact .write (ih nextLive)
  | look _ ih => exact .read fun t => ih t live
  | jot _ _ ih => exact .read fun t => .write (ih t live)
  | @group members' members _ _ sized _ _ memberIH nextIH =>
      cases live with
      | group membersLive nextLive =>
          refine .group (fun m' member => ?_) fun rs => nextIH _ (nextLive rs)
          rcases List.getElem_of_mem member with ⟨i, inside, rfl⟩
          have pair := List.getElem_mem (l := members'.zip members) (n := i)
            (by rw [List.length_zip]; omega)
          rw [List.getElem_zip] at pair
          exact memberIH _ pair (membersLive _ (List.getElem_mem _))

theorem Annotates.bind {p' : Program σ' ρ κ'} {p : Program σ ρ κ}
    (annotates : Annotates view plain p' p) {more' : ρ → Program σ' ρ κ'}
    {more : ρ → Program σ ρ κ} (goesOn : ∀ r, Annotates view plain (more' r) (more r)) :
    Annotates view plain (p'.bind more') (p.bind more) := by
  induction annotates with
  | done r => exact goesOn r
  | stall => exact .stall
  | ask q _ ih => exact .ask q ih
  | read _ ih => exact .read ih
  | write same _ ih => exact .write same ih
  | look _ ih => exact .look ih
  | jot keeps _ ih => exact .jot keeps ih
  | group sized members _ _ ih => exact .group sized members ih

/-! ## Turns -/

theorem results_mirrored {members' : List (Program σ' ρ κ')} {members : List (Program σ ρ κ)}
    (mirrored : List.Forall₂ (Mirrors view plain) members' members) :
    results? members' = results? members := by
  induction mirrored with
  | nil => rfl
  | cons head _ ih =>
      cases head with
      | done r => rw [results?, results?, ih]
      | _ => rfl

theorem regroup_mirrored {members' : List (Program σ' ρ κ')} {members : List (Program σ ρ κ)}
    {next' : Except ProtocolError (List ρ) → Program σ' ρ κ'}
    {next : Except ProtocolError (List ρ) → Program σ ρ κ}
    (mirrored : List.Forall₂ (Mirrors view plain) members' members)
    (annotates : ∀ rs, Annotates view plain (next' rs) (next rs)) (t : σ')
    (settled : ∀ rs, Mirrors view plain ((next' rs).settle t).1 ((next rs).settle (view t)).1 ∧
      view ((next' rs).settle t).2 = ((next rs).settle (view t)).2) :
    Mirrors view plain (regroup next' members' t).1 (regroup next members (view t)).1 ∧
      view (regroup next' members' t).2 = (regroup next members (view t)).2 := by
  rw [regroup, regroup, results_mirrored mirrored]
  split
  · exact settled _
  · rcases List.forall₂_iff_zip.mp mirrored with ⟨sized, each⟩
    exact ⟨.group sized (fun _ member => each member) annotates, rfl⟩

theorem settleAll_mirrored {members' : List (Program σ' ρ κ')} {members : List (Program σ ρ κ)}
    (each : List.Forall₂ (fun m' m => ∀ t, Mirrors view plain (m'.settle t).1 (m.settle (view t)).1 ∧
      view (m'.settle t).2 = (m.settle (view t)).2) members' members) (t : σ') :
    List.Forall₂ (Mirrors view plain) (settleAll members' t).1 (settleAll members (view t)).1 ∧
      view (settleAll members' t).2 = (settleAll members (view t)).2 := by
  induction each generalizing t with
  | nil => exact ⟨by simp, by simp⟩
  | @cons m' m _ _ head _ ih =>
      rw [settleAll_cons, settleAll_cons, ← (head t).2]
      exact ⟨.cons (head t).1 (ih _).1, (ih _).2⟩

theorem Annotates.settle {p' : Program σ' ρ κ'} {p : Program σ ρ κ}
    (annotates : Annotates view plain p' p) (t : σ') :
    Mirrors view plain (p'.settle t).1 (p.settle (view t)).1 ∧
      view (p'.settle t).2 = (p.settle (view t)).2 := by
  induction annotates generalizing t with
  | done r => exact ⟨.done r, rfl⟩
  | stall => exact ⟨.stall, rfl⟩
  | ask q next _ => exact ⟨.ask q next, rfl⟩
  | read _ ih => exact ih t t
  | write same _ ih =>
      subst same
      exact ih _
  | look _ ih => exact ih t t
  | jot keeps _ ih =>
      rw [← keeps t]
      exact ih t _
  | group sized _ next memberIH nextIH =>
      rw [settle_group, settle_group]
      rcases settleAll_mirrored (forall₂_zip sized memberIH) t with ⟨mirrored, seen⟩
      rw [← seen]
      exact regroup_mirrored mirrored next _ fun rs => nextIH rs _

theorem pendingAll_mirrored {members' : List (Program σ' ρ κ')} {members : List (Program σ ρ κ)}
    (each : List.Forall₂ (fun m' m => m.pending = m'.pending.map plain) members' members) :
    pendingAll members = (pendingAll members').map plain := by
  induction each with
  | nil => rfl
  | cons head _ ih => rw [pendingAll, pendingAll, head, ih, List.map_append]

/-- A settled copy asks what the original asks. -/
theorem Mirrors.pending {p' : Program σ' ρ κ'} {p : Program σ ρ κ}
    (mirrors : Mirrors view plain p' p) : p.pending = p'.pending.map plain := by
  induction mirrors with
  | done r => rfl
  | stall => rfl
  | ask q _ => rfl
  | @group members' members _ _ sized _ _ memberIH =>
      exact pendingAll_mirrored (forall₂_zip (R := fun m' m => m.pending = m'.pending.map plain)
        sized memberIH)

theorem answerAll_mirrored {members' : List (Program σ' ρ κ')} {members : List (Program σ ρ κ)}
    (mirrored : List.Forall₂ (Mirrors view plain) members' members)
    (each : List.Forall₂ (fun m' m => ∀ rs t,
      Mirrors view plain (m'.answer rs t).1 (m.answer rs (view t)).1 ∧
        view (m'.answer rs t).2 = (m.answer rs (view t)).2) members' members)
    (rs : List Response) (t : σ') :
    List.Forall₂ (Mirrors view plain) (answerAll members' rs t).1
        (answerAll members rs (view t)).1 ∧
      view (answerAll members' rs t).2 = (answerAll members rs (view t)).2 := by
  induction each generalizing rs t with
  | nil => exact ⟨by simp, by simp⟩
  | @cons m' m _ _ head _ ih =>
      cases mirrored with
      | cons first others =>
          have counted : m.pending.length = m'.pending.length := by
            rw [first.pending, List.length_map]
          rw [answerAll, answerAll]
          simp only [counted]
          rw [← (head _ t).2]
          exact ⟨.cons (head _ t).1 (ih others _ _).1, (ih others _ _).2⟩

/-- Given the same answers, a settled copy goes the way of the original. -/
theorem Mirrors.answer {p' : Program σ' ρ κ'} {p : Program σ ρ κ}
    (mirrors : Mirrors view plain p' p) (rs : List Response) (t : σ') :
    Mirrors view plain (p'.answer rs t).1 (p.answer rs (view t)).1 ∧
      view (p'.answer rs t).2 = (p.answer rs (view t)).2 := by
  induction mirrors generalizing rs t with
  | done r => exact ⟨.done r, rfl⟩
  | stall => exact ⟨.stall, rfl⟩
  | ask q next =>
      cases rs with
      | nil => exact ⟨.ask q next, rfl⟩
      | cons r _ => exact (next r).settle t
  | @group members' members _ _ sized each next memberIH =>
      rw [answer_group, answer_group]
      rcases answerAll_mirrored (forall₂_zip sized each)
        (forall₂_zip (R := fun m' m => ∀ rs t,
          Mirrors view plain (m'.answer rs t).1 (m.answer rs (view t)).1 ∧
            view (m'.answer rs t).2 = (m.answer rs (view t)).2) sized memberIH) rs t
        with ⟨mirrored, seen⟩
      rw [← seen]
      exact regroup_mirrored mirrored next _ fun rs => (next rs).settle _

theorem Mirrors.asks {p' : Program σ' ρ κ'} {p : Program σ ρ κ}
    (mirrors : Mirrors view plain p' p) (asks : p.pending ≠ []) : p'.pending ≠ [] := by
  intro silent
  rw [mirrors.pending, silent] at asks
  exact asks rfl

end Program

/-! ## Courses -/

/-- The visit as the copy has it. -/
def Visit.raise (lift : (σ → σ) → σ' → σ') (v : Visit σ) : Visit σ' := ⟨v.responses, lift v.touch⟩

/-- The course without the notes. -/
def Course.seen (view : σ' → σ) (plain : κ' → κ) (c : Course σ' ρ κ') : Course σ ρ κ :=
  ⟨c.batches.map (List.map plain), c.ending, view c.state⟩

section

variable {view : σ' → σ} {plain : κ' → κ} {lift : (σ → σ) → σ' → σ'}

theorem Program.Mirrors.follow (lifts : ∀ touch t, view (lift touch t) = touch (view t))
    {p' : Program σ' ρ κ'} {p : Program σ ρ κ} (mirrors : Mirrors view plain p' p)
    (rests : p.AtRest) (live : p.Live) (t : σ') (visits : List (Visit σ)) :
    (p'.follow t (visits.map (Visit.raise lift))).seen view plain = p.follow (view t) visits := by
  induction visits generalizing p' p t with
  | nil =>
      rcases rests.done_or_asks with ⟨r, rfl⟩ | asks
      · cases mirrors
        simp [Course.seen]
      · rw [List.map_nil, follow_nil asks, follow_nil (mirrors.asks asks), mirrors.pending]
        rfl
  | cons v visits ih =>
      rcases rests.done_or_asks with ⟨r, rfl⟩ | asks
      · cases mirrors
        simp [Course.seen]
      · have asks' := mirrors.asks asks
        have counted : p.pending.length = p'.pending.length := by
          rw [mirrors.pending, List.length_map]
        rw [List.map_cons]
        by_cases sized : v.responses.length = p.pending.length
        · rw [follow_cons asks _ v visits sized,
            follow_cons asks' _ (v.raise lift) _ (sized.trans counted)]
          rcases mirrors.answer v.responses (lift v.touch t) with ⟨next, seen⟩
          rw [lifts] at next seen
          rw [← seen, ← ih next (rests.answer live _ _) (live.answer _ _), mirrors.pending]
          rfl
        · rw [follow_missized asks _ v visits sized,
            follow_missized asks' _ (v.raise lift) _ (fun same => sized (same.trans counted.symm)),
            mirrors.pending, ← lifts v.touch t, List.length_map]
          rfl

/-- Driven as a task, a copy goes the way of the original. -/
theorem Program.Annotates.course (lifts : ∀ touch t, view (lift touch t) = touch (view t))
    {p' : Program σ' ρ κ'} {p : Program σ ρ κ} (annotates : Annotates view plain p' p)
    (live : p.Live) (touch : σ → σ) (t : σ') (visits : List (Visit σ)) :
    ((TaskOf.ofProgram p').course t ((⟨[], touch⟩ :: visits).map (Visit.raise lift))).seen view
        plain = (TaskOf.ofProgram p).course (view t) (⟨[], touch⟩ :: visits) := by
  rcases annotates.settle (lift touch t) with ⟨mirrors, seen⟩
  rw [lifts] at mirrors seen
  rw [List.map_cons, Visit.raise, TaskOf.course_ofProgram (annotates.live live),
    TaskOf.course_ofProgram live, ← seen]
  exact mirrors.follow lifts (live.atRest _) (live.settle _) _ visits

end

end RuleAnalysis
