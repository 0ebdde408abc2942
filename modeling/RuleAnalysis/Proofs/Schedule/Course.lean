import RuleAnalysis.Proofs.Schedule.Simulation

namespace RuleAnalysis

/-!
# The course of a task

A host visits a task again and again. Each visit brings responses, and the
state may have been touched from outside since the last one. The course of a
task is what its visits have come to: the batches of requests it has sent, and
how it has ended if it has.
-/

variable {σ ρ κ : Type}

/-- The host's part of one exchange. -/
structure Visit (σ : Type) where
  responses : List Response
  touch : σ → σ

structure Course (σ ρ κ : Type) where
  batches : List (List κ)
  /-- Nothing as long as the task waits for the next visit. -/
  ending : Option (Except ProtocolError ρ)
  state : σ

namespace Course

/-- The course of a task that has sent one more batch ahead of the others. -/
def after (qs : List κ) (c : Course σ ρ κ) : Course σ ρ κ :=
  { c with batches := qs :: c.batches }

def result? (c : Course σ ρ κ) : Option ρ := c.ending.bind Except.toOption

@[simp] theorem after_batches (qs : List κ) (c : Course σ ρ κ) :
    (c.after qs).batches = qs :: c.batches := rfl

@[simp] theorem after_ending (qs : List κ) (c : Course σ ρ κ) :
    (c.after qs).ending = c.ending := rfl

end Course

/-- A task that has ended or failed is not visited any more. -/
def TaskOf.course (t : Task σ ρ κ) (s : σ) : List (Visit σ) → Course σ ρ κ
  | [] => ⟨[], none, s⟩
  | v :: visits =>
      match t.resume v.responses (v.touch s) with
      | (.ok (.pending qs), t, s) => (TaskOf.course t s visits).after qs
      | (.ok (.done r), _, s) => ⟨[], some (.ok r), s⟩
      | (.error e, _, s) => ⟨[], some (.error e), s⟩

namespace Program

/-- The course of a settled program. -/
def follow (p : Program σ ρ κ) (s : σ) (visits : List (Visit σ)) : Course σ ρ κ :=
  match p with
  | done r => ⟨[], some (.ok r), s⟩
  | p =>
      match visits with
      | [] => ⟨[p.pending], none, s⟩
      | v :: visits =>
          if v.responses.length = p.pending.length then
            let (p', s) := p.answer v.responses (v.touch s)
            (p'.follow s visits).after p.pending
          else
            ⟨[p.pending],
              some (.error (.responseCount p.pending.length v.responses.length)), v.touch s⟩

@[simp] theorem follow_done (r : ρ) (s : σ) (visits : List (Visit σ)) :
    (done r : Program σ ρ κ).follow s visits = ⟨[], some (.ok r), s⟩ := by
  rw [follow]

theorem follow_nil {p : Program σ ρ κ} (asks : p.pending ≠ []) (s : σ) :
    p.follow s [] = ⟨[p.pending], none, s⟩ := by
  cases p with
  | done r => exact absurd rfl asks
  | _ => rw [follow]; intro r impossible; cases impossible

theorem follow_cons {p : Program σ ρ κ} (asks : p.pending ≠ []) (s : σ) (v : Visit σ)
    (visits : List (Visit σ)) (sized : v.responses.length = p.pending.length) :
    p.follow s (v :: visits) =
      ((p.answer v.responses (v.touch s)).1.follow (p.answer v.responses (v.touch s)).2
        visits).after p.pending := by
  cases p with
  | done r => exact absurd rfl asks
  | _ => rw [follow, if_pos sized]; intro r impossible; cases impossible

theorem follow_missized {p : Program σ ρ κ} (asks : p.pending ≠ []) (s : σ) (v : Visit σ)
    (visits : List (Visit σ)) (missized : v.responses.length ≠ p.pending.length) :
    p.follow s (v :: visits) =
      ⟨[p.pending], some (.error (.responseCount p.pending.length v.responses.length)),
        v.touch s⟩ := by
  cases p with
  | done r => exact absurd rfl asks
  | _ => rw [follow, if_neg missized]; intro r impossible; cases impossible

end Program

namespace TaskOf

theorem StandsFor.pending_ne_nil {t : Task σ ρ κ} {p : Program σ ρ κ} (stands : t.StandsFor p) :
    p.pending ≠ [] := by
  cases stands with
  | waiting _ asks => exact asks

/-- The course of a task that waits is that of the program it stands for. -/
theorem StandsFor.course {t : Task σ ρ κ} {p : Program σ ρ κ} (stands : t.StandsFor p)
    (live : p.Live) (s : σ) (visits : List (Visit σ)) :
    (t.course s visits).after p.pending = p.follow s visits := by
  induction visits generalizing t p s with
  | nil => rw [Program.follow_nil stands.pending_ne_nil]; rfl
  | cons v visits ih =>
      by_cases sized : v.responses.length = p.pending.length
      · rw [Program.follow_cons stands.pending_ne_nil s v visits sized, TaskOf.course]
        have carries := stands.resume live sized (v.touch s)
        have still := live.answer v.responses (v.touch s)
        generalize t.resume v.responses (v.touch s) = resumed at carries
        generalize p.answer v.responses (v.touch s) = turn at carries still
        cases carries with
        | done r c s => simp
        | pending s stands => simp [ih stands still]
      · rw [Program.follow_missized stands.pending_ne_nil s v visits sized, TaskOf.course,
          stands.resume_missized sized]
        rfl

theorem course_ofProgram {p : Program σ ρ κ} (live : p.Live) (touch : σ → σ) (s : σ)
    (visits : List (Visit σ)) :
    (ofProgram p).course s (⟨[], touch⟩ :: visits) =
      (p.settle (touch s)).1.follow (p.settle (touch s)).2 visits := by
  have carries := resume_ofProgram live (touch s)
  have still := live.settle (touch s)
  rw [TaskOf.course]
  simp only
  generalize (ofProgram p).resume [] (touch s) = resumed at carries
  generalize p.settle (touch s) = turn at carries still
  cases carries with
  | done r c s => simp
  | pending s stands => exact stands.course still s visits

end TaskOf

end RuleAnalysis
