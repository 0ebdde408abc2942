import RuleAnalysis.Proofs.Schedule.Course

namespace RuleAnalysis

/-!
# Passages

A program that runs no group asks the host one thing at a time. How it gets
from one point to a later one can then be told step by step: what it reads and
writes, what it asks, and what it is answered. A passage tells that, and the
course of a task goes through the passages of its program, whatever comes
behind them.
-/

variable {σ κ α β : Type}

/-- One trip to the host and back: something is asked, and the host visits with the answer. -/
structure Trip (σ κ : Type) where
  request : κ
  response : Response
  touch : σ → σ

namespace Trip

def visit (x : Trip σ κ) : Visit σ := ⟨[x.response], x.touch⟩

end Trip

/-! ## Procedures -/

/-- A procedure that begins in a state yields a result, in the state that it leaves. -/
inductive Procedure.Yields :
    Procedure σ α κ → σ → List (Trip σ κ) → α → σ → Prop
  | done (a : α) (s : σ) : Yields (.done a) s [] a s
  | ask {q : κ} {next : Response → Procedure σ α κ} {r : Response} {touch : σ → σ} {s s' : σ}
      {xs : List (Trip σ κ)} {a : α} :
      Yields (next r) (touch s) xs a s' → Yields (.ask q next) s (⟨q, r, touch⟩ :: xs) a s'
  | read {next : σ → Procedure σ α κ} {s s' : σ} {xs : List (Trip σ κ)} {a : α} :
      Yields (next s) s xs a s' → Yields (.read next) s xs a s'
  | write {state : σ} {next : Procedure σ α κ} {s s' : σ} {xs : List (Trip σ κ)} {a : α} :
      Yields next state xs a s' → Yields (.write state next) s xs a s'

namespace Procedure.Yields

theorem modify (change : σ → σ) (a : α) (s : σ) :
    (Procedure.modify change a : Procedure σ α κ).Yields s [] a (change s) :=
  .read (.write (.done a (change s)))

theorem bind {first : Procedure σ α κ} {more : α → Procedure σ β κ} {s s' s'' : σ}
    {xs ys : List (Trip σ κ)} {a : α} {b : β} (yields : first.Yields s xs a s')
    (later : (more a).Yields s' ys b s'') : (first.bind more).Yields s (xs ++ ys) b s'' := by
  induction yields with
  | done a s => exact later
  | ask _ ih => exact .ask (ih later)
  | read _ ih => exact .read (ih later)
  | write _ ih => exact .write (ih later)

/-- A procedure that succeeds is followed by the next one. -/
theorem andThen {ε : Type} {first : Procedure σ (Except ε α) κ}
    {more : α → Procedure σ (Except ε β) κ} {s s' s'' : σ} {xs ys : List (Trip σ κ)} {a : α}
    {b : Except ε β} (yields : first.Yields s xs (.ok a) s')
    (later : (more a).Yields s' ys b s'') : (first.andThen more).Yields s (xs ++ ys) b s'' :=
  yields.bind later

/-- The next one asks nothing. -/
theorem andThen_quiet {ε : Type} {first : Procedure σ (Except ε α) κ}
    {more : α → Procedure σ (Except ε β) κ} {s s' s'' : σ} {xs : List (Trip σ κ)} {a : α}
    {b : Except ε β} (yields : first.Yields s xs (.ok a) s')
    (later : (more a).Yields s' [] b s'') : (first.andThen more).Yields s xs b s'' := by
  have both := yields.andThen later
  rwa [List.append_nil] at both

end Procedure.Yields

/-! ## Programs -/

namespace Program

variable {ρ : Type}

/-- A program gets from a state to another program in the state that it leaves. -/
inductive Leads : Program σ ρ κ → σ → List (Trip σ κ) → Program σ ρ κ → σ → Prop
  | here (p : Program σ ρ κ) (s : σ) : Leads p s [] p s
  | ask {q : κ} {next : Response → Program σ ρ κ} {r : Response} {touch : σ → σ} {s s' : σ}
      {xs : List (Trip σ κ)} {p : Program σ ρ κ} :
      Leads (next r) (touch s) xs p s' → Leads (ask q next) s (⟨q, r, touch⟩ :: xs) p s'
  | read {next : σ → Program σ ρ κ} {s s' : σ} {xs : List (Trip σ κ)} {p : Program σ ρ κ} :
      Leads (next s) s xs p s' → Leads (read next) s xs p s'
  | write {state : σ} {next : Program σ ρ κ} {s s' : σ} {xs : List (Trip σ κ)}
      {p : Program σ ρ κ} :
      Leads next state xs p s' → Leads (write state next) s xs p s'

namespace Leads

variable {p p' p'' : Program σ ρ κ} {s s' s'' : σ} {xs ys : List (Trip σ κ)}

theorem trans (leads : p.Leads s xs p' s') (later : p'.Leads s' ys p'' s'') :
    p.Leads s (xs ++ ys) p'' s'' := by
  induction leads with
  | here => exact later
  | ask _ ih => exact .ask (ih later)
  | read _ ih => exact .read (ih later)
  | write _ ih => exact .write (ih later)

theorem perform {procedure : Procedure σ α κ} {a : α} (yields : procedure.Yields s xs a s')
    (next : α → Program σ ρ κ) : (perform procedure next).Leads s xs (next a) s' := by
  induction yields with
  | done a s => exact .here (next a) s
  | ask _ ih => exact .ask ih
  | read _ ih => exact .read ih
  | write _ ih => exact .write ih

/-- The course of a task begins with the passages of its program, and goes on as that of a task for
what they lead to. -/
theorem course (leads : p.Leads s xs p' s') (live : p.Live) (more : List (Visit σ)) :
    (TaskOf.ofProgram p).course s (⟨[], id⟩ :: (xs.map Trip.visit ++ more)) =
      (xs.map fun x => [x.request]).foldr Course.after
        ((TaskOf.ofProgram p').course s' (⟨[], id⟩ :: more)) := by
  induction leads with
  | here => rfl
  | @ask q next r touch s s' xs p' later ih =>
      cases live with
      | ask nextLive =>
          have asks : (Program.ask q next).pending ≠ [] := List.cons_ne_nil q []
          rw [List.map_cons, List.map_cons, List.foldr_cons, ← ih (nextLive r),
            TaskOf.course_ofProgram (.ask nextLive), TaskOf.course_ofProgram (nextLive r)]
          exact follow_cons asks s (Trip.visit ⟨q, r, touch⟩) _ rfl
  | read _ ih =>
      cases live with
      | read nextLive =>
          rw [← ih (nextLive _), TaskOf.course_ofProgram (.read nextLive),
            TaskOf.course_ofProgram (nextLive _)]
          rfl
  | write _ ih =>
      cases live with
      | write nextLive =>
          rw [← ih nextLive, TaskOf.course_ofProgram (.write nextLive),
            TaskOf.course_ofProgram nextLive]
          rfl

end Leads

end Program

end RuleAnalysis
