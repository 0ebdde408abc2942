import RuleAnalysis.Proofs.Schedule.Course

namespace RuleAnalysis

/-!
# Stints

A task works in stints: it is resumed, works on the state that it finds, and
waits again or has ended. What becomes of the state between two stints is not
the task's affair, so a task can be followed through its stints whoever else
works on the state.
-/

variable {σ ρ κ : Type}

structure Stint (σ κ : Type) where
  responses : List Response
  found : σ
  /-- The requests that the task waits for behind the stint. One that has ended waits for none. -/
  sent : List κ
  left : σ

/-- The task has been resumed again and again, and has never been turned away. It has come to its
result, or it waits. -/
inductive TaskOf.Runs : Task σ ρ κ → List (Stint σ κ) → Option ρ → Prop
  | waits (t : Task σ ρ κ) : Runs t [] none
  | pending {t t' : Task σ ρ κ} {rs : List Response} {s s' : σ} {qs : List κ}
      {stints : List (Stint σ κ)} {result : Option ρ} :
      t.resume rs s = (.ok (.pending qs), t', s') → Runs t' stints result →
      Runs t (⟨rs, s, qs, s'⟩ :: stints) result
  | done {t t' : Task σ ρ κ} {rs : List Response} {s s' : σ} {r : ρ} :
      t.resume rs s = (.ok (.done r), t', s') → Runs t [⟨rs, s, [], s'⟩] (some r)

/-! ## The stints of settled programs -/

namespace Program

/-- The first stint of a program. -/
def opening (p : Program σ ρ κ) (s : σ) : Stint σ κ :=
  ⟨[], s, (p.settle s).1.pending, (p.settle s).2⟩

/-- The stint of a settled program that is answered. -/
def stint (p : Program σ ρ κ) (rs : List Response) (s : σ) : Stint σ κ :=
  ⟨rs, s, (p.answer rs s).1.pending, (p.answer rs s).2⟩

/-- What a settled program does from where it stands. -/
inductive Goes : Program σ ρ κ → List (Stint σ κ) → Option ρ → Prop
  | ended (r : ρ) : Goes (done r) [] (some r)
  | waits {p : Program σ ρ κ} : p.pending ≠ [] → Goes p [] none
  | stint {p : Program σ ρ κ} {rs : List Response} {s : σ} {stints : List (Stint σ κ)}
      {result : Option ρ} :
      p.pending ≠ [] → rs.length = p.pending.length → Goes (p.answer rs s).1 stints result →
      Goes p (p.stint rs s :: stints) result

theorem goes_done_iff {r : ρ} {stints : List (Stint σ κ)} {result : Option ρ} :
    (done r : Program σ ρ κ).Goes stints result ↔ stints = [] ∧ result = some r := by
  constructor
  · intro goes
    cases goes with
    | ended => exact ⟨rfl, rfl⟩
    | waits asks => exact absurd rfl asks
    | stint asks _ _ => exact absurd rfl asks
  · rintro ⟨rfl, rfl⟩
    exact .ended r

theorem goes_nil_iff {p : Program σ ρ κ} (asks : p.pending ≠ []) {result : Option ρ} :
    p.Goes [] result ↔ result = none := by
  constructor
  · intro goes
    cases goes with
    | ended => exact absurd rfl asks
    | waits _ => rfl
  · rintro rfl
    exact .waits asks

theorem goes_cons_iff {p : Program σ ρ κ} (asks : p.pending ≠ []) {x : Stint σ κ}
    {stints : List (Stint σ κ)} {result : Option ρ} :
    p.Goes (x :: stints) result ↔
      x.responses.length = p.pending.length ∧ x = p.stint x.responses x.found ∧
        (p.answer x.responses x.found).1.Goes stints result := by
  constructor
  · intro goes
    cases goes with
    | stint _ sized later => exact ⟨sized, rfl, later⟩
  · rintro ⟨sized, same, later⟩
    rw [same]
    exact .stint asks sized later

end Program

namespace TaskOf

open Program

theorem runs_nil_iff {t : Task σ ρ κ} {result : Option ρ} : t.Runs [] result ↔ result = none := by
  constructor
  · intro runs
    cases runs
    rfl
  · rintro rfl
    exact .waits t

/-- A task has a stint if its resumption carries out a turn of its program, and goes on from there
as the program does. -/
theorem runs_cons_iff {t : Task σ ρ κ} {x : Stint σ κ} {turn : Program σ ρ κ × σ}
    (carries : Resumption.Carries (t.resume x.responses x.found) turn)
    {stints : List (Stint σ κ)} {result : Option ρ}
    (later : ∀ t' : Task σ ρ κ, t'.StandsFor turn.1 →
      (t'.Runs stints result ↔ turn.1.Goes stints result)) :
    t.Runs (x :: stints) result ↔
      x = ⟨x.responses, x.found, turn.1.pending, turn.2⟩ ∧ turn.1.Goes stints result := by
  rcases x with ⟨rs, s, qs, s'⟩
  simp only at carries ⊢
  generalize resumed : t.resume rs s = outcome at carries
  constructor
  · intro runs
    cases runs with
    | pending now runs =>
        rw [resumed] at now
        subst now
        cases carries with
        | pending _ stands => exact ⟨rfl, (later _ stands).mp runs⟩
    | done now =>
        rw [resumed] at now
        subst now
        cases carries with
        | done r c _ => exact ⟨rfl, .ended _⟩
  · rintro ⟨same, goes⟩
    cases carries with
    | done r c _ =>
        rcases goes_done_iff.mp goes with ⟨rfl, rfl⟩
        cases same
        exact .done resumed
    | pending _ stands =>
        cases same
        exact .pending resumed ((later _ stands).mpr goes)

/-- A task that waits has the stints of the program that it stands for. -/
theorem StandsFor.runs_iff {t : Task σ ρ κ} {p : Program σ ρ κ} (stands : t.StandsFor p)
    (live : p.Live) {stints : List (Stint σ κ)} {result : Option ρ} :
    t.Runs stints result ↔ p.Goes stints result := by
  have asks := stands.pending_ne_nil
  induction stints generalizing t p result with
  | nil => rw [runs_nil_iff, goes_nil_iff asks]
  | cons x stints ih =>
      rw [goes_cons_iff asks]
      by_cases sized : x.responses.length = p.pending.length
      · rw [runs_cons_iff (stands.resume live sized x.found) fun t' stands =>
          ih stands (live.answer _ _) stands.pending_ne_nil]
        exact (and_iff_right sized).symm
      · refine iff_of_false (fun runs => ?_) fun goes => sized goes.1
        have refused := stands.resume_missized sized x.found
        cases runs with
        | pending resumed _ => cases resumed.symm.trans refused
        | done resumed => cases resumed.symm.trans refused

/-- A task that has not been resumed yet has the first stint of its program, and then those of the
settled program. -/
theorem runs_ofProgram_iff {p : Program σ ρ κ} (live : p.Live) {x : Stint σ κ}
    {stints : List (Stint σ κ)} {result : Option ρ} :
    (ofProgram p).Runs (x :: stints) result ↔
      x = p.opening x.found ∧ (p.settle x.found).1.Goes stints result := by
  rcases x with ⟨rs, s, qs, s'⟩
  cases rs with
  | nil =>
      exact runs_cons_iff (resume_ofProgram live s) fun t' stands =>
        stands.runs_iff (live.settle s)
  | cons r rs =>
      refine iff_of_false (fun runs => ?_) fun opens => nomatch congrArg Stint.responses opens.1
      have refused : (ofProgram p).resume (r :: rs) s =
          (.error (.responseCount 0 (rs.length + 1)), ofProgram p, s) := rfl
      cases runs with
      | pending resumed _ => cases resumed.symm.trans refused
      | done resumed => cases resumed.symm.trans refused

end TaskOf

end RuleAnalysis
