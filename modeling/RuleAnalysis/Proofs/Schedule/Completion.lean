import RuleAnalysis.Proofs.Schedule.Stints

namespace RuleAnalysis

/-!
# Completion

A program is a tree whose paths are finite. A task whose requests are answered
comes to its result at last, whatever the answers are and whatever state its
stints find. In a group nobody is left behind: every round brings each member
that has not ended a step closer to its end.
-/

variable {σ ρ κ : Type}

/-- A host that answers each batch in full, by what it has seen of the task so far, and hands the
state on as it pleases. -/
structure Host (σ κ : Type) where
  reply : List (Stint σ κ) → List Response
  hand : List (Stint σ κ) → σ
  /-- At first there is nothing to answer. -/
  sized : ∀ before, (reply before).length = (before.getLast?.elim [] Stint.sent).length

/-- The stints behind some others have been brought about by the host. -/
def Host.Conducts (host : Host σ κ) (before stints : List (Stint σ κ)) : Prop :=
  ∀ (k : Nat) (x : Stint σ κ), stints[k]? = some x →
    x.responses = host.reply (before ++ stints.take k) ∧
      x.found = host.hand (before ++ stints.take k)

theorem Host.Conducts.cons {host : Host σ κ} {before stints : List (Stint σ κ)} {x : Stint σ κ}
    (first : x.responses = host.reply before ∧ x.found = host.hand before)
    (conducts : host.Conducts (before ++ [x]) stints) : host.Conducts before (x :: stints) := by
  intro k y found
  cases k with
  | zero =>
      cases found
      rw [List.take_zero, List.append_nil]
      exact first
  | succ k =>
      have later := conducts k y found
      rw [List.append_assoc, List.singleton_append] at later
      rw [List.take_succ_cons]
      exact later

namespace Program

/-- A settled program that is done after finitely many answers, whatever they are and whatever
state they find. -/
inductive Finite : Program σ ρ κ → Prop
  | done (r : ρ) : Finite (done r)
  | answered {p : Program σ ρ κ} :
      (∀ rs s, rs.length = p.pending.length → Finite (p.answer rs s).1) → Finite p

/-- The same of settled members that are answered together. -/
inductive Exhausts : List (Program σ ρ κ) → Prop
  | finished {members : List (Program σ ρ κ)} {rs : List ρ} :
      results? members = some rs → Exhausts members
  | answered {members : List (Program σ ρ κ)} :
      (∀ rs s, rs.length = (pendingAll members).length → Exhausts (answerAll members rs s).1) →
      Exhausts members

/-- Answering members that are finished does nothing. -/
theorem answerAll_finished {members : List (Program σ ρ κ)} {outcomes : List ρ}
    (finished : results? members = some outcomes) (rs : List Response) (s : σ) :
    answerAll members rs s = (members, s) := by
  induction members generalizing outcomes rs with
  | nil => rw [answerAll_nil]
  | cons head rest ih =>
      cases head with
      | done r =>
          rcases Option.map_eq_some_iff.mp finished with ⟨others, found, _⟩
          rw [answerAll, answer_done]
          simp only
          rw [ih found]
      | _ => cases finished

theorem Exhausts.answer {members : List (Program σ ρ κ)} (exhausts : Exhausts members)
    {rs : List Response} (sized : rs.length = (pendingAll members).length) (s : σ) :
    Exhausts (answerAll members rs s).1 := by
  cases exhausts with
  | finished known =>
      rw [answerAll_finished known]
      exact .finished known
  | answered goOn => exact goOn rs s sized

theorem Exhausts.cons {head : Program σ ρ κ} (finite : head.Finite)
    {rest : List (Program σ ρ κ)} (exhausts : Exhausts rest) : Exhausts (head :: rest) := by
  induction finite generalizing rest with
  | done r =>
      -- What is left are the members behind it.
      induction exhausts with
      | @finished rest rs known =>
          exact .finished (Option.map_eq_some_iff.mpr ⟨rs, known, rfl⟩)
      | @answered rest _ ih =>
          refine .answered fun rs s sized => ?_
          rcases exists_mine sized with ⟨mine, more, rfl, counted, more_sized⟩
          rw [answerAll_cons (.done r) rest counted, answer_done]
          exact ih more s more_sized
  | @answered head _ ih =>
      refine .answered fun rs s sized => ?_
      rcases exists_mine sized with ⟨mine, more, rfl, counted, more_sized⟩
      rw [answerAll_cons head rest counted]
      exact ih mine s counted (exhausts.answer more_sized _)

theorem exhausts_of_finite {members : List (Program σ ρ κ)} (finite : ∀ m ∈ members, m.Finite) :
    Exhausts members := by
  induction members with
  | nil => exact .finished rfl
  | cons head rest ih =>
      rcases List.forall_mem_cons.mp finite with ⟨first, others⟩
      exact .cons first (ih others)

theorem Exhausts.regroup {members : List (Program σ ρ κ)} (exhausts : Exhausts members)
    {next : Except ProtocolError (List ρ) → Program σ ρ κ}
    (finite : ∀ rs s, ((next (.ok rs)).settle s).1.Finite) (s : σ) :
    (regroup next members s).1.Finite := by
  induction exhausts generalizing s with
  | @finished members rs known =>
      rw [Program.regroup, known]
      exact finite rs s
  | @answered members _ ih =>
      cases known : results? members with
      | some rs =>
          rw [Program.regroup, known]
          exact finite rs s
      | none =>
          rw [Program.regroup, known]
          refine .answered fun rs s sized => ?_
          rw [answer_group]
          exact ih rs s sized _

theorem Live.finite {p : Program σ ρ κ} (live : p.Live) (s : σ) : (p.settle s).1.Finite := by
  induction live generalizing s with
  | done r => exact .done r
  | @ask q next _ ih =>
      refine .answered fun rs s sized => ?_
      rcases List.length_eq_one_iff.mp sized with ⟨r, rfl⟩
      exact ih r s
  | read _ ih => exact ih s s
  | write _ ih => exact ih _
  | group _ _ memberIH nextIH =>
      rw [settle_group]
      exact (exhausts_of_finite (forall_settleAll memberIH s)).regroup nextIH _

/-- A host that goes on answering brings a settled program to its result. -/
theorem Finite.exists_goes {p : Program σ ρ κ} (finite : p.Finite) (rests : p.AtRest)
    (live : p.Live) (host : Host σ κ) (before : List (Stint σ κ))
    (asked : before.getLast?.elim [] Stint.sent = p.pending) :
    ∃ stints r, p.Goes stints (some r) ∧ host.Conducts before stints := by
  induction finite generalizing before with
  | done r => exact ⟨[], r, .ended r, nofun⟩
  | @answered p _ ih =>
      rcases rests.done_or_asks with ⟨r, rfl⟩ | asks
      · exact ⟨[], r, .ended r, nofun⟩
      · let x := p.stint (host.reply before) (host.hand before)
        have sized : x.responses.length = p.pending.length := by
          rw [← asked]
          exact host.sized before
        have lastly : (before ++ [x]).getLast?.elim [] Stint.sent =
            (p.answer x.responses x.found).1.pending := by
          rw [List.getLast?_concat]
          rfl
        rcases ih _ x.found sized (rests.answer live _ _) (live.answer _ _) (before ++ [x]) lastly
          with ⟨stints, r, goes, conducts⟩
        exact ⟨x :: stints, r, .stint asks sized goes, .cons ⟨rfl, rfl⟩ conducts⟩

/-- A task comes to its result, whatever state its stints find, if its requests are answered. -/
theorem Live.exists_runs {p : Program σ ρ κ} (live : p.Live) (host : Host σ κ) :
    ∃ stints r, (TaskOf.ofProgram p).Runs stints (some r) ∧ host.Conducts [] stints := by
  let x := p.opening (host.hand [])
  rcases (live.finite x.found).exists_goes (live.atRest _) (live.settle _) host [x] rfl
    with ⟨stints, r, goes, conducts⟩
  have unasked : x.responses = host.reply [] := (List.length_eq_zero_iff.mp (host.sized [])).symm
  exact ⟨x :: stints, r, (TaskOf.runs_ofProgram_iff live).mpr ⟨rfl, goes⟩,
    .cons ⟨unasked, rfl⟩ conducts⟩

end Program

end RuleAnalysis
