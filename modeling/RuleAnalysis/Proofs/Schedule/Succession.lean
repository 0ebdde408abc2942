import Mathlib
import RuleAnalysis.Proofs.Schedule.Course

namespace RuleAnalysis

/-!
# Programs that run one after another

A program that has been bound to another does what it does alone until it is
done. The courses of programs that run one after another are therefore their
own courses, one behind the other. Programs that share nothing that changes
leave the state alone, so that each begins where the first has begun.
-/

variable {σ ρ κ : Type}

namespace Visit

/-- A visit of a host that leaves the state alone. -/
def quiet (responses : List Response) : Visit σ := ⟨responses, id⟩

end Visit

namespace Course

/-- Each of the replies answers the batch in its place and is as long as that. -/
def Fits (c : Course σ ρ κ) (replies : List (List Response)) : Prop :=
  ∀ (k : Nat) (rs : List Response), replies[k]? = some rs →
    ∃ qs : List κ, c.batches[k]? = some qs ∧ rs.length = qs.length

theorem fits_nil (c : Course σ ρ κ) : c.Fits [] := by
  intro k rs found
  cases found

theorem fits_after (qs : List κ) (c : Course σ ρ κ) (rs : List Response)
    (replies : List (List Response)) :
    (c.after qs).Fits (rs :: replies) ↔ rs.length = qs.length ∧ c.Fits replies := by
  constructor
  · intro fits
    refine ⟨?_, fun k rs found => by simpa using fits (k + 1) rs found⟩
    simpa [eq_comm] using fits 0 rs rfl
  · rintro ⟨sized, fits⟩ k found known
    cases k with
    | zero =>
        cases known
        exact ⟨qs, rfl, sized⟩
    | succ k => exact fits k found known

theorem Fits.length_le {c : Course σ ρ κ} {replies : List (List Response)} (fits : c.Fits replies) :
    replies.length ≤ c.batches.length := by
  apply Nat.le_of_not_lt
  intro fewer
  rcases fits _ _ (List.getElem?_eq_getElem fewer) with ⟨qs, found, _⟩
  rw [List.getElem?_eq_none (Nat.le_refl _)] at found
  cases found

/-- A host that answers each request by itself keeps to the sizes of the batches. -/
theorem fits_map (c : Course σ ρ κ) (host : κ → Response) :
    c.Fits (c.batches.map (List.map host)) := by
  intro k rs found
  rw [List.getElem?_map, Option.map_eq_some_iff] at found
  rcases found with ⟨qs, found, rfl⟩
  exact ⟨qs, found, List.length_map ..⟩

end Course

namespace Program

/-- The program suspends only to ask something or to run a group, and never changes the state that
it shares with others. What it keeps to itself is in the way it goes on. -/
inductive Independent : Program σ ρ κ → Prop
  | done (r : ρ) : Independent (done r)
  | ask {q : κ} {next : Response → Program σ ρ κ} :
      (∀ r, Independent (next r)) → Independent (ask q next)
  | read {next : σ → Program σ ρ κ} : (∀ s, Independent (next s)) → Independent (read next)
  | group {members : List (Program σ ρ κ)} {next : Except ProtocolError (List ρ) → Program σ ρ κ} :
      (∀ m ∈ members, Independent m) → (∀ rs, Independent (next (.ok rs))) →
      Independent (group members next)

/-- The course of a program that is driven alone, as a task of its own. -/
def driven (p : Program σ ρ κ) (s : σ) (replies : List (List Response)) : Course σ ρ κ :=
  (TaskOf.ofProgram p).course s (([] :: replies).map Visit.quiet)

theorem Live.driven_eq {p : Program σ ρ κ} (live : p.Live) (s : σ)
    (replies : List (List Response)) :
    p.driven s replies = (p.settle s).1.follow (p.settle s).2 (replies.map Visit.quiet) := by
  rw [driven, List.map_cons, Visit.quiet, TaskOf.course_ofProgram live, id]

namespace Independent

theorem live {p : Program σ ρ κ} (independent : p.Independent) : p.Live := by
  induction independent with
  | done r => exact .done r
  | ask _ ih => exact .ask ih
  | read _ ih => exact .read ih
  | group _ _ memberIH nextIH => exact .group memberIH nextIH

theorem settleAll_state {members : List (Program σ ρ κ)}
    (each : ∀ m ∈ members, ∀ s, (m.settle s).2 = s) (s : σ) : (settleAll members s).2 = s := by
  induction members generalizing s with
  | nil => simp
  | cons head rest ih =>
      rw [settleAll_cons]
      simp only
      rw [each head (List.mem_cons_self ..)]
      exact ih (fun m member => each m (List.mem_cons_of_mem _ member)) s

theorem answerAll_state {members : List (Program σ ρ κ)}
    (each : ∀ m ∈ members, ∀ rs s, (m.answer rs s).2 = s) (rs : List Response) (s : σ) :
    (answerAll members rs s).2 = s := by
  induction members generalizing rs s with
  | nil => simp
  | cons head rest ih =>
      rw [answerAll]
      simp only
      rw [each head (List.mem_cons_self ..)]
      exact ih (fun m member => each m (List.mem_cons_of_mem _ member)) _ s

theorem settle_state {p : Program σ ρ κ} (independent : p.Independent) (s : σ) :
    (p.settle s).2 = s := by
  induction independent generalizing s with
  | done r => rfl
  | ask _ _ => rfl
  | read _ ih => exact ih s s
  | group _ _ memberIH nextIH =>
      rw [settle_group, settleAll_state memberIH, regroup]
      split
      · exact nextIH _ s
      · rfl

theorem settle {p : Program σ ρ κ} (independent : p.Independent) (s : σ) :
    (p.settle s).1.Independent := by
  induction independent generalizing s with
  | done r => exact .done r
  | ask next _ => exact .ask next
  | read _ ih => exact ih s s
  | group _ next memberIH nextIH =>
      rw [settle_group, regroup]
      split
      · exact nextIH _ _
      · exact .group (forall_settleAll memberIH s) next

theorem answer_state {p : Program σ ρ κ} (independent : p.Independent) (rs : List Response) (s : σ) :
    (p.answer rs s).2 = s := by
  induction independent generalizing rs s with
  | done r => rfl
  | ask next _ =>
      cases rs with
      | nil => rfl
      | cons r _ => exact (next r).settle_state s
  | read _ _ => rfl
  | group _ next memberIH _ =>
      rw [answer_group, answerAll_state memberIH, regroup]
      split
      · exact (next _).settle_state s
      · rfl

theorem answer {p : Program σ ρ κ} (independent : p.Independent) (rs : List Response) (s : σ) :
    (p.answer rs s).1.Independent := by
  induction independent generalizing rs s with
  | done r => exact .done r
  | ask next _ =>
      cases rs with
      | nil => exact .ask next
      | cons r _ => exact (next r).settle s
  | read next _ => exact .read next
  | group _ next memberIH _ =>
      rw [answer_group, regroup]
      split
      · exact (next _).settle _
      · exact .group (forall_answerAll memberIH rs s) next

theorem driven_eq {p : Program σ ρ κ} (independent : p.Independent) (s : σ)
    (replies : List (List Response)) :
    p.driven s replies = (p.settle s).1.follow s (replies.map Visit.quiet) := by
  rw [independent.live.driven_eq, independent.settle_state]

end Independent

/-! ## The shape of a course -/

theorem follow_batches_zero {p : Program σ ρ κ} (asks : p.pending ≠ []) (s : σ)
    (visits : List (Visit σ)) : (p.follow s visits).batches[0]? = some p.pending := by
  cases visits with
  | nil => rw [follow_nil asks]; rfl
  | cons v visits =>
      by_cases sized : v.responses.length = p.pending.length
      · rw [follow_cons asks s v visits sized]; rfl
      · rw [follow_missized asks s v visits sized]; rfl

/-- A course that has ended has had an answer to every batch. -/
theorem follow_ended {p : Program σ ρ κ} (rests : p.AtRest) (live : p.Live) {s : σ}
    {visits : List (Visit σ)} (ended : (p.follow s visits).ending ≠ none) :
    (p.follow s visits).batches.length ≤ visits.length := by
  induction visits generalizing p s with
  | nil =>
      rcases rests.done_or_asks with ⟨r, rfl⟩ | asks
      · simp
      · rw [follow_nil asks] at ended
        exact absurd rfl ended
  | cons v visits ih =>
      rcases rests.done_or_asks with ⟨r, rfl⟩ | asks
      · simp
      · by_cases sized : v.responses.length = p.pending.length
        · rw [follow_cons asks s v visits sized] at ended ⊢
          exact Nat.succ_le_succ (ih (rests.answer live _ _) (live.answer _ _) ended)
        · rw [follow_missized asks s v visits sized]
          simp

theorem follow_batches_ne_nil {p : Program σ ρ κ} (rests : p.AtRest) (live : p.Live) (s : σ)
    (visits : List (Visit σ)) : ∀ qs ∈ (p.follow s visits).batches, qs ≠ [] := by
  induction visits generalizing p s with
  | nil =>
      rcases rests.done_or_asks with ⟨r, rfl⟩ | asks
      · simp
      · simpa [follow_nil asks] using asks
  | cons v visits ih =>
      rcases rests.done_or_asks with ⟨r, rfl⟩ | asks
      · simp
      · by_cases sized : v.responses.length = p.pending.length
        · rw [follow_cons asks s v visits sized]
          simpa [asks] using ih (rests.answer live _ _) (live.answer _ _) _
        · simpa [follow_missized asks s v visits sized] using asks

/-- Replies that fit are never turned away. -/
theorem follow_unfailing {p : Program σ ρ κ} (rests : p.AtRest) (live : p.Live) {s : σ}
    {replies : List (List Response)} (fits : (p.follow s (replies.map Visit.quiet)).Fits replies)
    (e : ProtocolError) : (p.follow s (replies.map Visit.quiet)).ending ≠ some (.error e) := by
  induction replies generalizing p s with
  | nil =>
      rcases rests.done_or_asks with ⟨r, rfl⟩ | asks
      · simp
      · simp [follow_nil asks]
  | cons rs replies ih =>
      rcases rests.done_or_asks with ⟨r, rfl⟩ | asks
      · simp
      · rw [List.map_cons] at fits ⊢
        rcases fits 0 rs rfl with ⟨qs, found, sized⟩
        rw [follow_batches_zero asks] at found
        cases found
        rw [follow_cons asks s (.quiet rs) _ sized] at fits ⊢
        exact ih (rests.answer live _ _) (live.answer _ _) ((Course.fits_after ..).mp fits).2

/-! ## Succession -/

/-- Runs programs one after another and goes on with their results. -/
def oneAfterAnother : List (Program σ ρ κ) → (List ρ → Program σ ρ κ) → Program σ ρ κ
  | [], next => next []
  | p :: rest, next => p.bind fun r => oneAfterAnother rest fun rs => next (r :: rs)

/-- A host that answers each request by itself brings the program, driven alone, to its result in so
many round trips. -/
def Served (host : κ → Response) (s : σ) (p : Program σ ρ κ) (trips : Nat) (r : ρ) : Prop :=
  ∃ replies : List (List Response), replies.length = trips ∧
    (p.driven s replies).ending = some (.ok r) ∧
    replies = (p.driven s replies).batches.map (List.map host)

/-- Where a program stands that goes on as soon as it is done. -/
def onward (more : ρ → Program σ ρ κ) : Program σ ρ κ × σ → Program σ ρ κ × σ
  | (done r, s) => (more r).settle s
  | (p, s) => (p.bind more, s)

theorem onward_asking {p : Program σ ρ κ} (asks : p.pending ≠ []) (more : ρ → Program σ ρ κ)
    (s : σ) : onward more (p, s) = (p.bind more, s) := by
  cases p with
  | done r => exact absurd rfl asks
  | _ => rfl

theorem pending_bind {p : Program σ ρ κ} (asks : p.pending ≠ []) (more : ρ → Program σ ρ κ) :
    (p.bind more).pending = p.pending := by
  cases p with
  | done r => exact absurd rfl asks
  | _ => rfl

theorem settle_bind {p : Program σ ρ κ} (live : p.Live) (more : ρ → Program σ ρ κ) (s : σ) :
    (p.bind more).settle s = onward more (p.settle s) := by
  induction live generalizing s with
  | done r => rfl
  | ask _ _ => rfl
  | read _ ih => exact ih s s
  | write _ ih => exact ih _
  | @group members next _ _ _ nextIH =>
      rw [bind, settle_group, settle_group, regroup, regroup]
      split
      · exact nextIH _ _
      · rfl

theorem answer_bind {p : Program σ ρ κ} (rests : p.AtRest) (asks : p.pending ≠ []) (live : p.Live)
    (more : ρ → Program σ ρ κ) {rs : List Response} (sized : rs.length = p.pending.length) (s : σ) :
    (p.bind more).answer rs s = onward more (p.answer rs s) := by
  cases rests with
  | done r => exact absurd rfl asks
  | ask q next =>
      cases live with
      | ask nextLive =>
          rcases List.length_eq_one_iff.mp sized with ⟨r, rfl⟩
          exact settle_bind (nextLive r) more s
  | group next _ _ =>
      cases live with
      | group _ nextLive =>
          rw [bind, answer_group, answer_group, regroup, regroup]
          split
          · exact settle_bind (nextLive _) more _
          · rfl

/-- What follows a program that has come to its result begins where the program has ended. -/
theorem follow_onward {p : Program σ ρ κ} (rests : p.AtRest) (independent : p.Independent)
    (more : ρ → Program σ ρ κ) {s : σ} {replies : List (List Response)} {r : ρ}
    (ended : (p.follow s (replies.map Visit.quiet)).ending = some (.ok r))
    (fits : (p.follow s (replies.map Visit.quiet)).Fits replies) (later : List (List Response)) :
    let own := p.follow s (replies.map Visit.quiet)
    let further := ((more r).settle s).1.follow ((more r).settle s).2 (later.map Visit.quiet)
    (onward more (p, s)).1.follow (onward more (p, s)).2 ((replies ++ later).map Visit.quiet) =
      ⟨own.batches ++ further.batches, further.ending, further.state⟩ := by
  induction replies generalizing p with
  | nil =>
      rcases rests.done_or_asks with ⟨r', rfl⟩ | asks
      · rw [List.map_nil, follow_done] at ended
        cases ended
        rfl
      · rw [List.map_nil, follow_nil asks] at ended
        cases ended
  | cons rs replies ih =>
      rcases rests.done_or_asks with ⟨r', rfl⟩ | asks
      · have extra := fits.length_le
        rw [follow_done] at extra
        exact absurd extra (Nat.not_succ_le_zero _)
      · simp only [List.map_cons, List.cons_append] at ended fits ⊢
        by_cases sized : rs.length = p.pending.length
        · have sized' : (Visit.quiet rs : Visit σ).responses.length =
              (p.bind more).pending.length := by
            rw [pending_bind asks]
            exact sized
          rw [follow_cons asks s (.quiet rs) _ sized] at ended fits ⊢
          rw [onward_asking asks, follow_cons (by rwa [pending_bind asks]) s (.quiet rs) _ sized',
            pending_bind asks]
          simp only [Visit.quiet, id] at ended fits ⊢
          rw [answer_bind rests asks independent.live more sized]
          have stays := independent.answer_state rs s
          have rests := rests.answer independent.live rs s
          have independent := independent.answer rs s
          generalize p.answer rs s = turn at ended fits stays rests independent ⊢
          rcases turn with ⟨p', s'⟩
          cases stays
          have rest := ih rests independent ended ((Course.fits_after ..).mp fits).2
          simp only at rest ⊢
          rw [rest]
          rfl
        · rw [follow_missized asks s (.quiet rs) _ sized] at ended
          cases ended

theorem Independent.bind {p : Program σ ρ κ} (independent : p.Independent)
    {more : ρ → Program σ ρ κ} (moreIndependent : ∀ r, (more r).Independent) :
    (p.bind more).Independent := by
  induction independent with
  | done r => exact moreIndependent r
  | ask _ ih => exact .ask ih
  | read _ ih => exact .read ih
  | group memberIndependent _ _ nextIH => exact .group memberIndependent nextIH

theorem Independent.oneAfterAnother {members : List (Program σ ρ κ)}
    (independent : ∀ m ∈ members, m.Independent) {next : List ρ → Program σ ρ κ}
    (nextIndependent : ∀ rs, (next rs).Independent) :
    (oneAfterAnother members next).Independent := by
  induction members generalizing next with
  | nil => exact nextIndependent []
  | cons head rest ih =>
      exact (independent head (List.mem_cons_self ..)).bind fun r =>
        ih (fun m member => independent m (List.mem_cons_of_mem _ member))
          fun rs => nextIndependent (r :: rs)

/-- The course of programs that run one after another: the courses they have alone, one behind the
other. -/
theorem Independent.driven_bind {p : Program σ ρ κ} (independent : p.Independent)
    {more : ρ → Program σ ρ κ} (moreIndependent : ∀ r, (more r).Independent) {s : σ}
    {replies : List (List Response)} {r : ρ} (ended : (p.driven s replies).ending = some (.ok r))
    (fits : (p.driven s replies).Fits replies) (later : List (List Response)) :
    (p.bind more).driven s (replies ++ later) =
      ⟨(p.driven s replies).batches ++ ((more r).driven s later).batches,
        ((more r).driven s later).ending, ((more r).driven s later).state⟩ := by
  rw [independent.driven_eq] at ended fits
  have joined := follow_onward (independent.live.atRest s) (independent.settle s) more ended fits
    later
  rw [(independent.bind moreIndependent).live.driven_eq, settle_bind independent.live,
    independent.driven_eq, (moreIndependent r).driven_eq]
  generalize settled : p.settle s = turn at joined ⊢
  rcases turn with ⟨p', s'⟩
  have stays : s' = s := by
    rw [← independent.settle_state s, settled]
  subst stays
  rw [(moreIndependent r).settle_state] at joined
  exact joined

theorem served_done (host : κ → Response) (s : σ) (r : ρ) :
    (done r : Program σ ρ κ).Served host s 0 r :=
  ⟨[], rfl, rfl, rfl⟩

theorem Served.bind {host : κ → Response} {s : σ} {p : Program σ ρ κ}
    (independent : p.Independent) {trips : Nat} {r : ρ} (served : p.Served host s trips r)
    {more : ρ → Program σ ρ κ} (moreIndependent : ∀ r, (more r).Independent) {further : Nat} {r' : ρ}
    (goes : (more r).Served host s further r') :
    (p.bind more).Served host s (trips + further) r' := by
  rcases served with ⟨replies, rfl, ended, own⟩
  rcases goes with ⟨later, rfl, goes_ended, goes_own⟩
  have fits : (p.driven s replies).Fits replies := by
    have all := (p.driven s replies).fits_map host
    rwa [← own] at all
  have whole := independent.driven_bind moreIndependent ended fits later
  refine ⟨replies ++ later, List.length_append .., ?_, ?_⟩
  · rw [whole]
    exact goes_ended
  · rw [whole, List.map_append, ← own, ← goes_own]

/-- The round trips of programs that run one after another add up. -/
theorem served_oneAfterAnother {host : κ → Response} {s : σ} {members : List (Program σ ρ κ)}
    (independent : ∀ m ∈ members, m.Independent) {runs : List (Nat × ρ)}
    (served : List.Forall₂ (fun m run => m.Served host s run.1 run.2) members runs)
    (result : List ρ → ρ) :
    (oneAfterAnother members fun rs => done (result rs)).Served host s (runs.map Prod.fst).sum
      (result (runs.map Prod.snd)) := by
  induction served generalizing result with
  | nil => exact served_done host s _
  | @cons head run rest runs first _ ih =>
      have restIndependent : ∀ m ∈ rest, m.Independent := fun m member =>
        independent m (List.mem_cons_of_mem _ member)
      exact first.bind (independent head (List.mem_cons_self ..))
        (fun r => .oneAfterAnother restIndependent fun rs => .done _)
        (ih restIndependent fun rs => result (run.2 :: rs))

end Program

end RuleAnalysis
