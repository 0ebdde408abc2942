import RuleAnalysis.Proofs.Schedule.Lanes

namespace RuleAnalysis

/-!
# Programs that run side by side

The members of a group that share nothing that changes go their own ways. Each
batch of the group is made up of the batches that the members send when they
are driven alone, each on its own share of the replies; a member that has
finished contributes nothing. So the group takes as many round trips as the
slowest of its members and comes to the results that they come to alone.
-/

variable {σ ρ κ : Type}

namespace SideBySide

open Program

variable {pack : Except ProtocolError (List ρ) → ρ} {s : σ}

/-! ## Dealing replies out -/

/-- A reply to all members is dealt out to them. -/
theorem exists_before {members : List (Program σ ρ κ)} (rest : ∀ m ∈ members, m.AtRest)
    {reply : List Response} (sized : reply.length = (pendingAll members).length)
    (independent : ∀ m ∈ members, m.Independent) {later : List (Lane σ ρ κ)}
    (goOn : later.map Lane.program = (answerAll members reply s).1)
    (fits : ∀ l ∈ later, (l.followed s).Fits l.share) :
    ∃ lanes : List (Lane σ ρ κ), lanes.map Lane.program = members ∧ Lane.heads lanes = reply ∧
      lanes.map (Lane.next s) = later ∧ ∀ l ∈ lanes, l.Ready := by
  induction members generalizing reply later with
  | nil =>
      have nothing : reply = [] := List.length_eq_zero_iff.mp sized
      subst nothing
      rw [answerAll_nil, List.map_eq_nil_iff] at goOn
      subst goOn
      exact ⟨[], rfl, rfl, rfl, fun l member => by cases member⟩
  | cons m members ih =>
      rcases exists_mine sized with ⟨mine, more, rfl, counted, more_sized⟩
      have mIndependent := independent m (List.mem_cons_self ..)
      rw [answerAll_cons m members counted, mIndependent.answer_state] at goOn
      rcases List.map_eq_cons_iff.mp goOn with ⟨l, others, rfl, first, goOn⟩
      rcases List.forall_mem_cons.mp rest with ⟨_, othersRest⟩
      rcases List.forall_mem_cons.mp independent with ⟨_, othersIndependent⟩
      rcases List.forall_mem_cons.mp fits with ⟨_, othersFit⟩
      rcases ih othersRest more_sized othersIndependent goOn othersFit
        with ⟨lanes, rfl, rfl, rfl, ready⟩
      rcases l with ⟨program, share⟩
      simp only at first
      subst first
      rcases (rest m (List.mem_cons_self ..)).done_or_asks with ⟨r, rfl⟩ | asks
      · have nothing : mine = [] := List.length_eq_zero_iff.mp counted
        have spent : share = [] := by
          have extra := (fits _ (List.mem_cons_self ..)).length_le
          rw [answer_done, Lane.followed, follow_done] at extra
          exact List.length_eq_zero_iff.mp (Nat.le_zero.mp extra)
        subst nothing spent
        refine ⟨⟨done r, []⟩ :: lanes, rfl, rfl, rfl, List.forall_mem_cons.mpr ⟨?_, ready⟩⟩
        exact ⟨rfl, fun impossible => absurd rfl impossible⟩
      · refine ⟨⟨m, mine :: share⟩ :: lanes, rfl, rfl, rfl, List.forall_mem_cons.mpr ⟨?_, ready⟩⟩
        exact ⟨counted, fun _ => asks⟩

/-- Replies that fit the group are dealt out to its members. -/
theorem exists_lanes {members : List (Program σ ρ κ)} (rest : ∀ m ∈ members, m.AtRest)
    (independent : ∀ m ∈ members, m.Independent) {replies : List (List Response)}
    (fits : ((packed pack members s).follow s (replies.map Visit.quiet)).Fits replies) :
    ∃ lanes : List (Lane σ ρ κ), lanes.map Lane.program = members ∧
      SideBySide (Lane.followed s) pack lanes replies
        ((packed pack members s).follow s (replies.map Visit.quiet)) := by
  induction replies generalizing members with
  | nil =>
      have same : (members.map fun m => (⟨m, []⟩ : Lane σ ρ κ)).map Lane.program = members := by
        rw [List.map_map]
        exact List.map_id members
      refine ⟨members.map fun m => ⟨m, []⟩, same, ?_⟩
      have first : SideBySide (Lane.followed s) pack (members.map fun m => ⟨m, []⟩) [] _ :=
        nil (by simpa using rest) (by simp)
      rwa [same] at first
  | cons reply replies ih =>
      have groupRests := packed_atRest rest pack s
      rcases groupRests.done_or_asks with ⟨r, ended⟩ | asks
      · rw [ended, follow_done] at fits
        exact absurd fits.length_le (Nat.not_succ_le_zero _)
      · have unfinished : results? members = none := by
          cases known : results? members with
          | none => rfl
          | some rs =>
              rw [packed_done known] at asks
              exact absurd rfl asks
        have sized : reply.length = (pendingAll members).length := by
          rcases fits 0 reply rfl with ⟨qs, first, sized⟩
          rw [follow_batches_zero asks, packed_pending] at first
          cases first
          exact sized
        have goes : (packed pack members s).follow s ((reply :: replies).map Visit.quiet) =
            ((packed pack (answerAll members reply s).1 s).follow s
              (replies.map Visit.quiet)).after (pendingAll members) := by
          rw [packed_group unfinished] at asks ⊢
          rw [List.map_cons, follow_cons asks s (.quiet reply) _ sized]
          simp only [Visit.quiet, id]
          rw [answer_group, regroup_packed,
            Independent.answerAll_state fun m member => (independent m member).answer_state]
          rfl
        rw [goes] at fits
        have laterRest : ∀ m ∈ (answerAll members reply s).1, m.AtRest :=
          forall_answerAll (fun m member => (rest m member).answer (independent m member).live)
            reply s
        have laterIndependent : ∀ m ∈ (answerAll members reply s).1, m.Independent :=
          forall_answerAll (fun m member => (independent m member).answer) reply s
        rcases ih laterRest laterIndependent ((Course.fits_after ..).mp fits).2
          with ⟨later, goOn, beside⟩
        rcases exists_before rest sized independent goOn beside.fits
          with ⟨lanes, rfl, rfl, rfl, ready⟩
        refine ⟨lanes, rfl, ?_⟩
        rw [← goOn] at beside
        exact beside.cons (by simpa using rest) (by simpa using independent) ready unfinished

/-- Members that come to their ends alone bring the group to its end. -/
theorem exists_replies (pack : Except ProtocolError (List ρ) → ρ) (n : Nat)
    (lanes : List (Lane σ ρ κ))
    (few : ∀ l ∈ lanes, l.share.length ≤ n) (rest : ∀ l ∈ lanes, l.program.AtRest)
    (independent : ∀ l ∈ lanes, l.program.Independent)
    (fits : ∀ l ∈ lanes, (l.followed s).Fits l.share)
    (ended : ∀ l ∈ lanes, (l.followed s).result? ≠ none) :
    ∃ replies : List (List Response),
      ((packed pack (lanes.map Lane.program) s).follow s (replies.map Visit.quiet)).Fits replies ∧
      SideBySide (Lane.followed s) pack lanes replies
        ((packed pack (lanes.map Lane.program) s).follow s (replies.map Visit.quiet)) := by
  induction n generalizing lanes with
  | zero =>
      refine ⟨[], Course.fits_nil _, nil rest fun l member => ?_⟩
      exact List.length_eq_zero_iff.mp (Nat.le_zero.mp (few l member))
  | succ n ih =>
      have ready : ∀ l ∈ lanes, l.Ready := fun l member =>
        .of_ended (rest l member) (fits l member) (ended l member)
      cases known : results? (lanes.map Lane.program) with
      | some rs =>
          have silent := pendingAll_eq_nil_of_results known
          rw [pendingAll_eq_flatMap, List.flatMap_map, List.flatMap_eq_nil_iff] at silent
          refine ⟨[], Course.fits_nil _, nil rest fun l member => ?_⟩
          exact Classical.byContradiction fun more => (ready l member).2 more (silent l member)
      | none =>
          have first := fun l member =>
            (ready l member).followed (rest l member) (independent l member) s
          rcases ih (lanes.map (Lane.next s))
            (by
              simp only [List.forall_mem_map, Lane.next, List.length_tail]
              exact fun l member => Nat.sub_le_of_le_add (few l member))
            (by
              simp only [List.forall_mem_map]
              exact fun l member => (rest l member).answer (independent l member).live _ s)
            (by
              simp only [List.forall_mem_map]
              exact fun l member => (independent l member).answer _ s)
            (by
              simp only [List.forall_mem_map]
              exact fun l member => (first l member).2.2.mpr (fits l member))
            (by
              simp only [List.forall_mem_map]
              exact fun l member => (first l member).2.1 ▸ ended l member)
            with ⟨replies, groupFits, beside⟩
          refine ⟨Lane.heads lanes :: replies, ?_, beside.cons rest independent ready known⟩
          rw [packed_followed rest independent ready known, Course.fits_after]
          exact ⟨Lane.heads_length ready, groupFits⟩

end SideBySide

/-! ## Groups that are driven as tasks -/

namespace Program

/-- The group of the members as a program of its own. -/
def together (pack : Except ProtocolError (List ρ) → ρ) (members : List (Program σ ρ κ)) :
    Program σ ρ κ :=
  group members fun results => done (pack results)

section

variable {pack : Except ProtocolError (List ρ) → ρ} {members : List (Program σ ρ κ)} {s : σ}

theorem together_independent (pack : Except ProtocolError (List ρ) → ρ)
    (independent : ∀ m ∈ members, m.Independent) :
    (together pack members).Independent :=
  .group independent fun _ => .done _

theorem settleAll_eq_map (independent : ∀ m ∈ members, m.Independent) :
    (settleAll members s).1 = members.map fun m => (m.settle s).1 := by
  induction members with
  | nil => simp
  | cons head rest ih =>
      rw [settleAll_cons, (independent head (List.mem_cons_self ..)).settle_state,
        ih fun m member => independent m (List.mem_cons_of_mem _ member), List.map_cons]

theorem together_driven (independent : ∀ m ∈ members, m.Independent)
    (replies : List (List Response)) :
    (together pack members).driven s replies =
      (packed pack (members.map fun m => (m.settle s).1) s).follow s (replies.map Visit.quiet) := by
  rw [(together_independent pack independent).driven_eq, together, settle_group,
    settleAll_eq_map independent,
    Independent.settleAll_state fun m member => (independent m member).settle_state,
    regroup_packed]

theorem Independent.driven_batches_ne_nil {p : Program σ ρ κ} (independent : p.Independent)
    (replies : List (List Response)) : ∀ qs ∈ (p.driven s replies).batches, qs ≠ [] := by
  rw [independent.driven_eq]
  exact follow_batches_ne_nil (independent.live.atRest s) (independent.settle s).live s _

theorem Independent.driven_unfailing {p : Program σ ρ κ} (independent : p.Independent)
    {replies : List (List Response)} (fits : (p.driven s replies).Fits replies) (e : ProtocolError) :
    (p.driven s replies).ending ≠ some (.error e) := by
  rw [independent.driven_eq] at fits ⊢
  exact follow_unfailing (independent.live.atRest s) (independent.settle s).live fits e

theorem Independent.driven_ended {p : Program σ ρ κ} (independent : p.Independent)
    {replies : List (List Response)} (ended : (p.driven s replies).ending ≠ none) :
    (p.driven s replies).batches.length ≤ replies.length := by
  rw [independent.driven_eq] at ended ⊢
  simpa using follow_ended (independent.live.atRest s) (independent.settle s).live ended

end

end Program

namespace SideBySide

open Program

variable {pack : Except ProtocolError (List ρ) → ρ} {lanes : List (Lane σ ρ κ)} {s : σ}

/-- A lane of a member whose first steps have not been taken yet. -/
theorem alone_eq {l : Lane σ ρ κ} (independent : l.program.Independent) :
    l.alone s = (⟨(l.program.settle s).1, l.share⟩ : Lane σ ρ κ).followed s :=
  independent.driven_eq s l.share

/-- Every lane of a settled member comes from one of the member as it was. -/
theorem exists_unsettled {members : List (Program σ ρ κ)} {settled : List (Lane σ ρ κ)}
    (same : settled.map Lane.program = members.map fun m => (m.settle s).1) :
    ∃ lanes : List (Lane σ ρ κ), lanes.map Lane.program = members ∧
      (lanes.map fun l => ⟨(l.program.settle s).1, l.share⟩) = settled := by
  induction members generalizing settled with
  | nil =>
      rw [List.map_nil, List.map_eq_nil_iff] at same
      subst same
      exact ⟨[], rfl, rfl⟩
  | cons m members ih =>
      rcases List.map_eq_cons_iff.mp same with ⟨l, others, rfl, first, same⟩
      rcases ih same with ⟨lanes, rfl, rfl⟩
      have before : l = ⟨(m.settle s).1, l.share⟩ := congrArg (Lane.mk · l.share) first
      exact ⟨⟨m, l.share⟩ :: lanes, rfl, by rw [List.map_cons, ← before]⟩

theorem unsettled (independent : ∀ l ∈ lanes, l.program.Independent)
    {replies : List (List Response)} {together : Course σ ρ κ}
    (beside : SideBySide (Lane.followed s) pack
      (lanes.map fun l => ⟨(l.program.settle s).1, l.share⟩) replies together) :
    SideBySide (Lane.alone s) pack lanes replies together := by
  have same := fun l member => alone_eq (s := s) (independent l member)
  refine ⟨fun k => ?_, fun l member => ?_, fun k => ?_, ?_⟩
  · rw [beside.shares, List.flatMap_map]
  · rw [same l member]
    exact beside.fits _ (List.mem_map_of_mem member)
  · rw [beside.batches, List.flatMap_map]
    exact List.flatMap_congr fun l member => by rw [same l member]
  · rw [beside.ending, List.mapM_map]
    exact congrArg _ (mapM_congr fun l member => by rw [same l member]; rfl)

/-- Lists of lists are told apart by what stands in their places, if they are equally long. -/
theorem ext_getD {α : Type} {as bs : List (List α)} (sized : as.length = bs.length)
    (same : ∀ k, as.getD k [] = bs.getD k []) : as = bs := by
  apply List.ext_getElem sized
  intro k inside inside'
  rw [← List.getD_eq_getElem as [] inside, ← List.getD_eq_getElem bs [] inside', same]

theorem getD_map_map {α β : Type} (f : α → β) (as : List (List α)) (k : Nat) :
    (as.map (List.map f)).getD k [] = (as.getD k []).map f := by
  rw [← List.map_nil (f := f), List.getD_map]

theorem lt_foldr_max {k : Nat} {ns : List Nat} : k < ns.foldr max 0 ↔ ∃ n ∈ ns, k < n := by
  induction ns with
  | nil => simp
  | cons n ns ih => rw [List.foldr_cons, lt_max_iff, ih, List.exists_mem_cons_iff]

theorem le_foldr_max {n : Nat} {ns : List Nat} (member : n ∈ ns) : n ≤ ns.foldr max 0 :=
  Nat.le_of_not_lt fun more => Nat.lt_irrefl _ (lt_foldr_max.mpr ⟨n, member, more⟩)

theorem foldr_max_le_sum (ns : List Nat) : ns.foldr max 0 ≤ ns.sum := by
  induction ns with
  | nil => exact Nat.le_refl 0
  | cons n ns ih =>
      rw [List.foldr_cons, List.sum_cons]
      omega

theorem lt_batches_length {c : Course σ ρ κ} (asking : ∀ qs ∈ c.batches, qs ≠ []) (k : Nat) :
    k < c.batches.length ↔ c.batches.getD k [] ≠ [] := by
  by_cases reached : k < c.batches.length
  · rw [List.getD_eq_getElem _ _ reached]
    exact iff_of_true reached (asking _ (List.getElem_mem reached))
  · rw [List.getD_eq_default _ _ (Nat.le_of_not_lt reached)]
    exact iff_of_false reached fun impossible => impossible rfl

/-- The group sends as many batches as the member that sends the most. -/
theorem trips {course : Lane σ ρ κ → Course σ ρ κ} {replies : List (List Response)}
    {together : Course σ ρ κ} (beside : SideBySide course pack lanes replies together)
    (asking : ∀ l ∈ lanes, ∀ qs ∈ (course l).batches, qs ≠ [])
    (groupAsking : ∀ qs ∈ together.batches, qs ≠ []) :
    together.batches.length = (lanes.map fun l => (course l).batches.length).foldr max 0 := by
  apply eq_of_forall_lt_iff
  intro k
  rw [lt_batches_length groupAsking, beside.batches, Ne, List.flatMap_eq_nil_iff, lt_foldr_max]
  simp only [List.mem_map, not_forall]
  constructor
  · rintro ⟨l, member, more⟩
    exact ⟨_, ⟨l, member, rfl⟩, (lt_batches_length (asking l member) k).mpr more⟩
  · rintro ⟨_, ⟨l, member, rfl⟩, reached⟩
    exact ⟨l, member, (lt_batches_length (asking l member) k).mp reached⟩

/-- What fits the group is dealt out to its members, and each of them is served by its share. -/
theorem exists_alone {members : List (Program σ ρ κ)} (independent : ∀ m ∈ members, m.Independent)
    {replies : List (List Response)}
    (fits : ((together pack members).driven s replies).Fits replies) :
    ∃ lanes : List (Lane σ ρ κ), lanes.map Lane.program = members ∧
      SideBySide (Lane.alone s) pack lanes replies ((together pack members).driven s replies) := by
  rw [together_driven independent] at fits ⊢
  rcases exists_lanes
    (by
      simp only [List.forall_mem_map]
      exact fun m member => (independent m member).live.atRest s)
    (by
      simp only [List.forall_mem_map]
      exact fun m member => (independent m member).settle s)
    fits with ⟨settled, same, beside⟩
  rcases exists_unsettled same with ⟨lanes, rfl, rfl⟩
  exact ⟨lanes, rfl, beside.unsettled (by simpa using independent)⟩

/-- Members that a host brings to their results alone. -/
theorem exists_served {host : κ → Response} {members : List (Program σ ρ κ)}
    {runs : List (Nat × ρ)}
    (served : List.Forall₂ (fun m run => m.Served host s run.1 run.2) members runs) :
    ∃ lanes : List (Lane σ ρ κ), lanes.map Lane.program = members ∧
      (∀ l ∈ lanes, l.share = (l.alone s).batches.map (List.map host) ∧
        (l.alone s).result? ≠ none) ∧
      (lanes.map fun l => (l.alone s).batches.length) = runs.map Prod.fst ∧
      (lanes.mapM fun l => (l.alone s).result?) = some (runs.map Prod.snd) := by
  induction served with
  | nil =>
      refine ⟨[], rfl, ?_, rfl, rfl⟩
      intro l member
      cases member
  | @cons m run members runs first _ ih =>
      rcases first with ⟨replies, counted, ended, own⟩
      rcases ih with ⟨lanes, rfl, shares, trips, results⟩
      have result : ((⟨m, replies⟩ : Lane σ ρ κ).alone s).result? = some run.2 := by
        rw [Lane.alone, Course.result?, ended]
        rfl
      refine ⟨⟨m, replies⟩ :: lanes, rfl, List.forall_mem_cons.mpr ⟨⟨own, ?_⟩, shares⟩, ?_, ?_⟩
      · rw [result]
        exact Option.some_ne_none _
      · have sent : (m.driven s replies).batches.length = run.1 := by
          rw [← counted, ← List.length_map (f := List.map host), ← own]
        rw [List.map_cons, List.map_cons, trips, Lane.alone, sent]
      · rw [List.mapM_cons, results, result]
        rfl

end SideBySide

namespace Program

open SideBySide

/-- Members that a host brings to their results one by one are brought to the same results
together, in as many round trips as the slowest of them takes. -/
theorem served_together {host : κ → Response} {s : σ} {members : List (Program σ ρ κ)}
    (independent : ∀ m ∈ members, m.Independent) (pack : Except ProtocolError (List ρ) → ρ)
    {runs : List (Nat × ρ)}
    (served : List.Forall₂ (fun m run => m.Served host s run.1 run.2) members runs) :
    (together pack members).Served host s ((runs.map Prod.fst).foldr max 0)
      (pack (.ok (runs.map Prod.snd))) := by
  rcases exists_served served with ⟨lanes, rfl, shares, trips, results⟩
  simp only [List.forall_mem_map] at independent
  have alone := fun l member => alone_eq (s := s) (independent l member)
  rcases exists_replies pack
    ((lanes.map fun l => l.share.length).foldr max 0)
    (lanes.map fun l => ⟨(l.program.settle s).1, l.share⟩)
    (by
      simp only [List.forall_mem_map]
      exact fun l member => le_foldr_max (List.mem_map_of_mem member))
    (by
      simp only [List.forall_mem_map]
      exact fun l member => (independent l member).live.atRest s)
    (by
      simp only [List.forall_mem_map]
      exact fun l member => (independent l member).settle s)
    (by
      simp only [List.forall_mem_map]
      intro l member
      rw [← alone l member, (shares l member).1]
      exact Course.fits_map _ _)
    (by
      simp only [List.forall_mem_map]
      intro l member
      rw [← alone l member]
      exact (shares l member).2) with ⟨replies, fits, beside⟩
  have settled : (lanes.map fun l => (⟨(l.program.settle s).1, l.share⟩ : Lane σ ρ κ)).map
      Lane.program = (lanes.map Lane.program).map fun m => (m.settle s).1 := by
    rw [List.map_map, List.map_map]
    rfl
  have membersIndependent : ∀ m ∈ lanes.map Lane.program, m.Independent := by
    simpa using independent
  have groupIndependent := together_independent pack membersIndependent
  rw [settled, ← together_driven membersIndependent] at fits beside
  replace beside := beside.unsettled independent
  have ended : ((together pack (lanes.map Lane.program)).driven s replies).ending =
      some (.ok (pack (.ok (runs.map Prod.snd)))) := by
    rw [beside.ending, results]
    rfl
  have counted : replies.length =
      ((together pack (lanes.map Lane.program)).driven s replies).batches.length := by
    refine Nat.le_antisymm fits.length_le (groupIndependent.driven_ended ?_)
    rw [ended]
    exact Option.some_ne_none _
  refine ⟨replies, ?_, ended, ?_⟩
  · rw [counted, beside.trips (fun l member => (independent l member).driven_batches_ne_nil _)
      (groupIndependent.driven_batches_ne_nil _), trips]
  · apply ext_getD (by rw [counted, List.length_map])
    intro k
    rw [beside.shares, getD_map_map, beside.batches, List.map_flatMap]
    exact List.flatMap_congr fun l member => by
      rw [(shares l member).1, getD_map_map]

/-- A group refines its members. On replies that fit, its batches are the batches that its members
send alone, laid end to end; nobody is turned away or stalls; and the group ends with the results of
its members when the last of them does. With a host that answers each request by itself it comes to
what its members come to one after another. -/
theorem together_refines_members (members : List (Program σ ρ κ))
    (independent : ∀ m ∈ members, m.Independent) (pack : Except ProtocolError (List ρ) → ρ)
    (s : σ) :
    (∀ replies, ((together pack members).driven s replies).Fits replies →
      ∃ lanes : List (Lane σ ρ κ), lanes.map Lane.program = members ∧
        SideBySide (Lane.alone s) pack lanes replies ((together pack members).driven s replies) ∧
        (∀ l ∈ lanes, ∀ e, (l.alone s).ending ≠ some (.error e)) ∧
        ((together pack members).driven s replies).batches.length =
          (lanes.map fun l => (l.alone s).batches.length).foldr max 0 ∧
        ((together pack members).driven s replies).batches.length ≤
          (lanes.map fun l => (l.alone s).batches.length).sum) ∧
    (∀ (host : κ → Response) (runs : List (Nat × ρ)),
      List.Forall₂ (fun m run => m.Served host s run.1 run.2) members runs →
      (together pack members).Served host s ((runs.map Prod.fst).foldr max 0)
        (pack (.ok (runs.map Prod.snd))) ∧
      (oneAfterAnother members fun rs => done (pack (.ok rs))).Served host s
        (runs.map Prod.fst).sum (pack (.ok (runs.map Prod.snd)))) := by
  refine ⟨fun replies fits => ?_, fun host runs served => ?_⟩
  · rcases exists_alone independent fits with ⟨lanes, rfl, beside⟩
    simp only [List.forall_mem_map] at independent
    have trips := beside.trips (fun l member => (independent l member).driven_batches_ne_nil _)
      ((together_independent pack (by simpa using independent)).driven_batches_ne_nil _)
    refine ⟨lanes, rfl, beside, fun l member => ?_, trips, ?_⟩
    · exact (independent l member).driven_unfailing (beside.fits l member)
    · rw [trips]
      exact foldr_max_le_sum _
  · exact ⟨served_together independent pack served,
      served_oneAfterAnother independent served fun rs => pack (.ok rs)⟩

/-- A member that asks once, and one with a group of its own that asks once more behind it. -/
theorem together_refines_members_nested :
    let members : List (Program Unit (List Response) Nat) :=
      [.ask 0 fun r => .done [r],
        .group [.ask 1 fun r => .done [r], .ask 2 fun r => .done [r]] fun _ =>
          .ask 3 fun r => .done [r]]
    let pack : Except ProtocolError (List (List Response)) → List Response := fun results =>
      (results.toOption.getD []).flatten
    let host : Nat → Response := fun q => .boolean (q == 3)
    let replies := [[host 0, host 1, host 2], [host 3]]
    (∃ lanes : List (Lane Unit (List Response) Nat), lanes.map Lane.program = members ∧
      SideBySide (Lane.alone ()) pack lanes replies ((together pack members).driven () replies)) ∧
    (together pack members).Served host () 2 [host 0, host 3] ∧
    (oneAfterAnother members fun rs => done (pack (.ok rs))).Served host () 3 [host 0, host 3] := by
  intro members pack host replies
  have independent : ∀ m ∈ members, m.Independent := by
    simp only [members, List.forall_mem_cons]
    refine ⟨.ask fun r => .done _, .group ?_ fun _ => .ask fun r => .done _, ?_⟩
    · simp only [List.forall_mem_cons]
      exact ⟨.ask fun r => .done _, .ask fun r => .done _, fun m impossible => by cases impossible⟩
    · intro m impossible
      cases impossible
  have refines := together_refines_members members independent pack ()
  refine ⟨?_, refines.2 host [(1, [host 0]), (2, [host 3])] (.cons ?_ (.cons ?_ .nil))⟩
  · have own : ((together pack members).driven () replies).batches.map (List.map host) = replies := by
      decide +kernel
    have fits := ((together pack members).driven () replies).fits_map host
    rw [own] at fits
    rcases refines.1 replies fits with ⟨lanes, same, beside, _⟩
    exact ⟨lanes, same, beside⟩
  · exact ⟨[[host 0]], rfl, by decide +kernel, by decide +kernel⟩
  · exact ⟨[[host 1, host 2], [host 3]], rfl, by decide +kernel, by decide +kernel⟩

end Program

end RuleAnalysis
