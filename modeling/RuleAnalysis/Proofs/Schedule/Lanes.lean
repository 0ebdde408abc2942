import RuleAnalysis.Proofs.Schedule.Succession

namespace RuleAnalysis

/-!
# Lanes

A lane is a member of a group together with its share of the replies to the
group. Members that share nothing that changes stay in their lanes: what the
group sends, receives and comes to is made up of what each lane does alone.
This is kept by an exchange of the whole group, in which every lane has its
own exchange or has come to its end.
-/

variable {σ ρ κ : Type}

/-- A member of a group and its share of the replies to the group. -/
structure Lane (σ ρ κ : Type) where
  program : Program σ ρ κ
  share : List (List Response)

namespace Lane

/-- The course of the member when it is driven alone. -/
def alone (s : σ) (l : Lane σ ρ κ) : Course σ ρ κ := l.program.driven s l.share

/-- The course of a member that is settled already. -/
def followed (s : σ) (l : Lane σ ρ κ) : Course σ ρ κ :=
  l.program.follow s (l.share.map Visit.quiet)

/-- The lane behind the member's next exchange. -/
def next (s : σ) (l : Lane σ ρ κ) : Lane σ ρ κ :=
  ⟨(l.program.answer (l.share.headD []) s).1, l.share.tail⟩

end Lane

/-- How the course of a group is made up of the courses of its members. -/
structure SideBySide (course : Lane σ ρ κ → Course σ ρ κ)
    (pack : Except ProtocolError (List ρ) → ρ) (lanes : List (Lane σ ρ κ))
    (replies : List (List Response)) (together : Course σ ρ κ) : Prop where
  /-- Each reply is made up of the shares, in the order of the members. -/
  shares : ∀ k, replies.getD k [] = lanes.flatMap fun l => l.share.getD k []
  /-- The share of a member answers the batches that it sends alone. -/
  fits : ∀ l ∈ lanes, (course l).Fits l.share
  batches : ∀ k, together.batches.getD k [] = lanes.flatMap fun l => (course l).batches.getD k []
  /-- The group ends when the last of its members does, with the results of all. -/
  ending : together.ending =
    (lanes.mapM fun l => (course l).result?).map fun rs => .ok (pack (.ok rs))

namespace Program

/-- The batches of a course that is not visited any more. -/
theorem AtRest.follow_nil_batches {p : Program σ ρ κ} (rests : p.AtRest) (s : σ) (k : Nat) :
    (p.follow s []).batches.getD k [] = [p.pending].getD k [] := by
  rcases rests.done_or_asks with ⟨r, rfl⟩ | asks
  · cases k <;> simp [pending]
  · rw [follow_nil asks]

/-- The result of a program that is done. -/
def outcome? : Program σ ρ κ → Option ρ
  | done r => some r
  | _ => none

theorem outcome?_eq_some_iff {p : Program σ ρ κ} {r : ρ} : p.outcome? = some r ↔ p = done r := by
  cases p <;> simp [outcome?]

theorem results?_eq_mapM (members : List (Program σ ρ κ)) :
    results? members = members.mapM outcome? := by
  induction members with
  | nil => rfl
  | cons head rest ih =>
      cases head with
      | done r =>
          rw [results?, ih, List.mapM_cons, outcome?, Option.map_eq_bind]
          rfl
      | _ => simp [results?, outcome?]

theorem AtRest.follow_nil_result {p : Program σ ρ κ} (rests : p.AtRest) (s : σ) :
    (p.follow s []).result? = p.outcome? := by
  rcases rests.done_or_asks with ⟨r, rfl⟩ | asks
  · rfl
  · rw [follow_nil asks]
    cases p with
    | done r => exact absurd rfl asks
    | _ => rfl

/-- The group of settled members whose results are packed together. -/
def packed (pack : Except ProtocolError (List ρ) → ρ) (members : List (Program σ ρ κ)) (s : σ) :
    Program σ ρ κ :=
  (regroup (fun results => done (pack results)) members s).1

theorem packed_done {members : List (Program σ ρ κ)} {rs : List ρ}
    (finished : results? members = some rs) (pack : Except ProtocolError (List ρ) → ρ) (s : σ) :
    packed pack members s = done (pack (.ok rs)) := by
  rw [packed, regroup, finished]
  rfl

theorem packed_group {members : List (Program σ ρ κ)} (unfinished : results? members = none)
    (pack : Except ProtocolError (List ρ) → ρ) (s : σ) :
    packed pack members s = group members fun results => done (pack results) := by
  rw [packed, regroup, unfinished]

theorem packed_atRest {members : List (Program σ ρ κ)} (rest : ∀ m ∈ members, m.AtRest)
    (pack : Except ProtocolError (List ρ) → ρ) (s : σ) : (packed pack members s).AtRest := by
  cases known : results? members with
  | some rs =>
      rw [packed_done known]
      exact .done _
  | none =>
      rw [packed_group known]
      exact .group _ rest known

theorem packed_pending (pack : Except ProtocolError (List ρ) → ρ) (members : List (Program σ ρ κ))
    (s : σ) : (packed pack members s).pending = pendingAll members := by
  cases known : results? members with
  | some rs =>
      rw [packed_done known, pendingAll_eq_nil_of_results known]
      rfl
  | none => rw [packed_group known, pending]

theorem regroup_packed (pack : Except ProtocolError (List ρ) → ρ) (members : List (Program σ ρ κ))
    (s : σ) :
    regroup (fun results => done (pack results)) members s = (packed pack members s, s) := by
  cases known : results? members with
  | some rs => rw [packed_done known, regroup, known]; rfl
  | none => rw [packed_group known, regroup, known]

end Program

namespace Lane

open Program

/-- The lane is ready for its next exchange: the reply at the head of its share answers what the
member asks, and nothing is left for a member that is done. -/
def Ready (l : Lane σ ρ κ) : Prop :=
  (l.share.headD []).length = l.program.pending.length ∧
    (l.share ≠ [] → l.program.pending ≠ [])

theorem getD_share (l : Lane σ ρ κ) (k : Nat) :
    l.share.getD k [] = (l.share.headD [] :: l.share.tail).getD k [] := by
  cases l.share <;> cases k <;> rfl

/-- A lane that comes to its end has an answer to whatever it asks. -/
theorem Ready.of_ended {l : Lane σ ρ κ} {s : σ} (rests : l.program.AtRest)
    (fits : (l.followed s).Fits l.share) (ended : (l.followed s).result? ≠ none) : l.Ready := by
  rcases l with ⟨p, share⟩
  rcases rests.done_or_asks with ⟨r, done⟩ | asks
  · simp only at done
    subst done
    have few := fits.length_le
    rw [Lane.followed, follow_done] at few
    have nothing : share = [] := List.length_eq_zero_iff.mp (Nat.le_zero.mp few)
    subst nothing
    exact ⟨rfl, fun impossible => absurd rfl impossible⟩
  · cases share with
    | nil =>
        rw [Lane.followed, List.map_nil, follow_nil asks] at ended
        exact absurd rfl ended
    | cons rs share =>
        rcases fits 0 rs rfl with ⟨qs, first, sized⟩
        rw [Lane.followed, follow_batches_zero asks] at first
        cases first
        exact ⟨sized, fun _ => asks⟩

/-- What a lane comes to is its first exchange and what comes behind it. -/
theorem Ready.followed {l : Lane σ ρ κ} (ready : l.Ready) (rests : l.program.AtRest)
    (independent : l.program.Independent) (s : σ) :
    (∀ k, (l.followed s).batches.getD k [] =
      (l.program.pending :: ((l.next s).followed s).batches).getD k []) ∧
    (l.followed s).result? = ((l.next s).followed s).result? ∧
    (((l.next s).followed s).Fits (l.next s).share ↔ (l.followed s).Fits l.share) := by
  rcases l with ⟨p, share⟩
  rcases ready with ⟨sized, asking⟩
  cases share with
  | nil =>
      have silent : p.pending = [] := List.length_eq_zero_iff.mp sized.symm
      rcases rests.done_or_asks with ⟨r, done⟩ | asks
      · simp only at done
        subst done
        refine ⟨fun k => ?_, rfl, iff_of_true (Course.fits_nil _) (Course.fits_nil _)⟩
        rcases k with _ | _ | k <;> rfl
      · exact absurd silent asks
  | cons rs share =>
      have asks : p.pending ≠ [] := asking (List.cons_ne_nil _ _)
      have goes : (⟨p, rs :: share⟩ : Lane σ ρ κ).followed s =
          (((⟨p, rs :: share⟩ : Lane σ ρ κ).next s).followed s).after p.pending := by
        rw [Lane.followed, List.map_cons, follow_cons asks s (.quiet rs) _ sized]
        simp only [Visit.quiet, id]
        rw [independent.answer_state]
        rfl
      rw [goes]
      refine ⟨fun k => rfl, rfl, fun fits => (Course.fits_after ..).mpr ⟨sized, fits⟩, fun fits => ?_⟩
      exact ((Course.fits_after ..).mp fits).2

/-- The reply that is made up of the heads of the shares. -/
def heads (lanes : List (Lane σ ρ κ)) : List Response := lanes.flatMap fun l => l.share.headD []

theorem heads_length {lanes : List (Lane σ ρ κ)} (ready : ∀ l ∈ lanes, l.Ready) :
    (heads lanes).length = (pendingAll (lanes.map Lane.program)).length := by
  induction lanes with
  | nil => rfl
  | cons l rest ih =>
      rcases List.forall_mem_cons.mp ready with ⟨first, others⟩
      rw [heads, List.flatMap_cons, ← heads, List.map_cons, pendingAll, List.length_append,
        List.length_append, first.1, ih others]

/-- Members that share nothing are answered as each is alone. -/
theorem answerAll_heads {lanes : List (Lane σ ρ κ)} (ready : ∀ l ∈ lanes, l.Ready)
    (independent : ∀ l ∈ lanes, l.program.Independent) (s : σ) :
    answerAll (lanes.map Lane.program) (heads lanes) s =
      ((lanes.map (Lane.next s)).map Lane.program, s) := by
  induction lanes with
  | nil => simp
  | cons l rest ih =>
      rcases List.forall_mem_cons.mp ready with ⟨first, others⟩
      rcases List.forall_mem_cons.mp independent with ⟨lIndependent, othersIndependent⟩
      have answered := ih others othersIndependent
      rw [heads, List.flatMap_cons, ← heads, List.map_cons, answerAll_cons l.program _ first.1,
        lIndependent.answer_state, answered]
      rfl

end Lane

namespace SideBySide

open Program

theorem mapM_congr {α β : Type} {l : List α} {f g : α → Option β} (same : ∀ a ∈ l, f a = g a) :
    l.mapM f = l.mapM g := by
  have maps : l.map f = l.map g := List.map_congr_left same
  calc
    l.mapM f = (l.map f).mapM id := by rw [List.mapM_map]; rfl
    _ = (l.map g).mapM id := by rw [maps]
    _ = l.mapM g := by rw [List.mapM_map]; rfl

variable {pack : Except ProtocolError (List ρ) → ρ} {lanes : List (Lane σ ρ κ)} {s : σ}

/-- Before any reply has come. -/
theorem nil (rest : ∀ l ∈ lanes, l.program.AtRest) (unanswered : ∀ l ∈ lanes, l.share = []) :
    SideBySide (Lane.followed s) pack lanes []
      ((packed pack (lanes.map Lane.program) s).follow s []) := by
  have alone : ∀ l ∈ lanes, l.followed s = l.program.follow s [] := fun l member => by
    rw [Lane.followed, unanswered l member, List.map_nil]
  have results : (lanes.mapM fun l => (l.followed s).result?) =
      results? (lanes.map Lane.program) := by
    rw [results?_eq_mapM, List.mapM_map]
    exact mapM_congr fun l member => by
      rw [alone l member, (rest l member).follow_nil_result]
      rfl
  have groupRests : (packed pack (lanes.map Lane.program) s).AtRest :=
    packed_atRest (by simpa using rest) pack s
  refine ⟨fun k => ?_, fun l member => ?_, fun k => ?_, ?_⟩
  · rw [List.getD_nil, eq_comm, List.flatMap_eq_nil_iff]
    intro l member
    rw [unanswered l member, List.getD_nil]
  · rw [unanswered l member]
    exact Course.fits_nil _
  · have each : (lanes.flatMap fun l => (l.followed s).batches.getD k []) =
        lanes.flatMap fun l => [l.program.pending].getD k [] :=
      List.flatMap_congr fun l member => by
        rw [alone l member, (rest l member).follow_nil_batches]
    rw [each, groupRests.follow_nil_batches, packed_pending, pendingAll_eq_flatMap,
      List.flatMap_map]
    cases k with
    | zero => rfl
    | succ k => simp
  · rw [results]
    cases known : results? (lanes.map Lane.program) with
    | some rs =>
        rw [packed_done known]
        rfl
    | none =>
        rw [packed_group known] at groupRests ⊢
        rcases groupRests.done_or_asks with ⟨r, impossible⟩ | asks
        · cases impossible
        · rw [follow_nil asks]
          rfl

theorem packed_followed (rest : ∀ l ∈ lanes, l.program.AtRest)
    (independent : ∀ l ∈ lanes, l.program.Independent) (ready : ∀ l ∈ lanes, l.Ready)
    (unfinished : results? (lanes.map Lane.program) = none) (replies : List (List Response)) :
    (packed pack (lanes.map Lane.program) s).follow s ((Lane.heads lanes :: replies).map Visit.quiet) =
      ((packed pack ((lanes.map (Lane.next s)).map Lane.program) s).follow s
        (replies.map Visit.quiet)).after (pendingAll (lanes.map Lane.program)) := by
  have groupRests : (packed pack (lanes.map Lane.program) s).AtRest :=
    packed_atRest (by simpa using rest) pack s
  rw [packed_group unfinished] at groupRests ⊢
  rcases groupRests.done_or_asks with ⟨r, impossible⟩ | asks
  · cases impossible
  · rw [List.map_cons, follow_cons asks s (.quiet (Lane.heads lanes)) _ (Lane.heads_length ready)]
    simp only [Visit.quiet, id]
    rw [answer_group, Lane.answerAll_heads ready independent, regroup_packed]
    rfl

/-- Before the other replies comes the one that is made up of the heads of the shares. -/
theorem cons (rest : ∀ l ∈ lanes, l.program.AtRest)
    (independent : ∀ l ∈ lanes, l.program.Independent) (ready : ∀ l ∈ lanes, l.Ready)
    (unfinished : results? (lanes.map Lane.program) = none) {replies : List (List Response)}
    (later : SideBySide (Lane.followed s) pack (lanes.map (Lane.next s)) replies
      ((packed pack ((lanes.map (Lane.next s)).map Lane.program) s).follow s
        (replies.map Visit.quiet))) :
    SideBySide (Lane.followed s) pack lanes (Lane.heads lanes :: replies)
      ((packed pack (lanes.map Lane.program) s).follow s
        ((Lane.heads lanes :: replies).map Visit.quiet)) := by
  have first := fun l member => (ready l member).followed (rest l member) (independent l member) s
  rw [packed_followed rest independent ready unfinished]
  refine ⟨fun k => ?_, fun l member => ?_, fun k => ?_, ?_⟩
  · have each : (lanes.flatMap fun l => l.share.getD k []) =
        lanes.flatMap fun l => (l.share.headD [] :: (l.next s).share).getD k [] :=
      List.flatMap_congr fun l _ => l.getD_share k
    rw [each]
    cases k with
    | zero => rfl
    | succ k => simpa [List.flatMap_map] using later.shares k
  · exact (first l member).2.2.mp (later.fits _ (List.mem_map_of_mem member))
  · have each : (lanes.flatMap fun l => (l.followed s).batches.getD k []) =
        lanes.flatMap fun l =>
          (l.program.pending :: ((l.next s).followed s).batches).getD k [] :=
      List.flatMap_congr fun l member => (first l member).1 k
    rw [each]
    cases k with
    | zero => simp [pendingAll_eq_flatMap, List.flatMap_map]
    | succ k => simpa [List.flatMap_map] using later.batches k
  · have results : (lanes.mapM fun l => (l.followed s).result?) =
        (lanes.map (Lane.next s)).mapM fun l => (l.followed s).result? := by
      rw [List.mapM_map]
      exact mapM_congr fun l member => (first l member).2.1
    rw [results, Course.after_ending]
    exact later.ending

end SideBySide

end RuleAnalysis
