import RuleAnalysis.Proofs.Schedule.Books
import RuleAnalysis.Proofs.Schedule.Turns
import RuleAnalysis.Schedule.Task

namespace RuleAnalysis

/-!
# Tasks carry out programs that take turns

An activity that waits stands for a settled program: its tickets, in their
order, are those of the program's requests. In a group that waits, each member
has a channel of its own with all of its requests in flight, is owed as many
responses, and has nothing buffered. This is kept by every exchange, so a task
does what its program does when it is answered by position, and no resumption
inside a group fails.
-/

variable {σ ρ κ : Type}

open Program

/-- A member that has finished, or that waits with all of its requests in flight. -/
inductive MemberOf.StandsFor (stands : Ticket → Activity σ ρ κ → Program σ ρ κ → Prop) :
    Member σ ρ κ → Program σ ρ κ → Prop
  | finished (c : Channel κ) (r : ρ) : StandsFor stands ⟨⟨none, c⟩, some r, [], 0⟩ (.done r)
  | waiting {first : Ticket} {activity : Activity σ ρ κ} {p : Program σ ρ κ} :
      stands first activity p → p.pending ≠ [] →
      StandsFor stands
        ⟨⟨some activity, .awaiting first p.pending.length⟩, none, [], p.pending.length⟩ p

/-- Members from an index on, whose requests have consecutive tickets in the channel around them. -/
inductive GroupOf.StandsFor (stands : Ticket → Activity σ ρ κ → Program σ ρ κ → Prop) :
    Ticket → Nat → List (Member σ ρ κ) → List (Ticket × Nat) → List (Program σ ρ κ) → Prop
  | nil (first : Ticket) (index : Nat) : StandsFor stands first index [] [] []
  | cons {first : Ticket} {index : Nat} {m : Member σ ρ κ} {p : Program σ ρ κ}
      {members : List (Member σ ρ κ)} {associations : List (Ticket × Nat)}
      {ps : List (Program σ ρ κ)} :
      m.StandsFor stands p →
      StandsFor stands (first + p.pending.length) (index + 1) members associations ps →
      StandsFor stands first index (m :: members)
        (GroupOf.block first p.pending.length index ++ associations) (p :: ps)

/-- An activity whose requests have consecutive tickets from the first on. -/
inductive Activity.StandsFor : Ticket → Activity σ ρ κ → Program σ ρ κ → Prop
  | call (first : Ticket) (q : κ) (next : Response → Program σ ρ κ) :
      StandsFor first (.call first next) (.ask q next)
  | group {first : Ticket} {members : List (Member σ ρ κ)} {associations : List (Ticket × Nat)}
      {ps : List (Program σ ρ κ)} (next : Except ProtocolError (List ρ) → Program σ ρ κ) :
      GroupOf.StandsFor StandsFor first 0 members associations ps → results? ps = none →
      StandsFor first (.group ⟨members, associations⟩ next) (.group ps next)

/-- What polling in a channel has come to, and the channel behind it. -/
inductive Progress.StandsFor (c : Channel κ) :
    Progress σ ρ κ → Channel κ → Program σ ρ κ → Prop
  | finished (r : ρ) : StandsFor c (.finished r) c (.done r)
  | waiting {rest : Activity σ ρ κ} {p : Program σ ρ κ} :
      rest.StandsFor c.nextTicket p → p.pending ≠ [] →
      StandsFor c (.waiting rest) (c.submitted p.pending) p

/-! ## What a group has come to -/

namespace GroupOf

variable {stands : Ticket → Activity σ ρ κ → Program σ ρ κ → Prop} {first : Ticket} {index : Nat}
  {members : List (Member σ ρ κ)} {associations : List (Ticket × Nat)}
  {ps : List (Program σ ρ κ)}

theorem StandsFor.outputs (crew : StandsFor stands first index members associations ps) :
    members.mapM MemberOf.output = results? ps := by
  induction crew with
  | nil => rfl
  | @cons _ _ m p _ _ ps head _ ih =>
      cases head with
      | finished c r =>
          rw [List.mapM_cons, ih, results?]
          cases results? ps <;> rfl
      | waiting _ asks =>
          cases p with
          | done r => exact absurd rfl asks
          | _ => rfl

theorem StandsFor.pending_ne_nil (crew : StandsFor stands first index members associations ps)
    (unfinished : results? ps = none) : pendingAll ps ≠ [] := by
  induction crew with
  | nil => cases unfinished
  | cons head _ ih =>
      cases head with
      | finished c r =>
          have rest : results? _ = none := Option.map_eq_none_iff.mp unfinished
          simpa [pendingAll, pending] using ih rest
      | waiting _ asks =>
          intro empty
          exact asks (List.append_eq_nil_iff.mp (by simpa only [pendingAll] using empty)).1

end GroupOf

/-! ## Resuming one member -/

theorem Progress.StandsFor.conclude {first : Ticket} {progress : Progress σ ρ κ} {c : Channel κ}
    {p : Program σ ρ κ} (stands : progress.StandsFor (.idle first) c p) :
    (∃ r, p = .done r ∧ TaskOf.conclude progress c = (.ok (.done r), ⟨none, c⟩)) ∨
      ∃ rest : Activity σ ρ κ, rest.StandsFor first p ∧ p.pending ≠ [] ∧
        TaskOf.conclude progress c =
          (.ok (.pending p.pending), ⟨some rest, .awaiting first p.pending.length⟩) := by
  cases stands with
  | finished r => exact Or.inl ⟨r, rfl, rfl⟩
  | @waiting rest p stands asks =>
      have sent : p.pending.isEmpty = false := by simpa using asks
      refine Or.inr ⟨rest, stands, asks, ?_⟩
      simp only [TaskOf.conclude, Channel.flush_submitted, sent]
      rfl

namespace GroupOf

variable {before after : List (Member σ ρ κ)} {associations : List (Ticket × Nat)}

/-- A member that has been resumed stands for what its program has come to, and its new requests are
submitted behind those that the group has submitted already. -/
theorem step_around (before after : List (Member σ ρ κ)) (associations : List (Ticket × Nat))
    {resume : Resumption σ ρ κ} {responses : List Response} {s s' : σ}
    {first : Ticket} {progress : Progress σ ρ κ} {c' : Channel κ} {p : Program σ ρ κ}
    (resumed : resume responses s =
      ((TaskOf.conclude progress c').1, (TaskOf.conclude progress c').2, s'))
    (stands : progress.StandsFor (.idle first) c' p) (t : Task σ ρ κ) (c : Channel κ) :
    ∃ m : Member σ ρ κ, m.StandsFor Activity.StandsFor p ∧
      (around before ⟨t, none, [], 0⟩ after associations).step before.length resume responses c s =
        (.ok (around before m after
          (associations ++ block c.nextTicket p.pending.length before.length)),
          c.submitted p.pending, s') := by
  rcases stands.conclude with ⟨r, rfl, concluded⟩ | ⟨rest, waits, asks, concluded⟩
  · rw [concluded] at resumed
    refine ⟨⟨⟨none, c'⟩, some r, [], 0⟩, .finished c' r, ?_⟩
    simp [step, resumed, changeMember_around, pending]
  · rw [concluded] at resumed
    refine ⟨_, .waiting waits asks, ?_⟩
    simp only [step, resumed, changeMember_around, submitAll_around, Nat.zero_add]

/-- The responses of one member are collected until nothing is owed to it; then it is resumed with
all of them. -/
theorem route_block (before after : List (Member σ ρ κ)) (associations : List (Ticket × Nat))
    {resumptions : List (Resumption σ ρ κ)} {resume : Resumption σ ρ κ}
    (found : resumptions[before.length]? = some resume) (mine more : List Response)
    (some_mine : mine ≠ []) (rest : List (Ticket × Nat)) (t : Task σ ρ κ)
    (buffered : List Response) (first : Ticket) (c : Channel κ) (s : σ) :
    route resumptions (block first mine.length before.length ++ rest)
        (around before ⟨t, none, buffered, mine.length⟩ after associations)
        (c.holding first (mine ++ more)) s =
      match (around before ⟨t, none, [], 0⟩ after associations).step before.length resume
          (buffered ++ mine) (c.holding (first + mine.length) more) s with
      | (.error e, c, s) => (.error e, c, s)
      | (.ok g, c, s) => route resumptions rest g c s := by
  induction mine generalizing first buffered with
  | nil => exact absurd rfl some_mine
  | cons r mine ih =>
      cases mine with
      | nil =>
          cases stepped : (around before ⟨t, none, [], 0⟩ after associations).step before.length
            resume (buffered ++ [r]) (c.holding (first + 1) more) s with
          | mk outcome left =>
              cases outcome <;>
                simp only [List.length_singleton, block_succ, block_zero, List.cons_append,
                  List.nil_append, route, Channel.take_holding, credit_around_last, found, stepped]
      | cons r' mine =>
          have next := ih (List.cons_ne_nil r' mine) (buffered ++ [r]) (first + 1)
          have counted : first + 1 + (r' :: mine).length = first + (r :: r' :: mine).length := by
            rw [List.length_cons, List.length_cons, Nat.add_assoc, Nat.add_comm 1]; rfl
          rw [counted, List.append_assoc, List.singleton_append] at next
          have owes : (r' :: mine).length + 1 ≠ 1 := by simp
          have credited := credit_around_more before ⟨t, none, buffered, (r' :: mine).length + 1⟩
            after associations r owes
          rw [Nat.add_sub_cancel] at credited
          change route resumptions (block first ((r' :: mine).length + 1) before.length ++ rest)
            (around before ⟨t, none, buffered, (r' :: mine).length + 1⟩ after associations)
            (c.holding first (r :: (r' :: mine ++ more))) s = _
          simp only [block_succ first, List.cons_append, route, Channel.take_holding, credited]
          exact next

end GroupOf

/-! ## Polling -/

/-- Polling has come to what the program has come to, and the state is the same. -/
def Polling.Carries (poll : Progress σ ρ κ × Channel κ × σ) (c : Channel κ)
    (turn : Program σ ρ κ × σ) : Prop :=
  poll.1.StandsFor c poll.2.1 turn.1 ∧ poll.2.2 = turn.2

/-- A group whose members have been run stands for the group of what their programs have come to;
when all have finished it goes on. -/
theorem Polling.Carries.ofGroup {g : Group σ ρ κ} {c : Channel κ} {s : σ}
    {ps : List (Program σ ρ κ)} {next : Except ProtocolError (List ρ) → Program σ ρ κ}
    (crew : GroupOf.StandsFor Activity.StandsFor c.nextTicket 0 g.members g.associations ps)
    (goes : ∀ rs s, Polling.Carries ((next (.ok rs)).start c s) c ((next (.ok rs)).settle s)) :
    Polling.Carries
      (match g.outputs? with
        | some rs => (next (.ok rs)).start (c.submitted (pendingAll ps)) s
        | none => (.waiting (.group g next), c.submitted (pendingAll ps), s))
      c (regroup next ps s) := by
  rw [GroupOf.outputs?, crew.outputs, regroup]
  cases finished : results? ps with
  | some rs =>
      rw [Program.pendingAll_eq_nil_of_results finished, Channel.submitted_nil]
      exact goes rs s
  | none =>
      have asks : (Program.group ps next).pending ≠ [] := crew.pending_ne_nil finished
      exact ⟨.waiting (.group next crew finished) asks, rfl⟩

/-- Starting members adds them to a group, with their requests submitted in order. -/
theorem Program.startAll_standsFor {ps : List (Program σ ρ κ)}
    (starts : ∀ p ∈ ps, ∀ (c : Channel κ) (s : σ), Polling.Carries (p.start c s) c (p.settle s))
    (before : List (Member σ ρ κ)) (associations : List (Ticket × Nat)) (c : Channel κ) (s : σ) :
    ∃ (members : List (Member σ ρ κ)) (submitted : List (Ticket × Nat)),
      startAll ps ⟨before, associations⟩ c s =
        (.ok ⟨before ++ members, associations ++ submitted⟩,
          c.submitted (pendingAll (settleAll ps s).1), (settleAll ps s).2) ∧
      GroupOf.StandsFor Activity.StandsFor c.nextTicket before.length members submitted
        (settleAll ps s).1 := by
  induction ps generalizing before associations c s with
  | nil =>
      refine ⟨[], [], ?_, .nil _ _⟩
      simp [startAll, pendingAll]
  | cons p ps ih =>
      have started := starts p (List.mem_cons_self ..) (.idle 0) s
      have resumed : TaskOf.resumeBy p.start (TaskOf.ofProgram p) [] s =
          ((TaskOf.conclude (p.start (.idle 0) s).1 (p.start (.idle 0) s).2.1).1,
            (TaskOf.conclude (p.start (.idle 0) s).1 (p.start (.idle 0) s).2.1).2,
            (p.settle s).2) := by
        rw [← started.2]
        rfl
      rcases GroupOf.step_around before [] associations resumed started.1 (TaskOf.ofProgram p) c
        with ⟨m, stands, stepped⟩
      rcases ih (fun p member => starts p (List.mem_cons_of_mem _ member)) (before ++ [m])
          (associations ++ GroupOf.block c.nextTicket (p.settle s).1.pending.length before.length)
          (c.submitted (p.settle s).1.pending) (p.settle s).2 with ⟨members, submitted, rest, crew⟩
      refine ⟨m :: members,
        GroupOf.block c.nextTicket (p.settle s).1.pending.length before.length ++ submitted, ?_, ?_⟩
      · rw [startAll]
        change (match (GroupOf.around before ⟨TaskOf.ofProgram p, none, [], 0⟩ [] associations).step
          before.length (TaskOf.resumeBy p.start (TaskOf.ofProgram p)) [] c s with
          | (Except.error e, c, s) => (Except.error e, c, s)
          | (Except.ok g, c, s) => startAll ps g c s) = _
        rw [stepped]
        simp only [settleAll_cons, pendingAll, Channel.submitted_append, List.append_assoc,
          List.singleton_append] at rest ⊢
        exact rest
      · rw [settleAll_cons]
        refine .cons stands ?_
        simpa only [Channel.submitted_nextTicket, List.length_append, List.length_singleton]
          using crew

/-- Started in any channel, a program submits what it asks for when it is settled. -/
theorem Program.Live.start {p : Program σ ρ κ} (live : p.Live) (c : Channel κ) (s : σ) :
    Polling.Carries (p.start c s) c (p.settle s) := by
  induction live generalizing c s with
  | done r => exact ⟨.finished r, rfl⟩
  | @ask q next _ _ =>
      have asked : c.submit q = (c.nextTicket, c.submitted [q]) := by
        simp [Channel.submit, Channel.submitted]
      rw [Program.start, asked, Program.settle]
      exact ⟨.waiting (.call c.nextTicket q next) (List.cons_ne_nil q []), rfl⟩
  | read _ ih => exact ih s c s
  | write _ ih => exact ih c _
  | @group members next _ _ memberIH nextIH =>
      rcases startAll_standsFor memberIH [] [] c s with ⟨started, submitted, ran, crew⟩
      rw [Program.start, settle_group]
      change Polling.Carries (match startAll members ⟨[], []⟩ c s with
        | (Except.error e, c, s) => (next (.error e)).start c s
        | (Except.ok g, c, s) =>
            match g.outputs? with
            | some rs => (next (.ok rs)).start c s
            | none => (.waiting (.group g next), c, s)) c _
      rw [ran]
      exact .ofGroup crew fun rs s => nextIH rs c s

/-- Polled with responses to all of its requests, an activity that stands for the program does what
the program does when it is answered. -/
def Program.Polls (p : Program σ ρ κ) : Prop :=
  ∀ (first : Ticket) (activity : Activity σ ρ κ) (rs : List Response) (c : Channel κ) (s : σ),
    activity.StandsFor first p → rs.length = p.pending.length → c.ready = [] →
      Polling.Carries (activity.poll (c.holding first rs) s) c (p.answer rs s)

theorem TaskOf.resumeBy_awaiting (poll : Polling σ ρ κ) (activity : Activity σ ρ κ)
    (first : Ticket) {count : Nat} {rs : List Response} (sized : rs.length = count) (s : σ) :
    resumeBy poll ⟨some activity, .awaiting first count⟩ rs s =
      let polled := poll ((Channel.idle (first + count)).holding first rs) s
      ((conclude polled.1 polled.2.1).1, (conclude polled.1 polled.2.1).2, polled.2.2) := by
  rw [resumeBy, Channel.deliver_awaiting sized]

/-- The member at the head of those that are still to go on takes its responses, and the ones behind
it find theirs. -/
theorem MemberOf.StandsFor.route {m : Member σ ρ κ} {p : Program σ ρ κ}
    (stands : m.StandsFor Activity.StandsFor p) (polls : p.Polls)
    {resumptions : List (Resumption σ ρ κ)} (before after : List (Member σ ρ κ))
    (found : resumptions[before.length]? = some (Activity.resumption m)) {mine : List Response}
    (sized : mine.length = p.pending.length) (more : List Response) (first : Nat)
    (rest submitted : List (Ticket × Nat)) (c : Channel κ) (s : σ) :
    ∃ ran : Member σ ρ κ, ran.StandsFor Activity.StandsFor (p.answer mine s).1 ∧
      GroupOf.route resumptions (GroupOf.block first p.pending.length before.length ++ rest)
          (GroupOf.around before m after submitted) (c.holding first (mine ++ more)) s =
        GroupOf.route resumptions rest
          (GroupOf.around before ran after
            (submitted ++
              GroupOf.block c.nextTicket (p.answer mine s).1.pending.length before.length))
          ((c.submitted (p.answer mine s).1.pending).holding (first + p.pending.length) more)
          (p.answer mine s).2 := by
  cases stands with
  | finished settled r =>
      have nothing : mine = [] := List.length_eq_zero_iff.mp sized
      subst nothing
      refine ⟨_, .finished settled r, ?_⟩
      simp [pending, Program.answer]
  | @waiting start activity _ stands asks =>
      have polled := polls start activity mine (.idle (start + p.pending.length)) s stands sized rfl
      have resumed := TaskOf.resumeBy_awaiting activity.poll activity start sized s
      dsimp only at resumed
      rw [polled.2] at resumed
      obtain ⟨ran, goes, stepped⟩ := GroupOf.step_around before after submitted resumed polled.1
        ⟨some activity, .awaiting start p.pending.length⟩ (c.holding (first + p.pending.length) more)
      refine ⟨ran, goes, ?_⟩
      have some_mine : mine ≠ [] := by
        intro empty
        rw [empty, List.length_nil] at sized
        exact asks (List.length_eq_zero_iff.mp sized.symm)
      have routed := GroupOf.route_block before after submitted found mine more some_mine
        rest ⟨some activity, .awaiting start p.pending.length⟩ [] first c s
      rw [sized] at routed
      rw [List.nil_append] at routed
      simp only [Activity.resumption] at routed
      rw [stepped] at routed
      exact routed

namespace GroupOf

/-- Every response that comes for a group is handed on to the member that has asked, and the members
go on in the order of submission. -/
theorem StandsFor.route {first : Ticket} {index : Nat} {members : List (Member σ ρ κ)}
    {associations : List (Ticket × Nat)} {ps : List (Program σ ρ κ)}
    (crew : StandsFor Activity.StandsFor first index members associations ps)
    (polls : ∀ p ∈ ps, p.Polls)
    (before : List (Member σ ρ κ)) (standing : before.length = index)
    (earlier : List (Resumption σ ρ κ)) (known : earlier.length = index) {rs : List Response}
    (sized : rs.length = (pendingAll ps).length) (submitted : List (Ticket × Nat)) {c : Channel κ}
    (quiet : c.ready = []) (s : σ) :
    ∃ (ran : List (Member σ ρ κ)) (asked : List (Ticket × Nat)),
      GroupOf.route (earlier ++ Activity.resumptions members) associations
          ⟨before ++ members, submitted⟩ (c.holding first rs) s =
        (.ok ⟨before ++ ran, submitted ++ asked⟩,
          c.submitted (pendingAll (answerAll ps rs s).1), (answerAll ps rs s).2) ∧
      StandsFor Activity.StandsFor c.nextTicket index ran asked (answerAll ps rs s).1 := by
  induction crew generalizing before earlier rs submitted c s with
  | nil first index =>
      have none_left : rs = [] := List.length_eq_zero_iff.mp sized
      subst none_left
      refine ⟨[], [], ?_, .nil _ _⟩
      simp [GroupOf.route, pendingAll, Channel.holding_nil first quiet]
  | @cons first index m p members associations ps head _ ih =>
      rcases exists_mine sized with ⟨mine, more, rfl, counted, rest_sized⟩
      subst standing
      have found : (earlier ++ Activity.resumptions (m :: members))[before.length]? =
          some (Activity.resumption m) := by
        rw [← known, Activity.resumptions]
        simp
      rcases head.route (polls p (List.mem_cons_self ..)) before members found
        counted more first associations submitted c s with ⟨ran, goes, routed⟩
      rcases ih (fun p member => polls p (List.mem_cons_of_mem _ member))
          (before ++ [ran]) (by simp) (earlier ++ [Activity.resumption m]) (by simp [known])
          rest_sized
          (submitted ++
            GroupOf.block c.nextTicket (p.answer mine s).1.pending.length before.length)
          (c := c.submitted (p.answer mine s).1.pending) quiet (p.answer mine s).2
        with ⟨others, asked, rest, crew⟩
      refine ⟨ran :: others,
        GroupOf.block c.nextTicket (p.answer mine s).1.pending.length before.length ++ asked,
        ?_, ?_⟩
      · rw [answerAll_cons p ps counted]
        change GroupOf.route _ _ (around before m members submitted) _ s = _
        rw [routed]
        simp only [pendingAll, Channel.submitted_append, List.append_assoc, List.singleton_append]
          at rest ⊢
        exact rest
      · rw [answerAll_cons p ps counted]
        exact .cons goes crew

end GroupOf

theorem Program.Live.polls {p : Program σ ρ κ} (live : p.Live) : p.Polls := by
  induction live with
  | done r => intro first activity rs c s stands; cases stands
  | @ask q next nextLive _ =>
      intro first activity rs c s stands sized quiet
      cases stands
      rcases List.length_eq_one_iff.mp sized with ⟨r, rfl⟩
      simp only [Activity.poll, Channel.take_holding, Channel.holding_nil _ quiet, Program.answer]
      exact (nextLive r).start c s
  | read _ _ => intro first activity rs c s stands; cases stands
  | write _ _ => intro first activity rs c s stands; cases stands
  | @group members next _ nextLive memberIH _ =>
      intro first activity rs c s stands sized quiet
      cases stands with
      | @group _ waiting associations _ _ crew unfinished =>
          rcases crew.route memberIH [] rfl [] rfl sized [] quiet s with ⟨ran, asked, routed, crew⟩
          simp only [List.nil_append] at routed
          simp only [Activity.poll, answer_group, routed]
          exact .ofGroup crew fun rs s => (nextLive rs).start c s

/-! ## Whole exchanges -/

/-- A task that waits for the answers to the requests of a settled program. -/
inductive TaskOf.StandsFor : Task σ ρ κ → Program σ ρ κ → Prop
  | waiting {first : Ticket} {activity : Activity σ ρ κ} {p : Program σ ρ κ} :
      activity.StandsFor first p → p.pending ≠ [] →
      StandsFor ⟨some activity, .awaiting first p.pending.length⟩ p

/-- What a resumption has come to is what the program has come to: it has finished, and so has the
task, or its requests are sent and the task waits for their answers. -/
inductive Resumption.Carries :
    Except ProtocolError (Step ρ κ) × Task σ ρ κ × σ → Program σ ρ κ × σ → Prop
  | done (r : ρ) (c : Channel κ) (s : σ) : Carries (.ok (.done r), ⟨none, c⟩, s) (.done r, s)
  | pending {t : Task σ ρ κ} {p : Program σ ρ κ} (s : σ) :
      t.StandsFor p → Carries (.ok (.pending p.pending), t, s) (p, s)

theorem Polling.Carries.conclude {first : Ticket} {polled : Progress σ ρ κ × Channel κ × σ}
    {turn : Program σ ρ κ × σ} (carries : Polling.Carries polled (.idle first) turn) :
    Resumption.Carries
      ((TaskOf.conclude polled.1 polled.2.1).1, (TaskOf.conclude polled.1 polled.2.1).2, polled.2.2)
      turn := by
  rcases polled with ⟨progress, c, s⟩
  rcases turn with ⟨p, s'⟩
  rcases carries with ⟨stands, same⟩
  simp only at stands same ⊢
  subst same
  rcases stands.conclude with ⟨r, rfl, concluded⟩ | ⟨rest, waits, asks, concluded⟩
  · rw [concluded]
    exact .done r c s
  · rw [concluded]
    exact .pending s (.waiting waits asks)

namespace TaskOf

theorem resume_ofProgram {p : Program σ ρ κ} (live : p.Live) (s : σ) :
    Resumption.Carries ((ofProgram p).resume [] s) (p.settle s) :=
  (live.start (.idle 0) s).conclude

/-- Resumed with an answer to each of its requests, a task does what its program does when it is
answered. -/
theorem StandsFor.resume {t : Task σ ρ κ} {p : Program σ ρ κ} (stands : t.StandsFor p)
    (live : p.Live) {rs : List Response} (sized : rs.length = p.pending.length) (s : σ) :
    Resumption.Carries (t.resume rs s) (p.answer rs s) := by
  cases stands with
  | @waiting first activity _ stands asks =>
      simp only [TaskOf.resume, resumeBy_awaiting _ _ _ sized]
      exact (live.polls first activity rs _ s stands sized rfl).conclude

/-- A batch of the wrong size is turned away and leaves the task as it was. -/
theorem StandsFor.resume_missized {t : Task σ ρ κ} {p : Program σ ρ κ} (stands : t.StandsFor p)
    {rs : List Response} (missized : rs.length ≠ p.pending.length) (s : σ) :
    t.resume rs s = (.error (.responseCount p.pending.length rs.length), t, s) := by
  cases stands
  simp [TaskOf.resume, resumeBy, Channel.deliver, Channel.awaiting, missized]

end TaskOf

end RuleAnalysis
