import Mathlib.Data.List.Forall2
import RuleAnalysis.Proofs.Schedule.Stints

namespace RuleAnalysis

/-!
# Rounds

The members of a group share a state and work on it one after another, in the
order of submission, each on what the one before has left. Each of them has its
stints as a task of its own, and a stint of the group is composed of those of
the members. A member that has ended sits out. The group goes on when the last
of them has ended, and it does not matter to it what they have ended with.
-/

variable {σ ρ κ : Type}

/-- What a task has done so far: its stints, and its result if it has ended. -/
structure Log (σ ρ κ : Type) where
  stints : List (Stint σ κ)
  result : Option ρ

/-- A member of a group and what it has done as a task of its own. -/
structure Seat (σ ρ κ : Type) extends Log σ ρ κ where
  program : Program σ ρ κ
  runs : (TaskOf.ofProgram program).Runs stints result

/-- A stint of a group is composed of those of its members. Some may not have one. -/
inductive Stint.Composed : Stint σ κ → List (Option (Stint σ κ)) → Prop
  | nil (s : σ) : Composed ⟨[], s, [], s⟩ []
  | absent {whole : Stint σ κ} {others : List (Option (Stint σ κ))} :
      Composed whole others → Composed whole (none :: others)
  | present (own : Stint σ κ) {rs : List Response} {qs : List κ} {s : σ}
      {others : List (Option (Stint σ κ))} :
      Composed ⟨rs, own.left, qs, s⟩ others →
      Composed ⟨own.responses ++ rs, own.found, own.sent ++ qs, s⟩ (some own :: others)

/-- The stints of members make up rounds. Nobody drops out of them without a result. -/
structure InRounds (logs : List (Log σ ρ κ)) (rounds : List (Stint σ κ)) : Prop where
  composed : ∀ (k : Nat) (round : Stint σ κ), rounds[k]? = some round →
    round.Composed (logs.map fun log => log.stints[k]?)
  within : ∀ log ∈ logs, log.stints.length ≤ rounds.length
  present : ∀ log ∈ logs, log.result = none → log.stints.length = rounds.length

/-- The rounds of a group, and the stints of a task that runs it from its first stint on. -/
inductive Together (logs : List (Log σ ρ κ)) (more : List ρ → Program σ ρ κ → Prop) :
    (rounds stints : List (Stint σ κ)) → Option ρ → Prop
  /-- Some member has not ended, and the task waits. -/
  | waits {rounds : List (Stint σ κ)} :
      InRounds logs rounds → (∃ log ∈ logs, log.result = none) →
      Together logs more rounds rounds none
  /-- All members have ended by the last of the rounds, and behind it the task goes on in the same
  stint. -/
  | goesOn {rounds : List (Stint σ κ)} {last : Stint σ κ} {rs : List ρ} {p : Program σ ρ κ}
      {sent : List κ} {left : σ} {stints : List (Stint σ κ)} {result : Option ρ} :
      InRounds logs (rounds ++ [last]) → last.sent = [] → logs.map Log.result = rs.map some →
      more rs p → (TaskOf.ofProgram p).Runs (⟨[], last.left, sent, left⟩ :: stints) result →
      Together logs more (rounds ++ [last])
        (rounds ++ ⟨last.responses, last.found, sent, left⟩ :: stints) result

/-! ## What is in the rounds -/

/-- A stint of a member is part of the round in its place. -/
theorem InRounds.exists_round {logs : List (Log σ ρ κ)} {rounds : List (Stint σ κ)}
    (inRounds : InRounds logs rounds) {log : Log σ ρ κ} (member : log ∈ logs) {k : Nat}
    {x : Stint σ κ} (found : log.stints[k]? = some x) :
    ∃ round, rounds[k]? = some round ∧
      round.Composed (logs.map fun log => log.stints[k]?) ∧
      some x ∈ logs.map fun log => log.stints[k]? := by
  rcases List.getElem?_eq_some_iff.mp found with ⟨inside, _⟩
  have reached := Nat.lt_of_lt_of_le inside (inRounds.within log member)
  have round := List.getElem?_eq_getElem reached
  exact ⟨_, round, inRounds.composed k _ round, List.mem_map.mpr ⟨log, member, found⟩⟩

theorem Stint.Composed.sent {whole : Stint σ κ} {heads : List (Option (Stint σ κ))}
    (composed : whole.Composed heads) {x : Stint σ κ} (member : some x ∈ heads) :
    x.sent <:+: whole.sent := by
  induction composed with
  | nil s => cases member
  | absent _ ih => exact ih ((List.mem_cons.mp member).resolve_left nofun)
  | present own _ ih =>
      rcases List.mem_cons.mp member with same | later
      · cases same
        exact (List.prefix_append _ _).isInfix
      · exact (ih later).trans (List.suffix_append _ _).isInfix

/-- Whatever a member asks, the task asks with it, all of it in a row. -/
theorem Together.sent {logs : List (Log σ ρ κ)} {more : List ρ → Program σ ρ κ → Prop}
    {rounds stints : List (Stint σ κ)} {result : Option ρ}
    (together : Together logs more rounds stints result) {log : Log σ ρ κ} (member : log ∈ logs)
    {k : Nat} {x : Stint σ κ} (found : log.stints[k]? = some x) :
    ∃ y, stints[k]? = some y ∧ x.sent <:+: y.sent := by
  cases together with
  | waits inRounds _ =>
      rcases inRounds.exists_round member found with ⟨round, there, composed, listed⟩
      exact ⟨round, there, composed.sent listed⟩
  | @goesOn rounds last rs p sent left stints _ inRounds silent _ _ _ =>
      rcases inRounds.exists_round member found with ⟨round, there, composed, listed⟩
      have asked := composed.sent listed
      rcases Nat.lt_or_ge k rounds.length with ahead | behind
      · rw [List.getElem?_append_left ahead] at there ⊢
        exact ⟨round, there, asked⟩
      · rw [List.getElem?_append_right behind, List.getElem?_singleton] at there
        split at there
        · next here =>
            cases there
            rw [silent, List.infix_nil] at asked
            rw [List.getElem?_append_right behind, here, asked]
            exact ⟨_, rfl, List.nil_infix⟩
        · cases there

theorem Together.imp {logs : List (Log σ ρ κ)} {more more' : List ρ → Program σ ρ κ → Prop}
    {rounds stints : List (Stint σ κ)} {result : Option ρ}
    (implies : ∀ rs p, logs.map Log.result = rs.map some → more rs p → more' rs p)
    (together : Together logs more rounds stints result) :
    Together logs more' rounds stints result := by
  cases together with
  | waits inRounds waiting => exact .waits inRounds waiting
  | goesOn inRounds silent ended isMore runs =>
      exact .goesOn inRounds silent ended (implies _ _ ended isMore) runs

/-! ## One round more -/

/-- Logs with one round ahead of what is in them already. Members that have ended are not in it. -/
inductive Log.Preceded :
    List (Option (Stint σ κ)) → List (Log σ ρ κ) → List (Log σ ρ κ) → Prop
  | nil : Preceded [] [] []
  | absent {r : ρ} {heads : List (Option (Stint σ κ))} {later logs : List (Log σ ρ κ)} :
      Preceded heads later logs →
      Preceded (none :: heads) (⟨[], some r⟩ :: later) (⟨[], some r⟩ :: logs)
  | present (x : Stint σ κ) (log : Log σ ρ κ) {heads : List (Option (Stint σ κ))}
      {later logs : List (Log σ ρ κ)} :
      Preceded heads later logs →
      Preceded (some x :: heads) (log :: later) (⟨x :: log.stints, log.result⟩ :: logs)

namespace Log.Preceded

variable {heads : List (Option (Stint σ κ))} {later logs : List (Log σ ρ κ)}

theorem map_result (preceded : Preceded heads later logs) :
    logs.map Log.result = later.map Log.result := by
  induction preceded with
  | nil => rfl
  | absent _ ih => rw [List.map_cons, List.map_cons, ih]
  | present x log _ ih => rw [List.map_cons, List.map_cons, ih]

theorem map_zero (preceded : Preceded heads later logs) :
    (logs.map fun log => log.stints[0]?) = heads := by
  induction preceded with
  | nil => rfl
  | absent _ ih => rw [List.map_cons, ih]; rfl
  | present x log _ ih => rw [List.map_cons, ih]; rfl

theorem map_succ (preceded : Preceded heads later logs) (k : Nat) :
    (logs.map fun log => log.stints[k + 1]?) = later.map fun log => log.stints[k]? := by
  induction preceded with
  | nil => rfl
  | absent _ ih => rw [List.map_cons, List.map_cons, ih]; rfl
  | present x log _ ih => rw [List.map_cons, List.map_cons, ih]; rfl

/-- A log has its round ahead of what it has later, or nothing at all beside its result. -/
theorem mem (preceded : Preceded heads later logs) {log : Log σ ρ κ} (member : log ∈ logs) :
    (log.stints = [] ∧ log.result ≠ none) ∨
      ∃ x, ∃ rest ∈ later, log = ⟨x :: rest.stints, rest.result⟩ := by
  induction preceded with
  | nil => cases member
  | absent _ ih =>
      rcases List.mem_cons.mp member with rfl | member
      · exact .inl ⟨rfl, Option.some_ne_none _⟩
      · rcases ih member with ended | ⟨x, rest, known, same⟩
        · exact .inl ended
        · exact .inr ⟨x, rest, List.mem_cons_of_mem _ known, same⟩
  | present x log _ ih =>
      rcases List.mem_cons.mp member with rfl | member
      · exact .inr ⟨x, log, List.mem_cons_self, rfl⟩
      · rcases ih member with ended | ⟨x, rest, known, same⟩
        · exact .inl ended
        · exact .inr ⟨x, rest, List.mem_cons_of_mem _ known, same⟩

end Log.Preceded

theorem InRounds.cons {heads : List (Option (Stint σ κ))} {later logs : List (Log σ ρ κ)}
    {round : Stint σ κ} {rounds : List (Stint σ κ)} (composed : round.Composed heads)
    (preceded : Log.Preceded heads later logs) (inRounds : InRounds later rounds) :
    InRounds logs (round :: rounds) := by
  refine ⟨fun k x found => ?_, fun log member => ?_, fun log member waits => ?_⟩
  · cases k with
    | zero =>
        cases found
        rw [preceded.map_zero]
        exact composed
    | succ k =>
        rw [preceded.map_succ]
        exact inRounds.composed k x found
  · rcases preceded.mem member with ⟨nothing, _⟩ | ⟨x, rest, known, rfl⟩
    · rw [nothing]
      exact Nat.zero_le _
    · exact Nat.succ_le_succ (inRounds.within rest known)
  · rcases preceded.mem member with ⟨_, ended⟩ | ⟨x, rest, known, rfl⟩
    · exact absurd waits ended
    · exact congrArg (· + 1) (inRounds.present rest known waits)

theorem Together.cons {heads : List (Option (Stint σ κ))} {later logs : List (Log σ ρ κ)}
    {round : Stint σ κ} (composed : round.Composed heads)
    (preceded : Log.Preceded heads later logs) {more : List ρ → Program σ ρ κ → Prop}
    {rounds stints : List (Stint σ κ)} {result : Option ρ}
    (together : Together later more rounds stints result) :
    Together logs more (round :: rounds) (round :: stints) result := by
  cases together with
  | waits inRounds waiting =>
      refine .waits (inRounds.cons composed preceded) ?_
      have listed : none ∈ later.map Log.result := List.mem_map.mpr waiting
      rw [← preceded.map_result] at listed
      exact List.mem_map.mp listed
  | goesOn inRounds silent ended isMore runs =>
      rw [← preceded.map_result] at ended
      rw [← List.cons_append, ← List.cons_append]
      exact .goesOn (inRounds.cons composed preceded) silent ended isMore runs

/-! ## The rounds of settled members -/

namespace Program

/-- What a settled member does is in its log. -/
def Does (p : Program σ ρ κ) (log : Log σ ρ κ) : Prop := p.Goes log.stints log.result

/-- Members that are not visited do nothing. -/
theorem exists_idle {members : List (Program σ ρ κ)} (rest : ∀ m ∈ members, m.AtRest) :
    ∃ logs : List (Log σ ρ κ), List.Forall₂ Does members logs ∧ (∀ log ∈ logs, log.stints = []) ∧
      (∀ rs, results? members = some rs → logs.map Log.result = rs.map some) ∧
      (results? members = none → ∃ log ∈ logs, log.result = none) := by
  induction members with
  | nil =>
      refine ⟨[], .nil, nofun, fun rs finished => ?_, nofun⟩
      cases finished
      rfl
  | cons head members ih =>
      rcases List.forall_mem_cons.mp rest with ⟨headRests, othersRest⟩
      rcases ih othersRest with ⟨logs, does, idle, finished, unfinished⟩
      rcases headRests.done_or_asks with ⟨r, rfl⟩ | asks
      · refine ⟨⟨[], some r⟩ :: logs, .cons (.ended r) does, List.forall_mem_cons.mpr ⟨rfl, idle⟩,
          fun rs known => ?_, fun known => ?_⟩
        · rcases Option.map_eq_some_iff.mp known with ⟨others, ended, rfl⟩
          rw [List.map_cons, List.map_cons, finished others ended]
        · rcases unfinished (Option.map_eq_none_iff.mp known) with ⟨log, member, waits⟩
          exact ⟨log, List.mem_cons_of_mem _ member, waits⟩
      · have waiting : results? (head :: members) = none := by
          cases head with
          | done r => exact absurd rfl asks
          | _ => rfl
        refine ⟨⟨[], none⟩ :: logs, .cons (.waits asks) does, List.forall_mem_cons.mpr ⟨rfl, idle⟩,
          fun rs known => ?_, fun _ => ⟨_, List.mem_cons_self, rfl⟩⟩
        rw [waiting] at known
        cases known

/-- Before what members do when they have been answered, they have had the stints of one round. -/
theorem exists_before {members : List (Program σ ρ κ)} (rest : ∀ m ∈ members, m.AtRest)
    {rs : List Response} (sized : rs.length = (pendingAll members).length) (s : σ)
    {later : List (Log σ ρ κ)} (goOn : List.Forall₂ Does (answerAll members rs s).1 later) :
    ∃ heads logs,
      Stint.Composed ⟨rs, s, pendingAll (answerAll members rs s).1, (answerAll members rs s).2⟩ heads ∧
        Log.Preceded heads later logs ∧ List.Forall₂ Does members logs := by
  induction members generalizing rs s later with
  | nil =>
      have nothing : rs = [] := List.length_eq_zero_iff.mp sized
      subst nothing
      rw [answerAll_nil] at goOn ⊢
      cases goOn
      exact ⟨[], [], .nil s, .nil, .nil⟩
  | cons head members ih =>
      rcases List.forall_mem_cons.mp rest with ⟨headRests, othersRest⟩
      rcases exists_mine sized with ⟨mine, more, rfl, counted, more_sized⟩
      rw [answerAll_cons head members counted] at goOn ⊢
      rcases List.forall₂_cons_left_iff.mp goOn with ⟨log, others, first, othersGoOn, rfl⟩
      rcases ih othersRest more_sized _ othersGoOn with ⟨heads, logs, composed, preceded, does⟩
      rcases headRests.done_or_asks with ⟨r, rfl⟩ | asks
      · have nothing : mine = [] := List.length_eq_zero_iff.mp counted
        subst nothing
        rw [answer_done] at first composed ⊢
        rcases log with ⟨stints, result⟩
        rcases goes_done_iff.mp first with ⟨rfl, rfl⟩
        exact ⟨none :: heads, _, .absent composed, .absent preceded, .cons (.ended r) does⟩
      · refine ⟨some (head.stint mine s) :: heads, _, .present (head.stint mine s) composed,
          .present _ log preceded, .cons (.stint asks counted first) does⟩

/-- Before what settled members do, they have had their first stints as tasks of their own. -/
theorem exists_opened {members : List (Program σ ρ κ)} (live : ∀ m ∈ members, m.Live) (s : σ)
    {later : List (Log σ ρ κ)} (goOn : List.Forall₂ Does (settleAll members s).1 later) :
    ∃ heads, ∃ seats : List (Seat σ ρ κ),
      Stint.Composed ⟨[], s, pendingAll (settleAll members s).1, (settleAll members s).2⟩ heads ∧
        Log.Preceded heads later (seats.map Seat.toLog) ∧ seats.map Seat.program = members := by
  induction members generalizing s later with
  | nil =>
      rw [settleAll_nil] at goOn ⊢
      cases goOn
      exact ⟨[], [], .nil s, .nil, rfl⟩
  | cons head members ih =>
      rcases List.forall_mem_cons.mp live with ⟨headLive, othersLive⟩
      rw [settleAll_cons] at goOn ⊢
      rcases List.forall₂_cons_left_iff.mp goOn with ⟨log, others, first, othersGoOn, rfl⟩
      rcases ih othersLive _ othersGoOn with ⟨heads, seats, composed, preceded, same⟩
      have runs : (TaskOf.ofProgram head).Runs (head.opening s :: log.stints) log.result :=
        (TaskOf.runs_ofProgram_iff headLive).mpr ⟨rfl, first⟩
      refine ⟨some (head.opening s) :: heads, ⟨⟨_, _⟩, head, runs⟩ :: seats,
        .present (head.opening s) composed, .present _ log preceded, ?_⟩
      rw [List.map_cons, same]

/-! ## The rounds of a group -/

theorem inRounds_idle {logs : List (Log σ ρ κ)} (idle : ∀ log ∈ logs, log.stints = []) :
    InRounds logs [] := by
  have none : ∀ log ∈ logs, log.stints.length = 0 := fun log member =>
    congrArg List.length (idle log member)
  exact ⟨nofun, fun log member => Nat.le_of_eq (none log member), fun log member _ => none log member⟩

/-- Stints of a task that runs a group can be told from what the members do, if they are those
behind a round that has left the members as they are. -/
def RoundsBehind (members : List (Program σ ρ κ))
    (next : Except ProtocolError (List ρ) → Program σ ρ κ) (s : σ) (stints : List (Stint σ κ))
    (result : Option ρ) : Prop :=
  ∃ later : List (Log σ ρ κ), List.Forall₂ Does members later ∧
    ∀ rs found heads logs, Stint.Composed ⟨rs, found, pendingAll members, s⟩ heads →
      Log.Preceded heads later logs →
      ∃ rounds, Together logs (fun rs p => p = next (.ok rs)) rounds
        (⟨rs, found, (regroup next members s).1.pending, (regroup next members s).2⟩ :: stints)
        result

section

variable {members : List (Program σ ρ κ)} {next : Except ProtocolError (List ρ) → Program σ ρ κ}
  {s : σ} {stints : List (Stint σ κ)} {result : Option ρ}

/-- Members that have all ended do nothing more, and the task goes on. -/
theorem roundsBehind_of_results (rest : ∀ m ∈ members, m.AtRest)
    (nextLive : ∀ rs, (next (.ok rs)).Live) {outcomes : List ρ}
    (ended : results? members = some outcomes)
    (goes : (regroup next members s).1.Goes stints result) :
    RoundsBehind members next s stints result := by
  rcases exists_idle rest with ⟨later, does, idle, finished, _⟩
  refine ⟨later, does, fun rs found heads logs composed preceded =>
    ⟨[] ++ [⟨rs, found, pendingAll members, s⟩], ?_⟩⟩
  have silent := pendingAll_eq_nil_of_results ended
  have results : logs.map Log.result = outcomes.map some := by
    rw [preceded.map_result, finished outcomes ended]
  rw [regroup, ended] at goes ⊢
  have onward : (TaskOf.ofProgram (next (.ok outcomes))).Runs
      ((next (.ok outcomes)).opening s :: stints) result :=
    (TaskOf.runs_ofProgram_iff (nextLive outcomes)).mpr ⟨rfl, goes⟩
  exact .goesOn ((inRounds_idle idle).cons composed preceded) silent results rfl onward

/-- What a group does behind a round is made up of what its members do behind their stints. -/
theorem roundsBehind (rest : ∀ m ∈ members, m.AtRest) (live : ∀ m ∈ members, m.Live)
    (nextLive : ∀ rs, (next (.ok rs)).Live)
    (goes : (regroup next members s).1.Goes stints result) :
    RoundsBehind members next s stints result := by
  induction stints generalizing members s with
  | nil =>
      cases known : results? members with
      | some outcomes => exact roundsBehind_of_results rest nextLive known goes
      | none =>
          rcases exists_idle rest with ⟨later, does, idle, _, unfinished⟩
          refine ⟨later, does, fun rs found heads logs composed preceded =>
            ⟨[⟨rs, found, pendingAll members, s⟩], ?_⟩⟩
          have asks := (AtRest.group next rest known).done_or_asks.resolve_left nofun
          rw [regroup, known] at goes ⊢
          cases (goes_nil_iff asks).mp goes
          exact (Together.waits (inRounds_idle idle) (unfinished known)).cons composed preceded
  | cons x stints ih =>
      cases known : results? members with
      | some outcomes => exact roundsBehind_of_results rest nextLive known goes
      | none =>
          have asks := (AtRest.group next rest known).done_or_asks.resolve_left nofun
          rw [regroup, known] at goes
          rcases (goes_cons_iff asks).mp goes with ⟨sized, same, goes⟩
          rw [answer_group] at goes
          have laterRest := forall_answerAll
            (fun m member => (rest m member).answer (live m member)) x.responses x.found
          have laterLive := forall_answerAll (fun m member => (live m member).answer)
            x.responses x.found
          rcases ih laterRest laterLive goes with ⟨later, does, goOn⟩
          rcases exists_before rest sized x.found does with
            ⟨xHeads, xLogs, xComposed, xPreceded, does⟩
          rcases goOn _ _ xHeads xLogs xComposed xPreceded with ⟨rounds, together⟩
          refine ⟨xLogs, does, fun rs found heads logs composed preceded =>
            ⟨⟨rs, found, pendingAll members, s⟩ :: rounds, ?_⟩⟩
          rw [same, stint, answer_group, regroup, known]
          exact together.cons composed preceded

/-- The stints of a task that runs a group are made up of those that its members have as tasks of
their own. -/
theorem exists_seats (live : ∀ m ∈ members, m.Live) (nextLive : ∀ rs, (next (.ok rs)).Live)
    {first : Stint σ κ}
    (runs : (TaskOf.ofProgram (group members next)).Runs (first :: stints) result) :
    ∃ (seats : List (Seat σ ρ κ)) (rounds : List (Stint σ κ)),
      seats.map Seat.program = members ∧
        Together (seats.map Seat.toLog) (fun rs p => p = next (.ok rs)) rounds (first :: stints)
          result := by
  rcases (TaskOf.runs_ofProgram_iff (.group live nextLive)).mp runs with ⟨same, goes⟩
  rw [settle_group] at goes
  have settledRest := forall_settleAll (fun m member => (live m member).atRest) first.found
  have settledLive := forall_settleAll (fun m member => (live m member).settle) first.found
  rcases roundsBehind settledRest settledLive nextLive goes with ⟨later, does, goOn⟩
  rcases exists_opened live first.found does with ⟨heads, seats, composed, preceded, seated⟩
  rcases goOn _ _ heads _ composed preceded with ⟨rounds, together⟩
  refine ⟨seats, rounds, seated, ?_⟩
  rw [same, opening, settle_group]
  exact together

end

end Program

end RuleAnalysis
