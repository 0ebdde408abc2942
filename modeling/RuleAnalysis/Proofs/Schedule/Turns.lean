import RuleAnalysis.Schedule.Program

namespace RuleAnalysis

/-!
# Programs that take turns

What a program does can be said without tickets and channels. Settling a
program runs it as far as it goes without an answer. What is left is finished,
asks something, or is a group with members that ask something. A settled group
is answered member by member in the order of submission, each member with the
responses at the positions of its own requests, and goes on when all of its
members have finished.
-/

namespace Program

variable {σ ρ κ : Type}

/-- The results of members that are all finished. -/
def results? : List (Program σ ρ κ) → Option (List ρ)
  | [] => some []
  | done r :: rest => (results? rest).map (r :: ·)
  | _ :: _ => none

mutual

/-- Runs a program as far as it goes without an answer. -/
def settle : Program σ ρ κ → σ → Program σ ρ κ × σ
  | done r, s => (done r, s)
  | stall, s => (stall, s)
  | ask q next, s => (ask q next, s)
  | read next, s => (next s).settle s
  | write s next, _ => next.settle s
  | group members next, s =>
      let (members, s) := settleAll members s
      match results? members with
      | some rs => (next (.ok rs)).settle s
      | none => (group members next, s)

def settleAll : List (Program σ ρ κ) → σ → List (Program σ ρ κ) × σ
  | [], s => ([], s)
  | member :: rest, s =>
      let (member, s) := member.settle s
      let (rest, s) := settleAll rest s
      (member :: rest, s)

end

mutual

/-- The requests of a settled program, in the order of its members. -/
def pending : Program σ ρ κ → List κ
  | ask q _ => [q]
  | group members _ => pendingAll members
  | _ => []

def pendingAll : List (Program σ ρ κ) → List κ
  | [] => []
  | member :: rest => member.pending ++ pendingAll rest

end

/-- Goes on with a group whose members have been run again. -/
def regroup (next : Except ProtocolError (List ρ) → Program σ ρ κ)
    (members : List (Program σ ρ κ)) (s : σ) : Program σ ρ κ × σ :=
  match results? members with
  | some rs => (next (.ok rs)).settle s
  | none => (group members next, s)

mutual

/-- Answers the requests of a settled program and settles what follows. -/
def answer : Program σ ρ κ → List Response → σ → Program σ ρ κ × σ
  | ask _ next, r :: _, s => (next r).settle s
  | group members next, rs, s =>
      let (members, s) := answerAll members rs s
      regroup next members s
  | p, _, s => (p, s)

def answerAll : List (Program σ ρ κ) → List Response → σ → List (Program σ ρ κ) × σ
  | [], _, s => ([], s)
  | member :: rest, rs, s =>
      let count := member.pending.length
      let (member, s) := member.answer (rs.take count) s
      let (rest, s) := answerAll rest (rs.drop count) s
      (member :: rest, s)

end

/-- The program suspends only to ask something or to run a group. Nothing is said of how it goes on
from the failure of a group. -/
inductive Live : Program σ ρ κ → Prop
  | done (r : ρ) : Live (done r)
  | ask {q : κ} {next : Response → Program σ ρ κ} : (∀ r, Live (next r)) → Live (ask q next)
  | read {next : σ → Program σ ρ κ} : (∀ s, Live (next s)) → Live (read next)
  | write {s : σ} {p : Program σ ρ κ} : Live p → Live (write s p)
  | group {members : List (Program σ ρ κ)} {next : Except ProtocolError (List ρ) → Program σ ρ κ} :
      (∀ m ∈ members, Live m) → (∀ rs, Live (next (.ok rs))) → Live (group members next)

@[simp] theorem answer_done (r : ρ) (rs : List Response) (s : σ) :
    (done r : Program σ ρ κ).answer rs s = (done r, s) := by
  rw [answer] <;> simp

@[simp] theorem settleAll_nil (s : σ) : settleAll ([] : List (Program σ ρ κ)) s = ([], s) := by
  rw [settleAll]

@[simp] theorem settleAll_cons (member : Program σ ρ κ) (rest : List (Program σ ρ κ)) (s : σ) :
    settleAll (member :: rest) s =
      ((member.settle s).1 :: (settleAll rest (member.settle s).2).1,
        (settleAll rest (member.settle s).2).2) := by
  rw [settleAll]

@[simp] theorem answerAll_nil (rs : List Response) (s : σ) :
    answerAll ([] : List (Program σ ρ κ)) rs s = ([], s) := by
  rw [answerAll]

theorem answerAll_cons (member : Program σ ρ κ) (rest : List (Program σ ρ κ))
    {mine : List Response} (sized : mine.length = member.pending.length) (more : List Response)
    (s : σ) :
    answerAll (member :: rest) (mine ++ more) s =
      ((member.answer mine s).1 :: (answerAll rest more (member.answer mine s).2).1,
        (answerAll rest more (member.answer mine s).2).2) := by
  rw [answerAll, ← sized, List.take_left, List.drop_left]

/-- The responses to several members begin with those to the first. -/
theorem exists_mine {member : Program σ ρ κ} {rest : List (Program σ ρ κ)} {rs : List Response}
    (sized : rs.length = (pendingAll (member :: rest)).length) :
    ∃ mine more, rs = mine ++ more ∧ mine.length = member.pending.length ∧
      more.length = (pendingAll rest).length := by
  rw [pendingAll, List.length_append] at sized
  refine ⟨rs.take member.pending.length, rs.drop member.pending.length, ?_, ?_, ?_⟩
  · rw [List.take_append_drop]
  · rw [List.length_take]
    omega
  · rw [List.length_drop]
    omega

theorem settle_group (members : List (Program σ ρ κ))
    (next : Except ProtocolError (List ρ) → Program σ ρ κ) (s : σ) :
    (group members next).settle s =
      regroup next (settleAll members s).1 (settleAll members s).2 := by
  rw [settle, regroup]

theorem answer_group (members : List (Program σ ρ κ))
    (next : Except ProtocolError (List ρ) → Program σ ρ κ) (rs : List Response) (s : σ) :
    (group members next).answer rs s =
      regroup next (answerAll members rs s).1 (answerAll members rs s).2 := by
  rw [answer]

theorem pendingAll_eq_flatMap (members : List (Program σ ρ κ)) :
    pendingAll members = members.flatMap pending := by
  induction members with
  | nil => rfl
  | cons head rest ih => rw [pendingAll, ih, List.flatMap_cons]

theorem pendingAll_eq_nil_of_results {ps : List (Program σ ρ κ)} {rs : List ρ}
    (finished : results? ps = some rs) : pendingAll ps = [] := by
  induction ps generalizing rs with
  | nil => rfl
  | cons p ps ih =>
      cases p with
      | done r =>
          rcases Option.map_eq_some_iff.mp finished with ⟨rest, found, _⟩
          simpa [pendingAll, pending] using ih found
      | _ => cases finished

/-! ## What turns keep -/

/-- What each member comes to when it is settled holds of all members when they are. -/
theorem forall_settleAll {holds : Program σ ρ κ → Prop} {members : List (Program σ ρ κ)}
    (each : ∀ m ∈ members, ∀ s, holds (m.settle s).1) (s : σ) :
    ∀ m ∈ (settleAll members s).1, holds m := by
  induction members generalizing s with
  | nil => intro m member; cases member
  | cons head rest ih =>
      intro m member
      rw [settleAll_cons] at member
      rcases List.mem_cons.mp member with rfl | later
      · exact each head (List.mem_cons_self ..) s
      · exact ih (fun m member => each m (List.mem_cons_of_mem _ member)) _ m later

theorem forall_answerAll {holds : Program σ ρ κ → Prop} {members : List (Program σ ρ κ)}
    (each : ∀ m ∈ members, ∀ rs s, holds (m.answer rs s).1) (rs : List Response) (s : σ) :
    ∀ m ∈ (answerAll members rs s).1, holds m := by
  induction members generalizing rs s with
  | nil => intro m member; cases member
  | cons head rest ih =>
      intro m member
      rcases List.mem_cons.mp member with rfl | later
      · exact each head (List.mem_cons_self ..) _ s
      · exact ih (fun m member => each m (List.mem_cons_of_mem _ member)) _ _ m later

theorem Live.settle {p : Program σ ρ κ} (live : p.Live) (s : σ) : (p.settle s).1.Live := by
  induction live generalizing s with
  | done r => exact .done r
  | ask next _ => exact .ask next
  | read _ ih => exact ih s s
  | write _ ih => exact ih _
  | @group members next _ nextLive memberIH nextIH =>
      rw [settle_group, regroup]
      split
      · exact nextIH _ _
      · exact .group (forall_settleAll memberIH s) nextLive

theorem Live.answer {p : Program σ ρ κ} (live : p.Live) (rs : List Response) (s : σ) :
    (p.answer rs s).1.Live := by
  induction live generalizing rs s with
  | done r => exact .done r
  | @ask q next nextLive _ =>
      cases rs with
      | nil => exact .ask nextLive
      | cons r _ => exact (nextLive r).settle s
  | read nextLive _ => exact .read nextLive
  | write live _ => exact .write live
  | @group members next _ nextLive memberIH _ =>
      rw [answer_group, regroup]
      split
      · exact (nextLive _).settle _
      · exact .group (forall_answerAll memberIH rs s) nextLive

theorem Live.bind {p : Program σ ρ κ} (live : p.Live) {more : ρ → Program σ ρ κ}
    (moreLive : ∀ r, (more r).Live) : (p.bind more).Live := by
  induction live with
  | done r => exact moreLive r
  | ask _ ih => exact .ask ih
  | read _ ih => exact .read ih
  | write _ ih => exact .write ih
  | group membersLive _ _ nextIH => exact .group membersLive nextIH

theorem Live.modify {p : Program σ ρ κ} (live : p.Live) (change : σ → σ) :
    (modify change p).Live :=
  .read fun _ => .write live

/-- A procedure never stalls. -/
theorem Live.perform {α : Type} {next : α → Program σ ρ κ} (live : ∀ a, (next a).Live)
    (procedure : Procedure σ α κ) : (perform procedure next).Live := by
  induction procedure with
  | done a => exact live a
  | ask q more ih => exact .ask ih
  | read more ih => exact .read ih
  | write s more ih => exact .write ih

/-- Nothing is left to do without an answer, here and in the members of groups. -/
inductive AtRest : Program σ ρ κ → Prop
  | done (r : ρ) : AtRest (done r)
  | ask (q : κ) (next : Response → Program σ ρ κ) : AtRest (ask q next)
  | group {members : List (Program σ ρ κ)} (next : Except ProtocolError (List ρ) → Program σ ρ κ) :
      (∀ m ∈ members, AtRest m) → results? members = none → AtRest (group members next)

theorem AtRest.done_or_asks {p : Program σ ρ κ} (rests : p.AtRest) :
    (∃ r, p = Program.done r) ∨ p.pending ≠ [] := by
  induction rests with
  | done r => exact Or.inl ⟨r, rfl⟩
  | ask q next => exact Or.inr (List.cons_ne_nil q [])
  | @group members next membersRest unfinished memberIH =>
      refine Or.inr ?_
      clear membersRest
      rw [pending]
      induction members with
      | nil => cases unfinished
      | cons head rest ih =>
          rw [pendingAll]
          rcases memberIH head (List.mem_cons_self ..) with ⟨r, rfl⟩ | asks
          · exact List.append_ne_nil_of_right_ne_nil _
              (ih (Option.map_eq_none_iff.mp unfinished) fun m member =>
                memberIH m (List.mem_cons_of_mem _ member))
          · exact List.append_ne_nil_of_left_ne_nil asks _

theorem Live.atRest {p : Program σ ρ κ} (live : p.Live) (s : σ) : (p.settle s).1.AtRest := by
  induction live generalizing s with
  | done r => exact .done r
  | ask _ _ => exact .ask _ _
  | read _ ih => exact ih s s
  | write _ ih => exact ih _
  | @group members next _ _ memberIH nextIH =>
      rw [settle_group, regroup]
      split
      · exact nextIH _ _
      · exact .group next (forall_settleAll memberIH s) (by assumption)

theorem AtRest.answer {p : Program σ ρ κ} (rests : p.AtRest) (live : p.Live) (rs : List Response)
    (s : σ) : (p.answer rs s).1.AtRest := by
  induction live generalizing rs s with
  | done r => exact .done r
  | @ask q next nextLive _ =>
      cases rs with
      | nil => exact .ask q next
      | cons r _ => exact (nextLive r).atRest s
  | read _ _ => cases rests
  | write _ _ => cases rests
  | @group members next _ nextLive memberIH _ =>
      cases rests with
      | group _ membersRest _ =>
          rw [answer_group, regroup]
          split
          · exact (nextLive _).atRest _
          · exact .group next
              (forall_answerAll (fun m member => memberIH m member (membersRest m member)) rs s)
              (by assumption)

end Program

end RuleAnalysis
