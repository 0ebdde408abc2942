import RuleAnalysis.Proofs.Schedule.Course

namespace RuleAnalysis

/-!
# Stages

The stage of a state is the part of it that tells how far a program has come.
A program moves the stage on by itself. The members of its groups and whoever
visits its task leave the stage alone, so that a program finds it as it has left
it, however long it has been suspended.
-/

variable {σ ρ κ α : Type}

/-- A way of moving on: staying is allowed, and so is moving on twice. -/
structure Onward (may : α → α → Prop) : Prop where
  refl : ∀ a, may a a
  trans : ∀ {a b c}, may a b → may b c → may a c

theorem Onward.eq : Onward (Eq : α → α → Prop) := ⟨fun _ => rfl, Eq.trans⟩

namespace Program

/-- Run from the stage on, the program moves it on as it may. The members of groups leave it
alone. -/
inductive Moves (stage : σ → α) : (α → α → Prop) → Program σ ρ κ → α → Prop
  | done {may : α → α → Prop} {a : α} (r : ρ) : Moves stage may (done r) a
  | ask {may : α → α → Prop} {a : α} {q : κ} {next : Response → Program σ ρ κ} :
      (∀ r, Moves stage may (next r) a) → Moves stage may (ask q next) a
  | read {may : α → α → Prop} {a : α} {next : σ → Program σ ρ κ} :
      (∀ s, stage s = a → Moves stage may (next s) a) → Moves stage may (read next) a
  | write {may : α → α → Prop} {a : α} {s : σ} {p : Program σ ρ κ} :
      may a (stage s) → Moves stage may p (stage s) → Moves stage may (write s p) a
  | group {may : α → α → Prop} {a : α} {members : List (Program σ ρ κ)}
      {next : Except ProtocolError (List ρ) → Program σ ρ κ} :
      (∀ m ∈ members, Moves stage Eq m a) → (∀ rs, Moves stage may (next (.ok rs)) a) →
      Moves stage may (group members next) a

/-- A turn that starts at the stage has moved it on, and what is left moves it on from there. -/
structure Moved (stage : σ → α) (may : α → α → Prop) (a : α) (turn : Program σ ρ κ × σ) :
    Prop where
  moved : may a (stage turn.2)
  moves : turn.1.Moves stage may (stage turn.2)

/-- Members that are run one after another leave the stage alone, and so does what is left of
them. -/
structure Stayed (stage : σ → α) (a : α) (turns : List (Program σ ρ κ) × σ) : Prop where
  stayed : stage turns.2 = a
  moves : ∀ m ∈ turns.1, m.Moves stage Eq a

variable {stage : σ → α} {may : α → α → Prop} {a : α} {p : Program σ ρ κ}

/-! ## Programs made of others -/

theorem Moves.modify {change : σ → σ} (allowed : ∀ s, stage s = a → may a (stage (change s)))
    (moves : ∀ s, stage s = a → p.Moves stage may (stage (change s))) :
    Moves stage may (modify change p) a :=
  .read fun s here => .write (allowed s here) (moves s here)

/-- A change that the stage does not show. -/
theorem Moves.modify_unseen {change : σ → σ} (onward : Onward may)
    (unseen : ∀ s, stage (change s) = stage s) (moves : p.Moves stage may a) :
    Moves stage may (.modify change p) a := by
  refine .modify (fun s here => ?_) fun s here => ?_
  · rw [unseen, here]
    exact onward.refl a
  · rw [unseen, here]
    exact moves

/-- What follows a program that leaves the stage alone begins at the same stage. -/
theorem Moves.bind (onward : Onward may) {more : ρ → Program σ ρ κ} (first : p.Moves stage Eq a)
    (later : ∀ r, (more r).Moves stage may a) : (p.bind more).Moves stage may a := by
  -- `Eq` is an index of `first`: the induction needs it as a variable.
  generalize stays : (Eq : α → α → Prop) = same at first
  induction first with
  | done r => exact later r
  | ask _ ih => exact .ask fun r => ih r later stays
  | read _ ih => exact .read fun s here => ih s here later stays
  | @write _ _ _ _ moved _ ih =>
      subst stays
      subst moved
      exact .write (onward.refl _) (ih later rfl)
  | group members _ _ ih => exact .group members fun rs => ih rs later stays

/-! ## Turns move the stage on -/

theorem Moved.cons {turn : Program σ ρ κ × σ} {turns : List (Program σ ρ κ) × σ}
    (first : Moved stage Eq a turn) (others : Stayed stage a turns) :
    Stayed stage a (turn.1 :: turns.1, turns.2) := by
  obtain ⟨rfl, moves⟩ := first
  exact ⟨others.stayed, List.forall_mem_cons.mpr ⟨moves, others.moves⟩⟩

theorem settleAll_stayed {members : List (Program σ ρ κ)}
    (each : ∀ m ∈ members, ∀ s, stage s = a → Moved stage Eq a (m.settle s)) {s : σ}
    (here : stage s = a) : Stayed stage a (settleAll members s) := by
  induction members generalizing s with
  | nil =>
      rw [settleAll_nil]
      exact ⟨here, nofun⟩
  | cons head rest ih =>
      have first := each head List.mem_cons_self s here
      have others := ih (fun m member => each m (List.mem_cons_of_mem _ member)) first.moved.symm
      rw [settleAll_cons]
      exact first.cons others

theorem answerAll_stayed {members : List (Program σ ρ κ)}
    (each : ∀ m ∈ members, ∀ rs s, stage s = a → Moved stage Eq a (m.answer rs s))
    (rs : List Response) {s : σ} (here : stage s = a) :
    Stayed stage a (answerAll members rs s) := by
  induction members generalizing rs s with
  | nil =>
      rw [answerAll_nil]
      exact ⟨here, nofun⟩
  | cons head rest ih =>
      have first := each head List.mem_cons_self (rs.take head.pending.length) s here
      have others := ih (fun m member => each m (List.mem_cons_of_mem _ member))
        (rs.drop head.pending.length) first.moved.symm
      rw [answerAll]
      exact first.cons others

/-- A group whose members have been run is where it was, or has gone on from there. -/
theorem Stayed.regroup (onward : Onward may)
    {next : Except ProtocolError (List ρ) → Program σ ρ κ} {turns : List (Program σ ρ κ) × σ}
    (stayed : Stayed stage a turns) (moves : ∀ rs, (next (.ok rs)).Moves stage may a)
    (goesOn : ∀ rs s, stage s = a → Moved stage may a ((next (.ok rs)).settle s)) :
    Moved stage may a (regroup next turns.1 turns.2) := by
  unfold Program.regroup
  split
  · exact goesOn _ _ stayed.stayed
  · refine ⟨?_, ?_⟩
    · rw [stayed.stayed]
      exact onward.refl a
    · rw [stayed.stayed]
      exact .group stayed.moves moves

theorem Moves.settle (moves : p.Moves stage may a) (onward : Onward may) {s : σ}
    (here : stage s = a) : Moved stage may a (p.settle s) := by
  induction moves generalizing s with
  | done r =>
      subst here
      exact ⟨onward.refl _, .done r⟩
  | ask next _ =>
      subst here
      exact ⟨onward.refl _, .ask next⟩
  | read _ ih => exact ih s here onward here
  | write allowed _ ih =>
      have settled := ih onward rfl
      exact ⟨onward.trans allowed settled.moved, settled.moves⟩
  | group _ moves memberIH nextIH =>
      have stayed := settleAll_stayed (fun m member s => memberIH m member .eq) here
      rw [settle_group]
      exact stayed.regroup onward moves fun rs s => nextIH rs onward

/-- Whatever it is answered, a program that is resumed at the stage moves it on. -/
theorem Moves.answer (moves : p.Moves stage may a) (onward : Onward may) (rs : List Response)
    {s : σ} (here : stage s = a) : Moved stage may a (p.answer rs s) := by
  induction moves generalizing rs s with
  | done r =>
      subst here
      exact ⟨onward.refl _, .done r⟩
  | ask next _ =>
      cases rs with
      | nil =>
          subst here
          exact ⟨onward.refl _, .ask next⟩
      | cons r _ => exact (next r).settle onward here
  | read next _ =>
      subst here
      exact ⟨onward.refl _, .read next⟩
  | write allowed moves _ =>
      subst here
      exact ⟨onward.refl _, .write allowed moves⟩
  | group _ moves memberIH _ =>
      have stayed := answerAll_stayed (fun m member rs s => memberIH m member .eq rs) rs here
      rw [answer_group]
      exact stayed.regroup onward moves fun rs s => (moves rs).settle onward

/-- Through all visits a program moves the stage on. -/
theorem Moves.follow (moves : p.Moves stage may a) (onward : Onward may) (rests : p.AtRest)
    (live : p.Live) {s : σ} (here : stage s = a) {visits : List (Visit σ)}
    (unseen : ∀ v ∈ visits, ∀ s, stage (v.touch s) = stage s) :
    may a (stage (p.follow s visits).state) := by
  induction visits generalizing p s a with
  | nil =>
      subst here
      rcases rests.done_or_asks with ⟨r, rfl⟩ | asks
      · rw [follow_done]
        exact onward.refl _
      · rw [follow_nil asks]
        exact onward.refl _
  | cons v visits ih =>
      rcases List.forall_mem_cons.mp unseen with ⟨first, others⟩
      have touched : stage (v.touch s) = a := (first s).trans here
      rcases rests.done_or_asks with ⟨r, rfl⟩ | asks
      · rw [follow_done, here]
        exact onward.refl a
      · by_cases sized : v.responses.length = p.pending.length
        · have turned := moves.answer onward v.responses touched
          have later := ih turned.moves (rests.answer live _ _) (live.answer _ _) rfl others
          rw [follow_cons asks s v visits sized]
          exact onward.trans turned.moved later
        · rw [follow_missized asks s v visits sized, touched]
          exact onward.refl a

end Program

/-! ## Procedures that leave the stage alone -/

namespace Procedure

variable {β γ ε : Type}

/-- Run from the stage, the procedure leaves it alone. -/
inductive Stays (stage : σ → α) (a : α) : Procedure σ β κ → Prop
  | done (b : β) : Stays stage a (done b)
  | ask {q : κ} {next : Response → Procedure σ β κ} :
      (∀ r, Stays stage a (next r)) → Stays stage a (ask q next)
  | read {next : σ → Procedure σ β κ} :
      (∀ s, stage s = a → Stays stage a (next s)) → Stays stage a (read next)
  | write {s : σ} {next : Procedure σ β κ} :
      stage s = a → Stays stage a next → Stays stage a (write s next)

variable {stage : σ → α} {a : α}

theorem Stays.bind {first : Procedure σ β κ} {more : β → Procedure σ γ κ}
    (stays : first.Stays stage a) (later : ∀ b, (more b).Stays stage a) :
    (first.bind more).Stays stage a := by
  induction stays with
  | done b => exact later b
  | ask _ ih => exact .ask ih
  | read _ ih => exact .read ih
  | write stayed _ ih => exact .write stayed ih

theorem Stays.andThen {first : Procedure σ (Except ε β) κ}
    {more : β → Procedure σ (Except ε γ) κ} (stays : first.Stays stage a)
    (later : ∀ b, (more b).Stays stage a) : (first.andThen more).Stays stage a := by
  apply stays.bind
  intro result
  cases result with
  | ok b => exact later b
  | error e => exact .done _

theorem Stays.modify {change : σ → σ} (unseen : ∀ s, stage (change s) = stage s) (b : β) :
    Stays stage a (.modify change b : Procedure σ β κ) :=
  .read fun s here => .write ((unseen s).trans here) (.done b)

end Procedure

theorem Program.Moves.perform {β : Type} {stage : σ → α} {may : α → α → Prop} {a : α}
    (onward : Onward may) {procedure : Procedure σ β κ} (stays : procedure.Stays stage a)
    {next : β → Program σ ρ κ} (moves : ∀ b, (next b).Moves stage may a) :
    (Program.perform procedure next).Moves stage may a := by
  induction stays with
  | done b => exact moves b
  | ask _ ih => exact .ask ih
  | read _ ih => exact .read ih
  | write stayed _ ih =>
      subst stayed
      exact .write (onward.refl _) ih

end RuleAnalysis
