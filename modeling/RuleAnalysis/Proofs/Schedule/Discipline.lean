import RuleAnalysis.Proofs.Schedule.Course

namespace RuleAnalysis

/-!
# Disciplines

Programs that take turns on one state rely on each other. A discipline says how
the state may change while a program is suspended, what holds of it throughout,
what may be asked in which state, and what each answer has led to by the time
the program is suspended again. A program keeps the discipline if all of its
own changes do, whatever the others have done in the meantime. Keeping it is
said of one program at a time; that groups keep it then follows.
-/

variable {σ ρ κ : Type}

structure Discipline (σ κ : Type) where
  /-- Holds of every state. -/
  holds : σ → Prop
  /-- How the state may come to change. -/
  step : σ → σ → Prop
  /-- What may be asked in a state. -/
  sent : σ → κ → Prop
  /-- What the host may answer. -/
  allowed : κ → Response → Prop
  /-- What an answer has led to when the program that it is for is suspended again or done. -/
  answered : κ → Response → σ → Prop
  step_refl : ∀ s, step s s
  step_trans : ∀ {s s' s''}, step s s' → step s' s'' → step s s''
  answered_stays : ∀ {q r s s'}, answered q r s → step s s' → answered q r s'

namespace Discipline

/-- Run from the state, the program keeps the discipline and ends as the postcondition says. It
relies on others as far as the relation goes. Before it is suspended or done it pays its debt. The
members of a group rely on each other to keep the discipline and on nothing else. -/
inductive Keeps (D : Discipline σ κ) :
    (σ → σ → Prop) → (ρ → σ → Prop) → (σ → Prop) → Program σ ρ κ → σ → Prop
  | done {rely : σ → σ → Prop} {post : ρ → σ → Prop} {debt : σ → Prop} {r : ρ} {s : σ} :
      debt s → post r s → Keeps D rely post debt (.done r) s
  | ask {rely : σ → σ → Prop} {post : ρ → σ → Prop} {debt : σ → Prop} {q : κ}
      {next : Response → Program σ ρ κ} {s : σ} :
      debt s → D.sent s q →
      (∀ r s', D.allowed q r → rely s s' → D.holds s' →
        Keeps D rely post (D.answered q r) (next r) s') →
      Keeps D rely post debt (.ask q next) s
  | read {rely : σ → σ → Prop} {post : ρ → σ → Prop} {debt : σ → Prop}
      {next : σ → Program σ ρ κ} {s : σ} :
      Keeps D rely post debt (next s) s → Keeps D rely post debt (.read next) s
  | write {rely : σ → σ → Prop} {post : ρ → σ → Prop} {debt : σ → Prop} {s s' : σ}
      {p : Program σ ρ κ} :
      D.step s s' → D.holds s' → Keeps D rely post debt p s' →
      Keeps D rely post debt (.write s' p) s
  | group {rely : σ → σ → Prop} {post : ρ → σ → Prop} {debt : σ → Prop}
      {members : List (Program σ ρ κ)} {next : Except ProtocolError (List ρ) → Program σ ρ κ}
      {s : σ} :
      debt s →
      (∀ m ∈ members, ∀ s', D.step s s' → D.holds s' →
        Keeps D D.step (fun _ _ => True) (fun _ => True) m s') →
      (∀ rs s', D.step s s' → D.holds s' → Keeps D rely post (fun _ => True) (next (.ok rs)) s') →
      Keeps D rely post debt (.group members next) s

/-- The same of a settled program that has waited since the state. -/
inductive Waits (D : Discipline σ κ) :
    (σ → σ → Prop) → (ρ → σ → Prop) → Program σ ρ κ → σ → Prop
  | done {rely : σ → σ → Prop} {post : ρ → σ → Prop} {r : ρ} {s : σ} :
      post r s → Waits D rely post (.done r) s
  | ask {rely : σ → σ → Prop} {post : ρ → σ → Prop} {q : κ} {next : Response → Program σ ρ κ}
      {s : σ} :
      (∀ r s', D.allowed q r → rely s s' → D.holds s' →
        Keeps D rely post (D.answered q r) (next r) s') →
      Waits D rely post (.ask q next) s
  | group {rely : σ → σ → Prop} {post : ρ → σ → Prop} {members : List (Program σ ρ κ)}
      {next : Except ProtocolError (List ρ) → Program σ ρ κ} {s : σ} :
      (∀ m ∈ members, Waits D D.step (fun _ _ => True) m s) →
      (∀ rs s', D.step s s' → D.holds s' → Keeps D rely post (fun _ => True) (next (.ok rs)) s') →
      Waits D rely post (.group members next) s

/-- The request was allowed in a state between the two. -/
def SentBetween (D : Discipline σ κ) (s s'' : σ) (q : κ) : Prop :=
  ∃ s', D.step s s' ∧ D.sent s' q ∧ D.step s' s''

/-- What a turn that starts in the state has come to. -/
structure Turn (D : Discipline σ κ) (rely : σ → σ → Prop) (post : ρ → σ → Prop) (s : σ)
    (turn : Program σ ρ κ × σ) : Prop where
  step : D.step s turn.2
  holds : D.holds turn.2
  waits : D.Waits rely post turn.1 turn.2
  sent : ∀ q ∈ turn.1.pending, D.SentBetween s turn.2 q

/-- What the turns of all members, one after another, have come to. -/
structure Turns (D : Discipline σ κ) (s : σ) (turns : List (Program σ ρ κ) × σ) : Prop where
  step : D.step s turns.2
  holds : D.holds turns.2
  waits : ∀ m ∈ turns.1, D.Waits D.step (fun _ _ => True) m turns.2
  sent : ∀ q ∈ Program.pendingAll turns.1, D.SentBetween s turns.2 q

variable {D : Discipline σ κ} {rely : σ → σ → Prop} {post : ρ → σ → Prop} {debt : σ → Prop}

theorem SentBetween.earlier {s s₁ s₂ : σ} {q : κ} (sent : D.SentBetween s₁ s₂ q)
    (step : D.step s s₁) : D.SentBetween s s₂ q := by
  rcases sent with ⟨s', before, allowed, after⟩
  exact ⟨s', D.step_trans step before, allowed, after⟩

theorem SentBetween.later {s s₁ s₂ : σ} {q : κ} (sent : D.SentBetween s s₁ q)
    (step : D.step s₁ s₂) : D.SentBetween s s₂ q := by
  rcases sent with ⟨s', before, allowed, after⟩
  exact ⟨s', before, allowed, D.step_trans after step⟩

theorem Turn.earlier {s s' : σ} {turn : Program σ ρ κ × σ} (turned : D.Turn rely post s' turn)
    (step : D.step s s') : D.Turn rely post s turn :=
  ⟨D.step_trans step turned.step, turned.holds, turned.waits, fun q asked =>
    (turned.sent q asked).earlier step⟩

/-- A debt that is paid already can be owed. -/
theorem Keeps.owing {p : Program σ ρ κ} {s : σ}
    (keeps : D.Keeps rely post (fun _ => True) p s)
    (stays : ∀ s s', debt s → D.step s s' → debt s') (paid : debt s) :
    D.Keeps rely post debt p s := by
  generalize nothing : (fun _ => True) = free at keeps
  induction keeps with
  | done _ ended => exact .done paid ended
  | ask _ sent next _ => exact .ask paid sent next
  | read _ ih => exact .read (ih paid nothing)
  | write step holds _ ih => exact .write step holds (ih (stays _ _ paid step) nothing)
  | group _ members next _ _ => exact .group paid members next

theorem Keeps.answering {p : Program σ ρ κ} {q : κ} {r : Response} {s : σ}
    (keeps : D.Keeps rely post (fun _ => True) p s) (dealt : D.answered q r s) :
    D.Keeps rely post (D.answered q r) p s :=
  keeps.owing (fun _ _ => D.answered_stays) dealt

theorem Keeps.weaken {p : Program σ ρ κ} {s : σ} (keeps : D.Keeps rely post debt p s)
    {weaker : ρ → σ → Prop} (implies : ∀ r s, post r s → weaker r s) :
    D.Keeps rely weaker debt p s := by
  induction keeps with
  | done paid ended => exact .done paid (implies _ _ ended)
  | ask paid sent _ ih =>
      exact .ask paid sent fun r s' allowed moved holds => ih r s' allowed moved holds implies
  | read _ ih => exact .read (ih implies)
  | write step holds _ ih => exact .write step holds (ih implies)
  | group paid members _ _ ih =>
      exact .group paid members fun rs s' step holds => ih rs s' step holds implies

/-- What follows a program takes over where it has ended. -/
theorem Keeps.bind {p : Program σ ρ κ} {s : σ} {more : ρ → Program σ ρ κ}
    (keeps : D.Keeps rely
      (fun r s' => D.Keeps rely post (fun _ => True) (more r) s') debt p s)
    (stays : ∀ s s', debt s → D.step s s' → debt s') :
    D.Keeps rely post debt (p.bind more) s := by
  generalize ends : (fun r s' => D.Keeps rely post (fun _ => True) (more r) s') = goesOn at keeps
  induction keeps with
  | done paid ended =>
      subst ends
      exact ended.owing stays paid
  | ask paid sent _ ih =>
      exact .ask paid sent fun r s' allowed moved holds =>
        ih r s' allowed moved holds (fun _ _ => D.answered_stays) ends
  | read _ ih => exact .read (ih stays ends)
  | write step holds _ ih => exact .write step holds (ih stays ends)
  | group paid members _ _ ih =>
      exact .group paid members fun rs s' step holds =>
        ih rs s' step holds (fun _ _ _ _ => trivial) ends

/-- To have waited since an earlier state says more. -/
theorem Waits.later {p : Program σ ρ κ} {s s' : σ}
    (waits : D.Waits D.step (fun (_ : ρ) _ => True) p s) (step : D.step s s') :
    D.Waits D.step (fun _ _ => True) p s' := by
  generalize others : D.step = rely at waits
  generalize ended : (fun (_ : ρ) (_ : σ) => True) = post at waits
  induction waits with
  | done _ =>
      subst ended
      exact .done trivial
  | ask next =>
      subst others ended
      exact .ask fun r s'' allowed moved holds => next r s'' allowed (D.step_trans step moved) holds
  | group members next memberIH =>
      subst others ended
      exact .group (fun m member => memberIH m member step rfl rfl) fun rs s'' moved holds =>
        next rs s'' (D.step_trans step moved) holds

/-! ## Turns keep the discipline -/

theorem Turns.regroup {s : σ} {turns : List (Program σ ρ κ) × σ} (turned : D.Turns s turns)
    {next : Except ProtocolError (List ρ) → Program σ ρ κ}
    (goesOn : ∀ rs s', D.step s s' → D.holds s' →
      D.Keeps rely post (fun _ => True) (next (.ok rs)) s')
    (settled : ∀ rs s', D.step s s' → D.holds s' → D.Turn rely post s' ((next (.ok rs)).settle s')) :
    D.Turn rely post s (Program.regroup next turns.1 turns.2) ∧
      D.step turns.2 (Program.regroup next turns.1 turns.2).2 := by
  rw [Program.regroup]
  cases Program.results? turns.1 with
  | some rs =>
      have onward := settled rs turns.2 turned.step turned.holds
      exact ⟨onward.earlier turned.step, onward.step⟩
  | none =>
      refine ⟨⟨turned.step, turned.holds, .group turned.waits fun rs s' step holds => ?_, ?_⟩,
        D.step_refl _⟩
      · exact goesOn rs s' (D.step_trans turned.step step) holds
      · intro q asked
        exact turned.sent q asked

theorem Turns.nil {s : σ} (holds : D.holds s) : D.Turns s (([] : List (Program σ ρ κ)), s) := by
  refine ⟨D.step_refl s, holds, ?_, ?_⟩
  · intro m member
    cases member
  · intro q asked
    cases asked

theorem Turn.cons {s : σ} {turn : Program σ ρ κ × σ} {turns : List (Program σ ρ κ) × σ}
    (first : D.Turn D.step (fun _ _ => True) s turn) (others : D.Turns turn.2 turns) :
    D.Turns s (turn.1 :: turns.1, turns.2) := by
  refine ⟨D.step_trans first.step others.step, others.holds, ?_, fun q asked => ?_⟩
  · exact List.forall_mem_cons.mpr ⟨first.waits.later others.step, others.waits⟩
  · rcases List.mem_append.mp asked with own | later
    · exact (first.sent q own).later others.step
    · exact (others.sent q later).earlier first.step

theorem settleAll_turns {members : List (Program σ ρ κ)} {s : σ}
    (each : ∀ m ∈ members, ∀ s', D.step s s' → D.holds s' →
      D.Turn D.step (fun _ _ => True) s' (m.settle s')) (holds : D.holds s) :
    D.Turns s (Program.settleAll members s) := by
  induction members generalizing s with
  | nil =>
      rw [Program.settleAll_nil]
      exact .nil holds
  | cons head rest ih =>
      rw [Program.settleAll_cons]
      have first := each head (List.mem_cons_self ..) s (D.step_refl s) holds
      refine first.cons (ih (fun m member s' step holds => ?_) first.holds)
      exact each m (List.mem_cons_of_mem _ member) s' (D.step_trans first.step step) holds

/-- Settling a program keeps the discipline, and the debt is paid behind it. -/
theorem Keeps.settle {p : Program σ ρ κ} {s : σ} (keeps : D.Keeps rely post debt p s)
    (stays : ∀ s s', debt s → D.step s s' → debt s') (holds : D.holds s) :
    D.Turn rely post s (p.settle s) ∧ debt (p.settle s).2 := by
  induction keeps with
  | done paid ended =>
      exact ⟨⟨D.step_refl _, holds, .done ended, fun q asked => by cases asked⟩, paid⟩
  | @ask _ _ _ q next s paid sent goesOn _ =>
      refine ⟨⟨D.step_refl _, holds, .ask goesOn, fun q' asked => ?_⟩, paid⟩
      cases List.mem_singleton.mp asked
      exact ⟨s, D.step_refl s, sent, D.step_refl s⟩
  | read _ ih => exact ih stays holds
  | write step holds' _ ih =>
      rcases ih stays holds' with ⟨turned, paid⟩
      exact ⟨turned.earlier step, paid⟩
  | group paid _ goesOn memberIH nextIH =>
      rw [Program.settle_group]
      have turned := settleAll_turns
        (fun m member s' step holds => (memberIH m member s' step holds (by simp) holds).1) holds
      rcases turned.regroup goesOn fun rs s' step holds =>
        (nextIH rs s' step holds (by simp) holds).1 with ⟨whole, onward⟩
      exact ⟨whole, stays _ _ paid whole.step⟩

/-- What a program asks next, it asks when the debt has been paid. -/
theorem Keeps.sent_paid {p : Program σ ρ κ} {s : σ} (keeps : D.Keeps rely post debt p s)
    (stays : ∀ s s', debt s → D.step s s' → debt s') (holds : D.holds s) :
    ∀ q ∈ (p.settle s).1.pending, ∃ s', debt s' ∧ D.sent s' q := by
  induction keeps with
  | done _ _ => exact fun q asked => by cases asked
  | @ask _ _ _ q _ s paid sent _ _ =>
      intro q' asked
      cases List.mem_singleton.mp asked
      exact ⟨s, paid, sent⟩
  | read _ ih => exact ih stays holds
  | write _ holds' _ ih => exact ih stays holds'
  | group paid members goesOn _ _ =>
      intro q asked
      rcases ((Keeps.group paid members goesOn).settle stays holds).1.sent q asked
        with ⟨s', step, sent, _⟩
      exact ⟨s', stays _ _ paid step, sent⟩

/-- The answers to a batch are allowed. -/
def Allows (D : Discipline σ κ) (qs : List κ) (rs : List Response) : Prop :=
  ∀ pair ∈ qs.zip rs, D.allowed pair.1 pair.2

/-- The answers to a batch have been dealt with. -/
def Dealt (D : Discipline σ κ) (qs : List κ) (rs : List Response) (s : σ) : Prop :=
  ∀ pair ∈ qs.zip rs, D.answered pair.1 pair.2 s

theorem Dealt.stays {qs : List κ} {rs : List Response} {s s' : σ} (dealt : D.Dealt qs rs s)
    (step : D.step s s') : D.Dealt qs rs s' :=
  fun pair member => D.answered_stays (dealt pair member) step

theorem answerAll_turns {members : List (Program σ ρ κ)} {s : σ}
    (each : ∀ m ∈ members, ∀ rs s', D.step s s' → D.holds s' → rs.length = m.pending.length →
      D.Allows m.pending rs →
      D.Turn D.step (fun _ _ => True) s' (m.answer rs s') ∧ D.Dealt m.pending rs (m.answer rs s').2)
    (holds : D.holds s) {rs : List Response}
    (sized : rs.length = (Program.pendingAll members).length)
    (allows : D.Allows (Program.pendingAll members) rs) :
    D.Turns s (Program.answerAll members rs s) ∧
      D.Dealt (Program.pendingAll members) rs (Program.answerAll members rs s).2 := by
  induction members generalizing rs s with
  | nil =>
      rw [Program.answerAll_nil]
      refine ⟨.nil holds, fun pair member => ?_⟩
      cases member
  | cons head rest ih =>
      rcases Program.exists_mine sized with ⟨mine, more, rfl, counted, more_sized⟩
      have zipped : (Program.pendingAll (head :: rest)).zip (mine ++ more) =
          head.pending.zip mine ++ (Program.pendingAll rest).zip more := by
        rw [Program.pendingAll, List.zip_append counted.symm]
      rw [Allows, zipped, List.forall_mem_append] at allows
      rw [Program.answerAll_cons head rest counted]
      rcases each head (List.mem_cons_self ..) mine s (D.step_refl s) holds counted allows.1
        with ⟨first, firstDealt⟩
      rcases ih
        (fun m member rs s' step =>
          each m (List.mem_cons_of_mem _ member) rs s' (D.step_trans first.step step))
        first.holds more_sized allows.2 with ⟨others, othersDealt⟩
      refine ⟨first.cons others, ?_⟩
      rw [Dealt, zipped, List.forall_mem_append]
      exact ⟨firstDealt.stays others.step, othersDealt⟩

/-- Whoever relies on no more than the discipline, and whose postcondition others leave alone. -/
structure Fair (D : Discipline σ κ) (rely : σ → σ → Prop) (post : ρ → σ → Prop) : Prop where
  within : ∀ s s', rely s s' → D.step s s'
  stays : ∀ r s s', post r s → rely s s' → post r s'

theorem fair_step : D.Fair D.step (fun (_ : ρ) _ => True) :=
  ⟨fun _ _ step => step, fun _ _ _ _ _ => trivial⟩

/-- Answering what a program waits for keeps the discipline. -/
theorem Waits.answer {p : Program σ ρ κ} {s : σ} (waits : D.Waits rely post p s)
    (fair : D.Fair rely post) {s' : σ} (moved : rely s s') (holds : D.holds s')
    {rs : List Response} (sized : rs.length = p.pending.length) (allows : D.Allows p.pending rs) :
    D.Turn rely post s' (p.answer rs s') ∧ D.Dealt p.pending rs (p.answer rs s').2 := by
  induction waits generalizing rs s' with
  | done ended =>
      rw [Program.answer_done]
      refine ⟨⟨D.step_refl _, holds, .done (fair.stays _ _ _ ended moved), ?_⟩, ?_⟩
      · intro q asked
        cases asked
      · intro pair member
        cases member
  | @ask _ _ q next s goesOn =>
      rcases List.length_eq_one_iff.mp sized with ⟨r, rfl⟩
      have allowed : D.allowed q r := allows (q, r) (List.mem_singleton.mpr rfl)
      rcases (goesOn r s' allowed moved holds).settle
        (fun _ _ => D.answered_stays) holds with ⟨turned, dealt⟩
      refine ⟨turned, fun pair member => ?_⟩
      cases List.mem_singleton.mp member
      exact dealt
  | @group _ _ members next s _ goesOn memberIH =>
      have step := fair.within _ _ moved
      rw [Program.answer_group]
      rcases answerAll_turns
        (fun m member rs s'' step' holds sized allows =>
          memberIH m member fair_step (D.step_trans step step') holds sized allows)
        holds sized allows with ⟨turned, dealt⟩
      rcases turned.regroup
        (fun rs s'' step' => goesOn rs s'' (D.step_trans step step'))
        (fun rs s'' step' holds =>
          ((goesOn rs s'' (D.step_trans step step') holds).settle (by simp) holds).1)
        with ⟨whole, onward⟩
      exact ⟨whole, dealt.stays onward⟩

/-! ## Courses keep the discipline -/

/-- What the course of a task that keeps the discipline has come to. -/
structure Kept (D : Discipline σ κ) (post : ρ → σ → Prop) (s : σ) (c : Course σ ρ κ) : Prop where
  step : D.step s c.state
  holds : D.holds c.state
  ended : ∀ r, c.ending = some (.ok r) → post r c.state
  sent : ∀ qs ∈ c.batches, ∀ q ∈ qs, D.SentBetween s c.state q

/-- What the host does to the state at its visits is what the program relies on. -/
def Gentle (D : Discipline σ κ) (rely : σ → σ → Prop) (visits : List (Visit σ)) : Prop :=
  ∀ v ∈ visits, ∀ s, rely s (v.touch s) ∧ (D.holds s → D.holds (v.touch s))

/-- The host answers the batches of the course as it may. -/
def Obliges (D : Discipline σ κ) (c : Course σ ρ κ) (visits : List (Visit σ)) : Prop :=
  ∀ (k : Nat) (qs : List κ) (v : Visit σ), c.batches[k]? = some qs → visits[k]? = some v →
    D.Allows qs v.responses

theorem Obliges.tail {qs : List κ} {c : Course σ ρ κ} {v : Visit σ} {visits : List (Visit σ)}
    (obliges : D.Obliges (c.after qs) (v :: visits)) :
    D.Allows qs v.responses ∧ D.Obliges c visits :=
  ⟨obliges 0 qs v rfl rfl, fun k => obliges (k + 1)⟩

/-- One exchange of a program that waits, with a host that does as it may. -/
structure Exchange (D : Discipline σ κ) (rely : σ → σ → Prop) (post : ρ → σ → Prop)
    (p : Program σ ρ κ) (s : σ) (v : Visit σ) : Prop where
  waits : D.Waits rely post p s
  moved : rely s (v.touch s)
  holds : D.holds (v.touch s)
  sized : v.responses.length = p.pending.length
  allows : D.Allows p.pending v.responses
  turned : D.Turn rely post s (p.answer v.responses (v.touch s))
  dealt : D.Dealt p.pending v.responses (p.answer v.responses (v.touch s)).2

/-- The exchanges that make up a course. -/
inductive Run (D : Discipline σ κ) (rely : σ → σ → Prop) (post : ρ → σ → Prop) :
    Program σ ρ κ → σ → Course σ ρ κ → Prop
  | ended {r : ρ} {s : σ} : D.holds s → post r s → Run D rely post (.done r) s ⟨[], some (.ok r), s⟩
  /-- There is no further visit, or one that does not bring as many responses as were asked for. -/
  | stopped {p : Program σ ρ κ} {s s' : σ} {ending : Option (Except ProtocolError ρ)} :
      D.step s s' → D.holds s' → (∀ r, ending ≠ some (.ok r)) →
      Run D rely post p s ⟨[p.pending], ending, s'⟩
  | exchange {p : Program σ ρ κ} {s : σ} {v : Visit σ} {c : Course σ ρ κ} :
      D.Exchange rely post p s v →
      Run D rely post (p.answer v.responses (v.touch s)).1 (p.answer v.responses (v.touch s)).2 c →
      Run D rely post p s (c.after p.pending)

/-- Visited again and again, a program that waits goes through a run. -/
theorem Waits.run {p : Program σ ρ κ} {s : σ} (waits : D.Waits rely post p s)
    (fair : D.Fair rely post) (rests : p.AtRest) (live : p.Live) (holds : D.holds s)
    {visits : List (Visit σ)} (gentle : D.Gentle rely visits)
    (obliges : D.Obliges (p.follow s visits) visits) :
    D.Run rely post p s (p.follow s visits) := by
  induction visits generalizing p s with
  | nil =>
      rcases rests.done_or_asks with ⟨r, rfl⟩ | asks
      · cases waits with
        | done ended =>
            rw [Program.follow_done]
            exact .ended holds ended
      · rw [Program.follow_nil asks]
        exact .stopped (D.step_refl s) holds nofun
  | cons v visits ih =>
      rcases rests.done_or_asks with ⟨r, rfl⟩ | asks
      · cases waits with
        | done ended =>
            rw [Program.follow_done]
            exact .ended holds ended
      · rcases gentle v (List.mem_cons_self ..) s with ⟨moved, kept⟩
        have touched := fair.within _ _ moved
        by_cases sized : v.responses.length = p.pending.length
        · rw [Program.follow_cons asks s v visits sized] at obliges ⊢
          rcases obliges.tail with ⟨allows, obliges⟩
          rcases waits.answer fair moved (kept holds) sized allows with ⟨turned, dealt⟩
          refine .exchange
            ⟨waits, moved, kept holds, sized, allows, turned.earlier touched, dealt⟩ ?_
          exact ih turned.waits (rests.answer live _ _) (live.answer _ _) turned.holds
            (fun v member => gentle v (List.mem_cons_of_mem _ member)) obliges
        · rw [Program.follow_missized asks s v visits sized]
          exact .stopped touched (kept holds) nofun

theorem Kept.after {first : σ} {qs : List κ} {c : Course σ ρ κ} (kept : D.Kept post first c)
    (sent : ∀ q ∈ qs, D.SentBetween first c.state q) : D.Kept post first (c.after qs) :=
  ⟨kept.step, kept.holds, kept.ended, List.forall_mem_cons.mpr ⟨sent, kept.sent⟩⟩

/-- A run keeps the discipline. -/
theorem Run.kept {p : Program σ ρ κ} {first s : σ} {c : Course σ ρ κ} (run : D.Run rely post p s c)
    (step : D.step first s) (sent : ∀ q ∈ p.pending, D.SentBetween first s q) :
    D.Kept post first c ∧ D.step s c.state := by
  induction run with
  | @ended r s holds ended =>
      refine ⟨⟨step, holds, ?_, fun _ member => nomatch member⟩, D.step_refl s⟩
      rintro _ ⟨⟩
      exact ended
  | stopped moved holds without =>
      refine ⟨⟨D.step_trans step moved, holds, fun r ended => absurd ended (without r), ?_⟩, moved⟩
      exact List.forall_mem_singleton.mpr fun q asked => (sent q asked).later moved
  | exchange exchange _ ih =>
      have turned := exchange.turned
      rcases ih (D.step_trans step turned.step)
        (fun q asked => (turned.sent q asked).earlier step) with ⟨kept, onward⟩
      have whole := D.step_trans turned.step onward
      exact ⟨kept.after fun q asked => (sent q asked).later whole, whole⟩

/-- A task whose program keeps the discipline goes through a run of the settled program. -/
theorem Keeps.run {p : Program σ ρ κ} {s : σ} {touch : σ → σ}
    (keeps : D.Keeps rely post (fun _ => True) p (touch s)) (fair : D.Fair rely post)
    (live : p.Live) (holds : D.holds (touch s)) {visits : List (Visit σ)}
    (gentle : D.Gentle rely visits)
    (obliges : D.Obliges ((TaskOf.ofProgram p).course s (⟨[], touch⟩ :: visits)) visits) :
    D.Run rely post (p.settle (touch s)).1 (p.settle (touch s)).2
      ((TaskOf.ofProgram p).course s (⟨[], touch⟩ :: visits)) := by
  rw [TaskOf.course_ofProgram live] at obliges ⊢
  rcases keeps.settle (by simp) holds with ⟨turned, _⟩
  exact turned.waits.run fair (live.atRest _) (live.settle _) turned.holds gentle obliges

/-- A task keeps the discipline through its whole course if its program does. -/
theorem Keeps.course {p : Program σ ρ κ} {s : σ} {touch : σ → σ}
    (keeps : D.Keeps rely post (fun _ => True) p (touch s)) (fair : D.Fair rely post)
    (live : p.Live) (holds : D.holds (touch s)) {visits : List (Visit σ)}
    (gentle : D.Gentle rely visits)
    (obliges : D.Obliges ((TaskOf.ofProgram p).course s (⟨[], touch⟩ :: visits)) visits) :
    D.Kept post (touch s) ((TaskOf.ofProgram p).course s (⟨[], touch⟩ :: visits)) := by
  rcases keeps.settle (by simp) holds with ⟨turned, _⟩
  exact ((keeps.run fair live holds gentle obliges).kept turned.step turned.sent).1

end Discipline

end RuleAnalysis
