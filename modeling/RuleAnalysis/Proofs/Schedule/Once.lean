import RuleAnalysis.Proofs.Schedule.Discipline

namespace RuleAnalysis

/-!
# What is asked for once

What an answer has left behind need not be asked for again. Between a request
and its answer, though, other members of a group may find that nothing is there
yet and ask as well. All such requests are sent in two batches that follow each
other, and there is only one of them if no member of a group sends any.
-/

variable {σ ρ κ : Type}

/-- How many requests of a kind are sent. -/
def Course.times (c : Course σ ρ κ) (kind : κ → Bool) : Nat := c.batches.flatten.countP kind

@[simp] theorem Course.times_after (qs : List κ) (c : Course σ ρ κ) (kind : κ → Bool) :
    (c.after qs).times kind = qs.countP kind + c.times kind := by
  rw [times, after_batches, List.flatten_cons, List.countP_append, times]

namespace Program

/-- The program itself asks what the first predicate holds of, and the members of its groups ask
what the second holds of. -/
inductive Asks : (κ → Prop) → (κ → Prop) → Program σ ρ κ → Prop
  | done {own inside : κ → Prop} (r : ρ) : Asks own inside (done r)
  | ask {own inside : κ → Prop} {q : κ} {next : Response → Program σ ρ κ} :
      own q → (∀ r, Asks own inside (next r)) → Asks own inside (ask q next)
  | read {own inside : κ → Prop} {next : σ → Program σ ρ κ} :
      (∀ s, Asks own inside (next s)) → Asks own inside (read next)
  | write {own inside : κ → Prop} {s : σ} {p : Program σ ρ κ} :
      Asks own inside p → Asks own inside (write s p)
  | group {own inside : κ → Prop} {members : List (Program σ ρ κ)}
      {next : Except ProtocolError (List ρ) → Program σ ρ κ} :
      (∀ m ∈ members, Asks inside inside m) → (∀ rs, Asks own inside (next (.ok rs))) →
      Asks own inside (group members next)

variable {own inside : κ → Prop}

theorem Asks.settle {p : Program σ ρ κ} (asks : p.Asks own inside) (s : σ) :
    (p.settle s).1.Asks own inside := by
  induction asks generalizing s with
  | done r => exact .done r
  | ask may next _ => exact .ask may next
  | read _ ih => exact ih s s
  | write _ ih => exact ih _
  | group _ next memberIH nextIH =>
      rw [settle_group, regroup]
      split
      · exact nextIH _ _
      · exact .group (forall_settleAll memberIH s) next

theorem Asks.answer {p : Program σ ρ κ} (asks : p.Asks own inside) (rs : List Response) (s : σ) :
    (p.answer rs s).1.Asks own inside := by
  induction asks generalizing rs s with
  | done r => exact .done r
  | ask may next _ =>
      cases rs with
      | nil => exact .ask may next
      | cons r _ => exact (next r).settle s
  | read next _ => exact .read next
  | write asks _ => exact .write asks
  | group _ next memberIH _ =>
      rw [answer_group, regroup]
      split
      · exact (next _).settle _
      · exact .group (forall_answerAll memberIH rs s) next

theorem Asks.bind {p : Program σ ρ κ} (asks : p.Asks own inside) {more : ρ → Program σ ρ κ}
    (moreAsks : ∀ r, (more r).Asks own inside) : (p.bind more).Asks own inside := by
  induction asks with
  | done r => exact moreAsks r
  | ask may _ ih => exact .ask may fun r => ih r moreAsks
  | read _ ih => exact .read fun s => ih s moreAsks
  | write _ ih => exact .write (ih moreAsks)
  | group members _ _ ih => exact .group members fun rs => ih rs moreAsks

theorem Asks.asked {p : Program σ ρ κ} (asks : p.Asks own inside)
    (within : ∀ q, inside q → own q) : ∀ q ∈ p.pending, own q := by
  induction asks with
  | done _ => exact fun q asked => by cases asked
  | ask may _ _ =>
      intro q asked
      cases List.mem_singleton.mp asked
      exact may
  | read _ _ => exact fun q asked => by cases asked
  | write _ _ => exact fun q asked => by cases asked
  | group _ _ memberIH _ =>
      intro q asked
      rw [pending, pendingAll_eq_flatMap, List.mem_flatMap] at asked
      rcases asked with ⟨m, member, asked⟩
      exact within q (memberIH m member (fun _ inside => inside) q asked)

/-- Only a program that asks by itself can ask what the members of its groups do not. -/
theorem Asks.silent_or_alone {kind : κ → Bool} {p : Program σ ρ κ}
    (asks : p.Asks own (kind · = false)) :
    p.pending.countP kind = 0 ∨ ∃ q next, p = .ask q next ∧ kind q = true := by
  cases asks with
  | done _ => exact Or.inl rfl
  | @ask _ _ q next _ _ =>
      cases isKind : kind q with
      | true => exact Or.inr ⟨q, next, rfl, isKind⟩
      | false => exact Or.inl (by simp [pending, isKind])
  | read _ => exact Or.inl rfl
  | write _ => exact Or.inl rfl
  | group members _ =>
      refine Or.inl (List.countP_eq_zero.mpr fun q asked => ?_)
      rw [pending, pendingAll_eq_flatMap, List.mem_flatMap] at asked
      rcases asked with ⟨m, member, asked⟩
      exact Bool.eq_false_iff.mp ((members m member).asked (fun _ silent => silent) q asked)

end Program

namespace Discipline

/-- Once an answer to such a request has been dealt with, none is sent any more. -/
structure Once (D : Discipline σ κ) (kind : κ → Bool) (spent : σ → Prop) : Prop where
  stays : ∀ {s s'}, spent s → D.step s s' → spent s'
  spends : ∀ {q r s}, kind q = true → D.allowed q r → D.answered q r s → spent s
  unspent : ∀ {q s}, spent s → D.sent s q → kind q = false

variable {D : Discipline σ κ} {kind : κ → Bool} {spent : σ → Prop}
  {rely : σ → σ → Prop} {post : ρ → σ → Prop}

theorem Run.first_or_later {p : Program σ ρ κ} {s : σ} {c : Course σ ρ κ}
    (run : D.Run rely post p s c) :
    ∀ batch ∈ c.batches, batch = p.pending ∨ batch ∈ c.batches.tail := by
  intro batch member
  cases run with
  | ended _ _ => cases member
  | stopped _ _ _ => exact Or.inl (List.mem_singleton.mp member)
  | exchange _ _ => exact List.mem_cons.mp member

theorem Turn.silent {s : σ} {turn : Program σ ρ κ × σ} (turned : D.Turn rely post s turn)
    (once : D.Once kind spent) (isSpent : spent s) : ∀ q ∈ turn.1.pending, kind q = false := by
  intro q asked
  rcases turned.sent q asked with ⟨s', step, sent, _⟩
  exact once.unspent (once.stays isSpent step) sent

/-- Whatever is sent after the batch at hand has been asked in a spent state. -/
theorem Run.silent {p : Program σ ρ κ} {s : σ} {c : Course σ ρ κ} (run : D.Run rely post p s c)
    (once : D.Once kind spent) (isSpent : spent s) :
    ∀ batch ∈ c.batches.tail, ∀ q ∈ batch, kind q = false := by
  induction run with
  | ended _ _ => exact fun batch member => nomatch member
  | stopped _ _ _ => exact fun batch member => nomatch member
  | exchange exchange later ih =>
      intro batch member
      rcases later.first_or_later batch member with rfl | onward
      · exact exchange.turned.silent once isSpent
      · exact ih (once.stays isSpent exchange.turned.step) batch onward

/-- An exchange that answers such a request spends the state. -/
theorem Exchange.spends {p : Program σ ρ κ} {s : σ} {v : Visit σ}
    (exchange : D.Exchange rely post p s v) (once : D.Once kind spent) {q : κ}
    (asked : q ∈ p.pending) (isKind : kind q = true) :
    spent (p.answer v.responses (v.touch s)).2 := by
  rcases List.getElem_of_mem asked with ⟨i, inside, rfl⟩
  have answered : i < v.responses.length := exchange.sized ▸ inside
  have pair : (p.pending[i], v.responses[i]) ∈ p.pending.zip v.responses := by
    rw [List.mem_iff_getElem]
    exact ⟨i, by rw [List.length_zip]; omega, List.getElem_zip⟩
  exact once.spends isKind (exchange.allows _ pair) (exchange.dealt _ pair)

theorem countP_flatten_eq_zero {batches : List (List κ)}
    (silent : ∀ batch ∈ batches, ∀ q ∈ batch, kind q = false) :
    batches.flatten.countP kind = 0 := by
  rw [List.countP_eq_zero]
  intro q member
  rcases List.mem_flatten.mp member with ⟨batch, sent, asked⟩
  exact Bool.eq_false_iff.mp (silent batch sent q asked)

theorem Run.window {p : Program σ ρ κ} {s : σ} {c : Course σ ρ κ} (run : D.Run rely post p s c)
    (once : D.Once kind spent) :
    ∃ before window after, c.batches = before ++ window ++ after ∧ window.length ≤ 2 ∧
      ∀ batch ∈ before ++ after, ∀ q ∈ batch, kind q = false := by
  induction run with
  | ended _ _ => exact ⟨[], [], [], rfl, Nat.zero_le 2, nofun⟩
  | @stopped p _ _ _ _ _ _ => exact ⟨[], [p.pending], [], rfl, Nat.le_succ 1, nofun⟩
  | @exchange p s v c exchange later ih =>
      by_cases asked : ∃ q ∈ p.pending, kind q = true
      · rcases asked with ⟨q, asked, isKind⟩
        refine ⟨[], p.pending :: c.batches.take 1, c.batches.drop 1, ?_, ?_, ?_⟩
        · rw [List.nil_append, List.cons_append, List.take_append_drop, Course.after_batches]
        · rw [List.length_cons, List.length_take]
          omega
        · rw [List.nil_append, List.drop_one]
          exact later.silent once (exchange.spends once asked isKind)
      · rcases ih with ⟨before, window, after, same, few, others⟩
        refine ⟨p.pending :: before, window, after, ?_, few, List.forall_mem_cons.mpr ⟨?_, others⟩⟩
        · rw [Course.after_batches, same, List.cons_append, List.cons_append]
        · intro q member
          exact Bool.eq_false_iff.mpr fun isKind => asked ⟨q, member, isKind⟩

/-- Such requests are sent in two batches that follow each other, at most. -/
theorem Run.times_window {p : Program σ ρ κ} {s : σ} {c : Course σ ρ κ}
    (run : D.Run rely post p s c) (once : D.Once kind spent) :
    ∃ before window after, c.batches = before ++ window ++ after ∧ window.length ≤ 2 ∧
      c.times kind = window.flatten.countP kind := by
  rcases run.window once with ⟨before, window, after, same, few, silent⟩
  rw [List.forall_mem_append] at silent
  have early : before.flatten.countP kind = 0 := countP_flatten_eq_zero silent.1
  have late : after.flatten.countP kind = 0 := countP_flatten_eq_zero silent.2
  refine ⟨before, window, after, same, few, ?_⟩
  rw [Course.times, same, List.flatten_append, List.flatten_append, List.countP_append,
    List.countP_append, early, late, Nat.zero_add, Nat.add_zero]

/-- A program that asks by itself asks nothing of the kind again behind the answer. -/
theorem Exchange.silent {q : κ} {next : Response → Program σ ρ κ} {s : σ} {v : Visit σ}
    (exchange : D.Exchange rely post (.ask q next) s v) (once : D.Once kind spent)
    (isKind : kind q = true) :
    ∀ q' ∈ ((Program.ask q next).answer v.responses (v.touch s)).1.pending, kind q' = false := by
  rcases List.length_eq_one_iff.mp exchange.sized with ⟨r, same⟩
  have allowed : D.allowed q r := by
    have allows := exchange.allows
    rw [same] at allows
    exact allows (q, r) (List.mem_singleton.mpr rfl)
  cases exchange.waits with
  | ask goesOn =>
      have keeps := goesOn r (v.touch s) allowed exchange.moved exchange.holds
      rw [same]
      intro q' asked
      rcases keeps.sent_paid (fun _ _ => D.answered_stays) exchange.holds q' asked
        with ⟨s', answered, sent⟩
      exact once.unspent (once.spends isKind allowed answered) sent

/-- If no member of a group sends such a request, there is only one of them. -/
theorem Run.times_le_one {p : Program σ ρ κ} {s : σ} {c : Course σ ρ κ}
    (run : D.Run rely post p s c) (once : D.Once kind spent)
    (asks : p.Asks (fun _ => True) (kind · = false)) : c.times kind ≤ 1 := by
  induction run with
  | ended _ _ => exact Nat.zero_le 1
  | stopped _ _ _ =>
      rw [Course.times, List.flatten_singleton]
      rcases asks.silent_or_alone with silent | ⟨q, next, rfl, _⟩
      · exact silent ▸ Nat.zero_le 1
      · exact List.countP_le_length
  | @exchange _ _ _ c exchange later ih =>
      rw [Course.times_after]
      rcases asks.silent_or_alone with silent | ⟨q, next, rfl, isKind⟩
      · rw [silent, Nat.zero_add]
        exact ih (asks.answer _ _)
      · have spends := exchange.spends once (List.mem_singleton.mpr rfl) isKind
        have silent : c.times kind = 0 := by
          apply countP_flatten_eq_zero
          intro batch member
          rcases later.first_or_later batch member with rfl | onward
          · exact exchange.silent once isKind
          · exact later.silent once spends batch onward
        rw [silent]
        exact List.countP_le_length

end Discipline

end RuleAnalysis
