import Mathlib.Control.Monad.Basic
import RuleAnalysis.Proofs.Schedule.Course

namespace RuleAnalysis

/-!
# Batches that are turned away

Responses are counted before anything is done with them. Too many or too few
are turned away, and the task stays as it was: nothing in its channel, in the
channels inside its groups or in what has been buffered for their members has
been touched. All of it rests on one fact about polling. It submits and takes,
and it leaves alone what is in flight. So a task waits for as many responses
as it has sent requests last, whatever its activities are like.
-/

variable {σ ρ κ : Type}

/-! ## What is in flight -/

namespace GroupOf

theorem submitAll_inFlight (g : Group σ ρ κ) (index : Nat) (qs : List κ) (c : Channel κ) :
    (g.submitAll index qs c).2.inFlight = c.inFlight := by
  induction qs generalizing g c with
  | nil => rfl
  | cons q qs ih =>
      rw [submitAll]
      exact ih _ _

theorem step_inFlight (g : Group σ ρ κ) (index : Nat) (resume : Resumption σ ρ κ)
    (rs : List Response) (c : Channel κ) (s : σ) :
    (g.step index resume rs c s).2.1.inFlight = c.inFlight := by
  rw [step]
  rcases resume rs s with ⟨outcome, t, s⟩
  cases outcome with
  | error e => rfl
  | ok step =>
      cases step with
      | done r => rfl
      | pending qs => exact submitAll_inFlight _ index qs c

theorem route_inFlight (resumptions : List (Resumption σ ρ κ))
    (associations : List (Ticket × Nat)) (g : Group σ ρ κ) (c : Channel κ) (s : σ) :
    (route resumptions associations g c s).2.1.inFlight = c.inFlight := by
  induction associations generalizing g c s with
  | nil => rfl
  | cons association rest ih =>
      rcases association with ⟨ticket, index⟩
      have taken : (c.take ticket).2.inFlight = c.inFlight := rfl
      rw [route, ← taken]
      rcases c.take ticket with ⟨response, c'⟩
      cases response with
      | none => rfl
      | some r =>
          simp only
          split
          · next g' rs resume _ _ =>
              have stepped := g'.step_inFlight index resume rs c' s
              rw [← stepped]
              rcases g'.step index resume rs c' s with ⟨outcome, c'', s'⟩
              cases outcome with
              | error e => rfl
              | ok g'' => exact ih g'' c'' s'
          · exact ih _ c' s

/-- Going on from a group leaves alone what is in flight if running its members has. -/
theorem goOn_inFlight {next : Except ProtocolError (List ρ) → Program σ ρ κ}
    (goes : ∀ results c s, ((next results).start c s).2.1.inFlight = c.inFlight) {c : Channel κ}
    {ran : Except ProtocolError (Group σ ρ κ) × Channel κ × σ}
    (kept : ran.2.1.inFlight = c.inFlight) :
    Channel.inFlight (match ran with
      | (.error e, c, s) => (next (.error e)).start c s
      | (.ok g, c, s) =>
          match g.outputs? with
          | some rs => (next (.ok rs)).start c s
          | none => (Progress.waiting (.group g next), c, s)).2.1 = c.inFlight := by
  rcases ran with ⟨outcome, c', s⟩
  rw [← kept]
  cases outcome with
  | error e => exact goes (.error e) c' s
  | ok g =>
      simp only
      cases g.outputs? with
      | none => rfl
      | some rs => exact goes (.ok rs) c' s

end GroupOf

theorem Program.startAll_inFlight (ps : List (Program σ ρ κ)) (g : Group σ ρ κ) (c : Channel κ)
    (s : σ) : (startAll ps g c s).2.1.inFlight = c.inFlight := by
  induction ps generalizing g c s with
  | nil => rfl
  | cons p rest ih =>
      rw [startAll]
      split
      · next stepped => rw [← GroupOf.step_inFlight _ _ _ [] c s, stepped]
      · next stepped => rw [ih, ← GroupOf.step_inFlight _ _ _ [] c s, stepped]

theorem Program.start_inFlight : ∀ (p : Program σ ρ κ) (c : Channel κ) (s : σ),
    (p.start c s).2.1.inFlight = c.inFlight
  | done _, _, _ => rfl
  | stall, _, _ => rfl
  | ask _ _, _, _ => rfl
  | read next, c, s => start_inFlight (next s) c s
  | write s next, c, _ => start_inFlight next c s
  | group members next, c, s => by
      rw [start]
      exact GroupOf.goOn_inFlight (fun results => start_inFlight (next results))
        (startAll_inFlight members GroupOf.empty c s)

/-- Whatever an activity does when it is polled, its task still waits for what it has sent. -/
theorem Activity.poll_inFlight (activity : Activity σ ρ κ) (c : Channel κ) (s : σ) :
    (activity.poll c s).2.1.inFlight = c.inFlight := by
  cases activity with
  | fresh p =>
      rw [poll]
      exact p.start_inFlight c s
  | stalled => rw [poll]
  | call ticket next =>
      have taken : (c.take ticket).2.inFlight = c.inFlight := rfl
      rw [poll, ← taken]
      simp only
      rcases c.take ticket with ⟨response, c'⟩
      cases response with
      | none => rfl
      | some r => exact (next r).start_inFlight c' s
  | group g next =>
      rcases g with ⟨members, associations⟩
      rw [poll]
      exact GroupOf.goOn_inFlight (fun results => (next results).start_inFlight)
        (GroupOf.route_inFlight (resumptions members) associations ⟨members, []⟩ c s)

/-! ## One resumption -/

namespace TaskOf

/-- The task has not finished, and that many responses are to come next. -/
inductive Awaits : Task σ ρ κ → Nat → Prop
  | intro (activity : Activity σ ρ κ) {c : Channel κ} {count : Nat} : c.inFlight.length = count →
      Awaits ⟨some activity, c⟩ count

theorem awaits_ofProgram (p : Program σ ρ κ) : (ofProgram p).Awaits 0 := .intro (.fresh p) rfl

theorem conclude_ne_responseCount (progress : Progress σ ρ κ) (c : Channel κ)
    (expected actual : Nat) :
    (conclude progress c).1 ≠ .error (.responseCount expected actual) := by
  cases progress with
  | finished r =>
      intro miscounted
      cases miscounted
  | waiting rest =>
      rw [conclude]
      rcases c.flush with ⟨_ | ⟨q, qs⟩, c'⟩
      all_goals
        intro miscounted
        cases miscounted

/-- Only a batch that is miscounted is answered with its count, and it leaves everything as it
was. -/
theorem unchanged_of_responseCount {t t' : Task σ ρ κ} {rs : List Response} {s s' : σ}
    {expected actual : Nat}
    (resumed : t.resume rs s = (.error (.responseCount expected actual), t', s')) :
    t' = t ∧ s' = s := by
  rcases t with ⟨_ | activity, c⟩
  · cases resumed
  · simp only [resume, resumeBy] at resumed
    cases delivered : c.deliver rs with
    | error e =>
        rw [delivered] at resumed
        cases resumed
        exact ⟨rfl, rfl⟩
    | ok c' =>
        rw [delivered] at resumed
        exact absurd (congrArg Prod.fst resumed) (conclude_ne_responseCount _ _ _ _)

theorem resume_of_isFinished {t : Task σ ρ κ} (finished : t.isFinished = true)
    (rs : List Response) (s : σ) : t.resume rs s = (.error .finished, t, s) := by
  rcases t with ⟨_ | activity, c⟩
  · rfl
  · cases finished

theorem Awaits.resume_missized {t : Task σ ρ κ} {count : Nat} (awaits : t.Awaits count)
    {rs : List Response} (missized : rs.length ≠ count) (s : σ) :
    t.resume rs s = (.error (.responseCount count rs.length), t, s) := by
  cases awaits with
  | intro activity sent =>
      subst sent
      simp only [resume, resumeBy, Channel.deliver, if_neg missized]

/-- What a task comes to when it is resumed with as many responses as it waits for. -/
inductive Resumed : Except ProtocolError (Step ρ κ) × Task σ ρ κ × σ → Prop
  | done (r : ρ) {t : Task σ ρ κ} (s : σ) : t.isFinished = true → Resumed (.ok (.done r), t, s)
  | pending (qs : List κ) {t : Task σ ρ κ} (s : σ) : t.Awaits qs.length →
      Resumed (.ok (.pending qs), t, s)
  | stalled {t : Task σ ρ κ} (s : σ) : t.Awaits 0 → Resumed (.error .stalled, t, s)

theorem resumed_conclude (progress : Progress σ ρ κ) {c : Channel κ} (nothing : c.inFlight = [])
    (s : σ) : Resumed ((conclude progress c).1, (conclude progress c).2, s) := by
  cases progress with
  | finished r => exact .done r s rfl
  | waiting rest =>
      have sent : c.flush.2.inFlight.length = c.flush.1.length := by
        simp [Channel.flush, nothing]
      rw [conclude]
      generalize c.flush = flushed at sent
      rcases flushed with ⟨_ | ⟨q, qs⟩, c'⟩
      · exact .stalled s (.intro rest sent)
      · exact .pending (q :: qs) s (.intro rest sent)

theorem Awaits.resume_sized {t : Task σ ρ κ} {count : Nat} (awaits : t.Awaits count)
    {rs : List Response} (sized : rs.length = count) (s : σ) : Resumed (t.resume rs s) := by
  cases awaits with
  | @intro activity c _ sent =>
      simp only [resume, resumeBy, Channel.deliver, if_pos (sized.trans sent.symm)]
      exact resumed_conclude _ (activity.poll_inFlight _ s) _

end TaskOf

/-! ## Histories -/

/-- What happens to a task: it is resumed, or its state is touched from outside. -/
inductive Happening (σ : Type) where
  | resumed (responses : List Response)
  | touched (change : σ → σ)

/-- What has happened, and what was answered. -/
inductive Event (σ ρ κ : Type) where
  | resumed (responses : List Response) (answer : Except ProtocolError (Step ρ κ))
  | touched (change : σ → σ)

namespace Event

/-- What has happened, apart from the answer. -/
def happening : Event σ ρ κ → Happening σ
  | resumed rs _ => .resumed rs
  | touched change => .touched change

/-- The batch was miscounted. -/
def turnedAway : Event σ ρ κ → Bool
  | resumed _ (.error (.responseCount ..)) => true
  | _ => false

theorem turnedAway_resumed {rs : List Response} {answer : Except ProtocolError (Step ρ κ)} :
    (resumed rs answer : Event σ ρ κ).turnedAway = true ↔
      ∃ expected actual, answer = .error (.responseCount expected actual) := by
  constructor
  · intro away
    unfold turnedAway at away
    split at away
    · next same =>
        cases same
        exact ⟨_, _, rfl⟩
    · cases away
  · rintro ⟨expected, actual, rfl⟩
    rfl

def answer? : Event σ ρ κ → Option (Except ProtocolError (Step ρ κ))
  | resumed _ answer => some answer
  | touched _ => none

end Event

/-- The events with what is there behind them. -/
structure History (τ σ ρ κ : Type) where
  events : List (Event σ ρ κ)
  last : τ
  state : σ

namespace History

variable {τ : Type}

def after (e : Event σ ρ κ) (h : History τ σ ρ κ) : History τ σ ρ κ :=
  { h with events := e :: h.events }

theorem after_events (e : Event σ ρ κ) (h : History τ σ ρ κ) :
    (h.after e).events = e :: h.events := rfl

/-- The history of whatever can be resumed. -/
def of (resume : τ → List Response → σ → Except ProtocolError (Step ρ κ) × τ × σ) :
    τ → σ → List (Happening σ) → History τ σ ρ κ
  | t, s, [] => ⟨[], t, s⟩
  | t, s, .touched change :: rest => (of resume t (change s) rest).after (.touched change)
  | t, s, .resumed rs :: rest =>
      let (answer, t, s) := resume t rs s
      (of resume t s rest).after (.resumed rs answer)

/-- What the resumptions were answered with. -/
def answers (h : History τ σ ρ κ) : List (Except ProtocolError (Step ρ κ)) :=
  h.events.filterMap Event.answer?

/-- How many requests were sent last behind an answer, given how many were before. -/
def sentBehind (before : Nat) : Except ProtocolError (Step ρ κ) → Nat
  | .ok (.pending qs) => qs.length
  | .error (.responseCount ..) => before
  | _ => 0

/-- How many requests were sent last. It is none if nothing has been resumed yet. -/
def sentLast (h : History τ σ ρ κ) : Nat := h.answers.foldl sentBehind 0

/-- A result has been come to. -/
def Done (h : History τ σ ρ κ) : Prop := ∃ r, .ok (.done r) ∈ h.answers

/-- The history without the batches that were turned away. -/
def heard (h : History τ σ ρ κ) : History τ σ ρ κ :=
  { h with events := h.events.filter fun e => !e.turnedAway }

theorem heard_after (e : Event σ ρ κ) (h : History τ σ ρ κ) :
    (h.after e).heard = if e.turnedAway then h.heard else h.heard.after e := by
  cases away : e.turnedAway <;> simp [after, heard, away]

variable {resume : τ → List Response → σ → Except ProtocolError (Step ρ κ) × τ × σ}

theorem of_resumed {t t' : τ} {rs : List Response} {s s' : σ}
    {answer : Except ProtocolError (Step ρ κ)} (resumed : resume t rs s = (answer, t', s'))
    (rest : List (Happening σ)) :
    of resume t s (.resumed rs :: rest) = (of resume t' s' rest).after (.resumed rs answer) := by
  rw [of, resumed]

/-- Where a batch that is turned away changes nothing, it can as well be left out, however many
there are and wherever they come. -/
theorem of_heard (unchanged : ∀ {t t' rs s s' expected actual},
      resume t rs s = (.error (.responseCount expected actual), t', s') → t' = t ∧ s' = s)
    (t : τ) (s : σ) (happenings : List (Happening σ)) :
    of resume t s ((of resume t s happenings).heard.events.map Event.happening) =
      (of resume t s happenings).heard := by
  induction happenings generalizing t s with
  | nil => rfl
  | cons h rest ih =>
      cases h with
      | touched change => exact congrArg (after (.touched change)) (ih t (change s))
      | resumed rs =>
          rcases resumed : resume t rs s with ⟨answer, t', s'⟩
          rw [of_resumed resumed, heard_after]
          cases away : (Event.resumed rs answer : Event σ ρ κ).turnedAway with
          | true =>
              rcases Event.turnedAway_resumed.mp away with ⟨expected, actual, rfl⟩
              rcases unchanged resumed with ⟨rfl, rfl⟩
              exact ih t' s'
          | false =>
              change of resume t s (.resumed rs :: _) = (of resume t' s' rest).heard.after _
              rw [of_resumed resumed, ih]

end History

/-! ## What a task waits for -/

namespace TaskOf

/-- The task has finished if its history has come to a result, and otherwise it waits for as many
responses as requests were sent last. -/
def Stands (count : Nat) (h : History (Task σ ρ κ) σ ρ κ) : Prop :=
  (h.Done ∧ h.last.isFinished = true) ∨
    (¬ h.Done ∧ h.last.Awaits (h.answers.foldl History.sentBehind count))

theorem Stands.after {h : History (Task σ ρ κ) σ ρ κ} {rs : List Response}
    {answer : Except ProtocolError (Step ρ κ)} {count : Nat}
    (stands : Stands (History.sentBehind count answer) h) (goes : ∀ r, answer ≠ .ok (.done r)) :
    Stands count (h.after (.resumed rs answer)) := by
  have same : (h.after (.resumed rs answer)).Done ↔ h.Done := by
    constructor
    · rintro ⟨r, member⟩
      rcases List.mem_cons.mp member with here | later
      · exact absurd here.symm (goes r)
      · exact ⟨r, later⟩
    · rintro ⟨r, member⟩
      exact ⟨r, List.mem_cons_of_mem _ member⟩
  rcases stands with ⟨done, finished⟩ | ⟨undone, awaits⟩
  · exact .inl ⟨same.mpr done, finished⟩
  · exact .inr ⟨mt same.mp undone, awaits⟩

theorem last_of_isFinished {t : Task σ ρ κ} (finished : t.isFinished = true) (s : σ)
    (happenings : List (Happening σ)) : (History.of resume t s happenings).last = t := by
  induction happenings generalizing s with
  | nil => rfl
  | cons h rest ih =>
      cases h with
      | touched change => exact ih (change s)
      | resumed rs =>
          rw [History.of_resumed (resume_of_isFinished finished rs s)]
          exact ih s

theorem Awaits.stands {t : Task σ ρ κ} {count : Nat} (awaits : t.Awaits count) (s : σ)
    (happenings : List (Happening σ)) : Stands count (History.of resume t s happenings) := by
  induction happenings generalizing t count s with
  | nil => exact .inr ⟨nofun, awaits⟩
  | cons h rest ih =>
      cases h with
      | touched change => exact ih awaits (change s)
      | resumed rs =>
          by_cases sized : rs.length = count
          · have resumed := awaits.resume_sized sized s
            rcases answered : t.resume rs s with ⟨answer, t', s'⟩
            rw [answered] at resumed
            rw [History.of_resumed answered]
            cases resumed with
            | done r _ finished =>
                refine .inl ⟨⟨r, List.mem_cons_self⟩, ?_⟩
                exact (congrArg isFinished (last_of_isFinished finished s' rest)).trans finished
            | pending qs _ awaits =>
                refine Stands.after ?_ nofun
                exact ih awaits s'
            | stalled _ awaits =>
                refine Stands.after ?_ nofun
                exact ih awaits s'
          · rw [History.of_resumed (awaits.resume_missized sized s)]
            refine Stands.after ?_ nofun
            exact ih awaits s

end TaskOf

/-! ## Responses by position -/

namespace Program

mutual

/-- The calls of a settled program go on with the responses at the positions of their requests,
which are counted from the position of the first. -/
def supply (rs : List Response) : Nat → Program σ ρ κ → Program σ ρ κ
  | i, ask q next =>
      match rs[i]? with
      | some r => next r
      | none => ask q next
  | i, group members next => group (supplyAll rs i members) next
  | _, p => p

def supplyAll (rs : List Response) : Nat → List (Program σ ρ κ) → List (Program σ ρ κ)
  | _, [] => []
  | i, member :: rest => member.supply rs i :: supplyAll rs (i + member.pending.length) rest

end

variable {rs : List Response}

/-- Members that are supplied one after another are answered with their shares. -/
theorem answerAll_eq_settleAll {members : List (Program σ ρ κ)}
    (each : ∀ m ∈ members, ∀ i s, i + m.pending.length ≤ rs.length →
      m.answer ((rs.drop i).take m.pending.length) s = (m.supply rs i).settle s)
    (i : Nat) (s : σ) (enough : i + (pendingAll members).length ≤ rs.length) :
    answerAll members ((rs.drop i).take (pendingAll members).length) s =
      settleAll (supplyAll rs i members) s := by
  induction members generalizing i s with
  | nil => rw [answerAll_nil, supplyAll, settleAll_nil]
  | cons m rest ih =>
      rw [pendingAll, List.length_append] at enough
      have share : ((rs.drop i).take m.pending.length).length = m.pending.length := by
        rw [List.length_take, List.length_drop]
        omega
      have mine := each m List.mem_cons_self i s (by omega)
      have others := ih (fun m member => each m (List.mem_cons_of_mem _ member))
        (i + m.pending.length) ((m.supply rs i).settle s).2 (by omega)
      rw [pendingAll, List.length_append, List.take_add, List.drop_drop,
        answerAll_cons m rest share, supplyAll, settleAll_cons, mine, others]

/-- To be answered is to be supplied by position and to go on. -/
theorem AtRest.answer_eq_settle {p : Program σ ρ κ} (rests : p.AtRest) (i : Nat) (s : σ)
    (enough : i + p.pending.length ≤ rs.length) :
    p.answer ((rs.drop i).take p.pending.length) s = (p.supply rs i).settle s := by
  induction rests generalizing i s with
  | done r => rfl
  | ask q next =>
      have here : i < rs.length := enough
      have share : (rs.drop i).take (Program.ask q next).pending.length = [rs[i]] := by
        rw [List.drop_eq_getElem_cons here]
        rfl
      rw [share, Program.answer, supply, List.getElem?_eq_getElem here]
  | @group members next _ _ memberIH =>
      rw [pending] at enough ⊢
      rw [answer_group, answerAll_eq_settleAll memberIH i s enough, supply, settle_group]

/-- What a settled program is waiting for, or has come to. -/
def report : Program σ ρ κ → Step ρ κ
  | done r => .done r
  | p => .pending p.pending

theorem report_of_pending {p : Program σ ρ κ} (asks : p.pending ≠ []) :
    p.report = .pending p.pending := by
  cases p with
  | done r => exact absurd rfl asks
  | _ => rfl

/-- One exchange of a settled program: responses are counted and then supplied by position. -/
def exchange (p : Program σ ρ κ) (rs : List Response) (s : σ) :
    Except ProtocolError (Step ρ κ) × Program σ ρ κ × σ :=
  match p with
  | done r => (.error .finished, done r, s)
  | p =>
      if rs.length = p.pending.length then
        let (p, s) := (p.supply rs 0).settle s
        (.ok p.report, p, s)
      else (.error (.responseCount p.pending.length rs.length), p, s)

theorem exchange_sized {p : Program σ ρ κ} (asks : p.pending ≠ [])
    (sized : rs.length = p.pending.length) (s : σ) :
    p.exchange rs s = (.ok ((p.supply rs 0).settle s).1.report, (p.supply rs 0).settle s) := by
  cases p with
  | done r => exact absurd rfl asks
  | _ => exact if_pos sized

theorem exchange_missized {p : Program σ ρ κ} (asks : p.pending ≠ [])
    (missized : rs.length ≠ p.pending.length) (s : σ) :
    p.exchange rs s = (.error (.responseCount p.pending.length rs.length), p, s) := by
  cases p with
  | done r => exact absurd rfl asks
  | _ => exact if_neg missized

end Program

/-! ## Tasks exchange as their programs do -/

/-- Two that are resumed alike are answered alike, whatever happens to them. -/
theorem History.of_alike {τ τ' : Type} {alike : τ → τ' → Prop}
    {resume : τ → List Response → σ → Except ProtocolError (Step ρ κ) × τ × σ}
    {resume' : τ' → List Response → σ → Except ProtocolError (Step ρ κ) × τ' × σ}
    (step : ∀ {t t'}, alike t t' → ∀ rs s, ∃ answer after after' s',
      resume t rs s = (answer, after, s') ∧ resume' t' rs s = (answer, after', s') ∧
        alike after after')
    {t : τ} {t' : τ'} (same : alike t t') (s : σ) (happenings : List (Happening σ)) :
    (of resume t s happenings).events = (of resume' t' s happenings).events ∧
      (of resume t s happenings).state = (of resume' t' s happenings).state := by
  induction happenings generalizing t t' s with
  | nil => exact ⟨rfl, rfl⟩
  | cons h rest ih =>
      cases h with
      | touched change =>
          rcases ih same (change s) with ⟨events, state⟩
          rw [of, of, after_events, after_events, events]
          exact ⟨rfl, state⟩
      | resumed rs =>
          rcases step same rs s with ⟨answer, after, after', s', resumed, resumed', same⟩
          rcases ih same s' with ⟨events, state⟩
          rw [of_resumed resumed, of_resumed resumed', after_events, after_events, events]
          exact ⟨rfl, state⟩

namespace TaskOf

/-- A task that has not been resumed yet, waits for answers to a settled program, or has finished. A
program that has not begun stands behind a read: it has no requests, and is as it will be then. -/
inductive Follows : Task σ ρ κ → Program σ ρ κ → Prop
  | fresh {p : Program σ ρ κ} : p.Live → Follows (ofProgram p) (.read fun _ => p)
  | waiting {t : Task σ ρ κ} {p : Program σ ρ κ} : t.StandsFor p → p.Live → p.AtRest → Follows t p
  | finished {t : Task σ ρ κ} (r : ρ) : t.isFinished = true → Follows t (.done r)

theorem follows_of_carries {resumed : Except ProtocolError (Step ρ κ) × Task σ ρ κ × σ}
    {turn : Program σ ρ κ × σ} (carries : Resumption.Carries resumed turn) (live : turn.1.Live)
    (rests : turn.1.AtRest) :
    ∃ t, resumed = (.ok turn.1.report, t, turn.2) ∧ Follows t turn.1 := by
  cases carries with
  | done r c s => exact ⟨⟨none, c⟩, rfl, .finished r rfl⟩
  | @pending t p s stands =>
      rw [Program.report_of_pending stands.pending_ne_nil]
      exact ⟨t, rfl, .waiting stands live rests⟩

theorem Follows.step {t : Task σ ρ κ} {p : Program σ ρ κ} (follows : Follows t p)
    (rs : List Response) (s : σ) :
    ∃ answer t' p' s', t.resume rs s = (answer, t', s') ∧ p.exchange rs s = (answer, p', s') ∧
      Follows t' p' := by
  cases follows with
  | @fresh p live =>
      by_cases sized : rs.length = 0
      · rcases List.length_eq_zero_iff.mp sized with rfl
        rcases follows_of_carries (resume_ofProgram live s) (live.settle s) (live.atRest s) with
          ⟨t', resumed, follows⟩
        exact ⟨_, _, _, _, resumed, rfl, follows⟩
      · exact ⟨_, _, _, _, (awaits_ofProgram p).resume_missized sized s, if_neg sized,
          .fresh live⟩
  | waiting stands live rests =>
      have asks := stands.pending_ne_nil
      by_cases sized : rs.length = p.pending.length
      · have supplied : p.answer ((rs.drop 0).take p.pending.length) s =
            (p.supply rs 0).settle s := rests.answer_eq_settle 0 s (by omega)
        rw [List.drop_zero, ← sized, List.take_length] at supplied
        have carries := stands.resume live sized s
        have goes := follows_of_carries carries (live.answer rs s) (rests.answer live rs s)
        rw [supplied] at goes
        rcases goes with ⟨t', resumed, follows⟩
        exact ⟨_, _, _, _, resumed, Program.exchange_sized asks sized s, follows⟩
      · exact ⟨_, _, _, _, stands.resume_missized sized s,
          Program.exchange_missized asks sized s, .waiting stands live rests⟩
  | finished r finished =>
      exact ⟨_, _, _, _, resume_of_isFinished finished rs s, rfl, .finished r finished⟩

/-- A batch that is turned away costs nothing. Whatever has happened to a task, a batch that does
not count what was sent last is answered with both numbers and leaves everything as it is, and once
a result has been come to every batch is answered with that. All batches that were turned away can
be left out, and the rest of the history, what the task has come to and the state stay the same. A
task that has only calls and groups to wait for is answered, all along, as its program is when
responses are counted and each call goes on with the one at the position of its request. -/
theorem miscounted_batches_cost_nothing (p : Program σ ρ κ) (s : σ)
    (happenings : List (Happening σ)) :
    let h := History.of resume (ofProgram p) s happenings
    (¬ h.Done → ∀ rs s', rs.length ≠ h.sentLast →
      h.last.resume rs s' = (.error (.responseCount h.sentLast rs.length), h.last, s')) ∧
    History.of resume (ofProgram p) s (h.heard.events.map Event.happening) = h.heard ∧
    (h.Done → ∀ rs s', h.last.resume rs s' = (.error .finished, h.last, s')) ∧
    (p.Live →
      let direct := History.of Program.exchange (.read fun _ => p) s happenings
      h.events = direct.events ∧ h.state = direct.state) := by
  intro h
  have stands : Stands 0 h := (awaits_ofProgram p).stands s happenings
  refine ⟨?_, History.of_heard unchanged_of_responseCount _ s happenings, ?_, ?_⟩
  · intro undone rs s' missized
    rcases stands with ⟨done, _⟩ | ⟨_, awaits⟩
    · exact absurd done undone
    · exact awaits.resume_missized missized s'
  · intro done rs s'
    rcases stands with ⟨_, finished⟩ | ⟨undone, _⟩
    · exact resume_of_isFinished finished rs s'
    · exact absurd done undone
  · intro live
    exact History.of_alike Follows.step (.fresh live) s happenings

/-! ## A group inside a group

One member asks once. The other is a group of its own, in which a member asks twice.
-/

namespace Nested

deriving instance DecidableEq for Step

def call (q : Nat) : Program Unit (List Response) Nat := .ask q fun r => .done [r]

def join : Except ProtocolError (List (List Response)) → Program Unit (List Response) Nat
  | .ok results => .done results.flatten
  | .error _ => .stall

def program : Program Unit (List Response) Nat :=
  .group [call 1, .group [.ask 2 fun _ => call 4, call 3] join] join

theorem live : program.Live := by
  have calls : ∀ q, (call q).Live := fun q => .ask fun r => .done [r]
  have joins : ∀ results, (join (.ok results)).Live := fun results => .done results.flatten
  refine .group ?_ joins
  simp only [List.forall_mem_cons]
  refine ⟨calls 1, .group ?_ joins, nofun⟩
  simp only [List.forall_mem_cons]
  exact ⟨.ask fun _ => calls 4, calls 3, nofun⟩

/-- A response comes before anything has been asked, and then three requests are sent. -/
def early : List (Happening Unit) := [.resumed [.none], .resumed []]

/-- Two responses are too few for three requests, and none is too few for one. -/
def late : List (Happening Unit) :=
  early ++ [.resumed [.none, .none], .resumed [.boolean true, .none, .boolean false],
    .resumed [], .resumed [.none]]

abbrev history (happenings : List (Happening Unit)) :
    History (Task Unit (List Response) Nat) Unit (List Response) Nat :=
  .of resume (ofProgram program) () happenings

end Nested

open Nested in
/-- Three batches are turned away on the way, and the result is as if they had never come. -/
theorem miscounted_batches_cost_nothing_nested :
    (∀ rs, rs.length ≠ 3 → (history early).last.resume rs () =
      (.error (.responseCount 3 rs.length), (history early).last, ())) ∧
    history ((history late).heard.events.map Event.happening) = (history late).heard ∧
    (history late).heard.answers =
      [.ok (.pending [1, 2, 3]), .ok (.pending [4]),
        .ok (.done [.boolean true, .none, .boolean false])] ∧
    (∀ rs, (history late).last.resume rs () = (.error .finished, (history late).last, ())) ∧
    (history late).events =
      (History.of Program.exchange (.read fun _ => program) () late).events := by
  rcases miscounted_batches_cost_nothing program () early with ⟨refused, _⟩
  rcases miscounted_batches_cost_nothing program () late with ⟨_, leftOut, finished, direct⟩
  have waiting : (history early).answers =
      [.error (.responseCount 0 1), .ok (.pending [1, 2, 3])] := by decide +kernel
  have ended : (history late).answers.getLast? =
      some (.ok (.done [.boolean true, .none, .boolean false])) := by decide +kernel
  have undone : ¬ (history early).Done := by
    rintro ⟨r, member⟩
    rw [waiting] at member
    simp at member
  have sent : (history early).sentLast = 3 := by
    rw [History.sentLast, waiting]
    rfl
  have done : (history late).Done := ⟨_, List.mem_of_getLast? ended⟩
  rw [sent] at refused
  exact ⟨fun rs missized => refused undone rs () missized, leftOut, by decide +kernel,
    fun rs => finished done rs (), (direct live).1⟩

end TaskOf

end RuleAnalysis
