import RuleAnalysis.Proofs.Analysis.Phases
import RuleAnalysis.Proofs.Success
import RuleAnalysis.Session.Server

namespace RuleAnalysis

/-!
# Sequences of calls

A host calls a server in any order it likes. A call that is refused leaves no
trace. What is answered behind the start of a target does not depend on what
was going on before. A session lasts as long as its steps end with requests, and
while it lasts its phase only moves forward.
-/

variable {ν : Type}

/-! ## The steps of a session -/

/-- The ways in which a step ends its session. -/
inductive SessionOutcome.Ends : Except SessionError SessionOutcome → Prop
  | done (analysis : Analysis) : Ends (.ok (.done analysis))
  | failed (e : AnalysisError) : Ends (.error (.analysis e))
  | miscounted (expected actual : Nat) : Ends (.error (.protocol (.responseCount expected actual)))

/-- The first batch for a task answers nothing. Any other is turned away. -/
theorem TaskOf.resume_ofProgram_missized {σ ρ κ : Type} (p : Program σ ρ κ) {rs : List Response}
    (answers : rs ≠ []) (s : σ) :
    (ofProgram p).resume rs s = (.error (.responseCount 0 rs.length), ofProgram p, s) := by
  have missized : rs.length ≠ 0 := mt List.length_eq_zero_iff.mp answers
  simp [resume, ofProgram, resumeBy, Channel.deliver, Channel.empty, missized]

namespace Session

/-- A session that can come about: its target has just been instantiated, or it waits for answers. -/
inductive Sound : Session ν → Prop
  | fresh (rule : Rule ν) {desk : Desk ν} : desk.context.phase = .instantiated →
      Sound ⟨.ofProgram rule.analysis, desk⟩
  | waiting {task : Task (Desk ν) Outcome} {p : AnalysisProgram ν} {desk : Desk ν} :
      task.StandsFor p → p.Live →
      p.Moves (fun desk => desk.context.phase) (· ≤ ·) desk.context.phase → Sound ⟨task, desk⟩

/-- What a step of a session has come to: requests, and the session goes on from a phase that is not
behind the one before, or one of the ends. -/
inductive Stepped (before : Phase) :
    Except SessionError SessionOutcome × Option (Session ν) → Prop
  | requests (qs : List Request) {session : Session ν} : session.Sound →
      before ≤ session.desk.context.phase → Stepped before (.ok (.requests qs), some session)
  | ended {outcome : Except SessionError SessionOutcome} : SessionOutcome.Ends outcome →
      Stepped before (outcome, none)

theorem Stepped.goesOn {before : Phase} {outcome : Except SessionError SessionOutcome}
    {session : Session ν} (stepped : Stepped before (outcome, some session)) :
    session.Sound ∧ before ≤ session.desk.context.phase := by
  cases stepped with
  | requests _ sound further => exact ⟨sound, further⟩

variable {session : Session ν} {event : SessionEvent} {files : OpenFiles}

/-- A step does what the program does in its turn. -/
theorem stepped_of_carries {turn : AnalysisProgram ν × Desk ν} {before : Phase}
    (carries : Resumption.Carries
      (session.task.resume event.answers { session.desk with files := files }) turn)
    (live : turn.1.Live)
    (moved : Program.Moved (fun desk => desk.context.phase) (· ≤ ·) before turn) :
    Stepped before (session.advance event files) := by
  unfold advance
  generalize session.task.resume event.answers { session.desk with files := files } = resumed
    at carries
  cases carries with
  | done r c desk =>
      cases r with
      | ok v => exact .ended (.done _)
      | error e => exact .ended (.failed e)
  | pending desk stands => exact .requests _ (.waiting stands live moved.moves) moved.moved

/-- Responses that are too many or too few end a session. -/
theorem stepped_of_missized {before : Phase} {expected : Nat} {task : Task (Desk ν) Outcome}
    {desk : Desk ν}
    (resumed : session.task.resume event.answers { session.desk with files := files } =
      (.error (.responseCount expected event.answers.length), task, desk)) :
    Stepped before (session.advance event files) := by
  unfold advance
  rw [resumed]
  exact .ended (.miscounted _ _)

theorem Sound.advance (sound : session.Sound) (event : SessionEvent) (files : OpenFiles) :
    Stepped session.desk.context.phase (session.advance event files) := by
  cases sound with
  | @fresh rule desk instantiated =>
      -- Nothing has been asked yet: only an event without answers runs the analysis.
      by_cases nothing : event.answers = []
      · have carries := TaskOf.resume_ofProgram rule.live { desk with files := files }
        rw [← nothing] at carries
        have moved := rule.moves_phase.settle Phase.onward (s := { desk with files := files })
          instantiated
        rw [← instantiated] at moved
        exact stepped_of_carries carries (rule.live.settle _) moved
      · exact stepped_of_missized (TaskOf.resume_ofProgram_missized _ nothing _)
  | @waiting task p desk stands live moves =>
      by_cases sized : event.answers.length = p.pending.length
      · have carries := stands.resume live sized { desk with files := files }
        have moved := moves.answer Phase.onward event.answers (s := { desk with files := files }) rfl
        exact stepped_of_carries carries (live.answer _ _) moved
      · exact stepped_of_missized (stands.resume_missized sized _)

theorem Sound.ofTarget {rule : Rule ν} {target : TargetText}
    (started : Session.ofTarget rule target = .ok session) : session.Sound := by
  obtain ⟨l, _, started⟩ := Success.bind_eq_ok_iff.mp started
  obtain ⟨attributes, _, started⟩ := Success.bind_eq_ok_iff.mp started
  obtain ⟨config, _, started⟩ := Success.bind_eq_ok_iff.mp started
  obtain ⟨invocation, _, started⟩ := Success.bind_eq_ok_iff.mp started
  cases started
  exact .fresh rule rfl

end Session

/-! ## Calls and replies -/

/-- What a host may do to a server: it calls it, or opens a descriptor for it. -/
inductive Call where
  | start (source rule : String) (target : TargetText)
  | advance (event : SessionEvent)
  | advanceText (event : String)
  | handOver (fileno : Int) (bytes : List UInt8)

/-- What a call is answered. -/
inductive Reply where
  | started (outcome : Except SessionError Unit)
  | stepped (outcome : Except SessionError SessionOutcome)
  | told (outcome : Except SessionError String)
  /-- A descriptor that has been handed over is not answered. -/
  | nothing

/-- The event that a call brings, if it brings one that can be decoded. -/
def Call.event? : Call → Option SessionEvent
  | advance event => some event
  | advanceText event => (Decoder.text SessionEvent.decode event).toOption
  | _ => none

def Reply.error? : Reply → Option SessionError
  | started (.error e) => some e
  | stepped (.error e) => some e
  | told (.error e) => some e
  | _ => none

namespace Server

def call (server : Server ν) : Call → Reply × Server ν
  | .start source rule target =>
      let (outcome, server) := server.start source rule target
      (.started outcome, server)
  | .advance event =>
      let (outcome, server) := server.advance event
      (.stepped outcome, server)
  | .advanceText event =>
      let (outcome, server) := server.advanceText event
      (.told outcome, server)
  | .handOver fileno bytes => (.nothing, server.handOver fileno bytes)

/-- The replies to calls, each with the phase that is reported behind it. -/
def replies (server : Server ν) : List Call → List (Reply × Option Phase)
  | [] => []
  | c :: rest => ((server.call c).1, (server.call c).2.phase?) :: (server.call c).2.replies rest

def after (server : Server ν) : List Call → Server ν
  | [] => server
  | c :: rest => (server.call c).2.after rest

/-- None of the calls starts a target. -/
def Continues (server : Server ν) (calls : List Call) : Prop :=
  ∀ reply ∈ server.replies calls, reply.1 ≠ .started (.ok ())

/-- The call is refused before it reaches a session: a target that cannot be started, or an event
that cannot be decoded. -/
def Refuses (server : Server ν) : Call → Prop
  | .start source rule target => ∃ e, (server.start source rule target).1 = .error e
  | .advanceText event => ∃ fault, Decoder.text SessionEvent.decode event = .error fault
  | _ => False

/-- Until a target is started, every event is answered that there is no session, and no phase is
reported. -/
def Idle (server : Server ν) : Prop :=
  ∀ calls, server.Continues calls →
    List.Forall₂ (fun (c : Call) (reply : Reply × Option Phase) =>
      (c.event?.isSome → reply.1.error? = some .noActiveSession) ∧ reply.2 = none)
      calls (server.replies calls)

/-- The phases that are reported now and behind the calls. -/
def phases (server : Server ν) (calls : List Call) : List Phase :=
  (server.phase? :: (server.replies calls).map Prod.snd).reduceOption

/-- Whatever session is in progress can have come about. -/
def Sound (server : Server ν) : Prop :=
  ∀ session, server.session = some session → session.Sound

variable {server : Server ν}

/-! ## What one call does -/

theorem start_cases (server : Server ν) (source rule : String) (target : TargetText) :
    (∃ session : Session ν, session.Sound ∧
        server.start source rule target = (.ok (), { server with session := some session })) ∨
      ∃ e, server.start source rule target = (.error e, server) := by
  unfold start
  cases found : server.findRule source rule >>= fun rule => Session.ofTarget rule target with
  | error e => exact .inr ⟨e, rfl⟩
  | ok session =>
      obtain ⟨rule, _, started⟩ := Success.bind_eq_ok_iff.mp found
      exact .inl ⟨session, .ofTarget started, rfl⟩

theorem advance_of_session {session : Session ν} (inProgress : server.session = some session)
    (event : SessionEvent) :
    server.advance event =
      ((session.advance event server.files).1,
        { server with session := (session.advance event server.files).2 }) := by
  rw [advance, inProgress]

theorem advance_of_no_session (closed : server.session = none) (event : SessionEvent) :
    server.advance event = (.error .noActiveSession, server) := by
  rw [advance, closed]

/-- A text that can be decoded advances the session as its event does. -/
theorem advanceText_eq {text : String} {event : SessionEvent}
    (decoded : Decoder.text SessionEvent.decode text = .ok event) :
    server.advanceText text =
      ((server.advance event).1.map fun outcome => outcome.encode.render,
        (server.advance event).2) := by
  rw [advanceText, decoded]

/-- All that a call can do: it starts a target, it brings an event, or it leaves the session as it
is. -/
inductive Called (server : Server ν) (c : Call) : Reply × Server ν → Prop
  | started {session : Session ν} : c.event? = none → session.Sound →
      Called server c (.started (.ok ()), { server with session := some session })
  | brought {event : SessionEvent} {reply : Reply} : c.event? = some event →
      reply ≠ .started (.ok ()) →
      reply.error? = (Reply.stepped (server.advance event).1).error? →
      Called server c (reply, (server.advance event).2)
  | kept {reply : Reply} {files : OpenFiles} : c.event? = none → reply ≠ .started (.ok ()) →
      Called server c (reply, { server with files := files })

theorem call_called (server : Server ν) (c : Call) : Called server c (server.call c) := by
  cases c with
  | start source rule target =>
      rcases server.start_cases source rule target with ⟨session, sound, started⟩ | ⟨e, failed⟩
      · simp only [call, started]
        exact .started rfl sound
      · simp only [call, failed]
        exact .kept rfl nofun
  | advance event => exact .brought rfl nofun rfl
  | advanceText text =>
      cases decoded : Decoder.text SessionEvent.decode text with
      | error fault =>
          have undecoded : (Call.advanceText text).event? = none := by
            rw [Call.event?, decoded]
            rfl
          simp only [call, advanceText, decoded]
          exact .kept undecoded nofun
      | ok event =>
          have brings : (Call.advanceText text).event? = some event := by
            rw [Call.event?, decoded]
            rfl
          simp only [call, advanceText_eq decoded]
          refine .brought brings nofun ?_
          cases (server.advance event).1 <;> rfl
  | handOver fileno bytes => exact .kept rfl nofun

theorem advance_setting (server : Server ν) (event : SessionEvent) :
    (server.advance event).2.registry = server.registry ∧
      (server.advance event).2.layout = server.layout ∧
      (server.advance event).2.files = server.files := by
  cases inProgress : server.session with
  | none =>
      rw [advance_of_no_session inProgress]
      exact ⟨rfl, rfl, rfl⟩
  | some session =>
      rw [advance_of_session inProgress]
      exact ⟨rfl, rfl, rfl⟩

theorem call_setting (server : Server ν) (c : Call) :
    (server.call c).2.registry = server.registry ∧ (server.call c).2.layout = server.layout := by
  have called := server.call_called c
  generalize server.call c = answer at called
  cases called with
  | started _ _ => exact ⟨rfl, rfl⟩
  | @brought event _ _ _ _ =>
      have setting := server.advance_setting event
      exact ⟨setting.1, setting.2.1⟩
  | kept _ _ => exact ⟨rfl, rfl⟩

/-- A step of a session that is in progress. -/
theorem Sound.advance (sound : server.Sound) {session : Session ν}
    (inProgress : server.session = some session) (event : SessionEvent) :
    Session.Stepped session.desk.context.phase
      ((server.advance event).1, (server.advance event).2.session) := by
  rw [advance_of_session inProgress]
  exact (sound session inProgress).advance event server.files

/-- A step asks something and the session goes on, or the session is over. -/
theorem Sound.advance_cases (sound : server.Sound) (inProgress : server.session.isSome)
    (event : SessionEvent) :
    (∃ qs, (server.advance event).1 = .ok (.requests qs)) ∧
        (server.advance event).2.session.isSome ∨
      SessionOutcome.Ends (server.advance event).1 ∧ (server.advance event).2.session = none := by
  obtain ⟨session, present⟩ := Option.isSome_iff_exists.mp inProgress
  have stepped := sound.advance present event
  generalize (server.advance event).1 = outcome at stepped
  generalize (server.advance event).2.session = next at stepped
  cases stepped with
  | requests qs _ _ => exact .inl ⟨⟨qs, rfl⟩, rfl⟩
  | ended ends => exact .inr ⟨ends, rfl⟩

theorem Sound.call (sound : server.Sound) (c : Call) : (server.call c).2.Sound := by
  have called := server.call_called c
  generalize server.call c = answer at called
  cases called with
  | started _ fresh =>
      rintro session ⟨⟩
      exact fresh
  | @brought event _ _ _ _ =>
      cases inProgress : server.session with
      | none =>
          rw [advance_of_no_session inProgress]
          exact sound
      | some session =>
          have stepped := sound.advance inProgress event
          intro next present
          rw [present] at stepped
          exact stepped.goesOn.1
  | kept _ _ => exact sound

/-- Unless a target is started, a phase that is reported is not behind the one before. -/
theorem Sound.phase_le (sound : server.Sound) {c : Call}
    (continues : (server.call c).1 ≠ .started (.ok ())) {phase : Phase}
    (reported : (server.call c).2.phase? = some phase) :
    ∃ before, server.phase? = some before ∧ before ≤ phase := by
  have called := server.call_called c
  generalize server.call c = answer at called continues reported
  cases called with
  | started _ _ => exact absurd rfl continues
  | @brought event _ _ _ _ =>
      cases inProgress : server.session with
      | none =>
          rw [advance_of_no_session inProgress, phase?, inProgress] at reported
          cases reported
      | some session =>
          have stepped := sound.advance inProgress event
          obtain ⟨next, present, rfl⟩ := Option.map_eq_some_iff.mp reported
          rw [present] at stepped
          refine ⟨session.desk.context.phase, ?_, stepped.goesOn.2⟩
          rw [phase?, inProgress]
          rfl
  | kept _ _ => exact ⟨phase, reported, Phase.onward.refl phase⟩

theorem call_of_no_session (closed : server.session = none) {c : Call}
    (continues : (server.call c).1 ≠ .started (.ok ())) :
    (server.call c).2.session = none ∧
      (c.event?.isSome → (server.call c).1.error? = some .noActiveSession) := by
  have called := server.call_called c
  generalize server.call c = answer at called continues
  cases called with
  | started _ _ => exact absurd rfl continues
  | @brought event _ _ _ refused =>
      rw [advance_of_no_session closed] at refused ⊢
      exact ⟨closed, fun _ => refused⟩
  | kept silent _ =>
      refine ⟨closed, fun brings => ?_⟩
      rw [silent] at brings
      cases brings

/-! ## What a sequence of calls does -/

theorem continues_cons_iff {c : Call} {rest : List Call} :
    server.Continues (c :: rest) ↔
      (server.call c).1 ≠ .started (.ok ()) ∧ (server.call c).2.Continues rest :=
  List.forall_mem_cons

/-- The induction is on the calls: each leaves the server without a session. -/
theorem idle_of_no_session (closed : server.session = none) : server.Idle := by
  intro calls continues
  induction calls generalizing server with
  | nil => exact .nil
  | cons c rest ih =>
      rcases continues_cons_iff.mp continues with ⟨first, later⟩
      rcases call_of_no_session closed first with ⟨stillClosed, answered⟩
      have silent : (server.call c).2.phase? = none := by
        rw [phase?, stillClosed]
        rfl
      exact .cons ⟨answered, silent⟩ (ih stillClosed later)

theorem phases_nil (server : Server ν) : server.phases [] = server.phase?.toList := by
  rw [phases]
  cases server.phase? <;> rfl

theorem phases_cons (server : Server ν) (c : Call) (rest : List Call) :
    server.phases (c :: rest) = server.phase?.toList ++ (server.call c).2.phases rest := by
  rw [phases, phases]
  cases server.phase? <;> rfl

/-- No phase that is reported is behind the one that the calls have found. -/
theorem Sound.le_of_mem_phases (sound : server.Sound) {calls : List Call}
    (continues : server.Continues calls) {phase : Phase} (reported : phase ∈ server.phases calls) :
    ∃ before, server.phase? = some before ∧ before ≤ phase := by
  induction calls generalizing server with
  | nil =>
      rw [phases_nil, Option.mem_toList] at reported
      exact ⟨phase, reported, Phase.onward.refl phase⟩
  | cons c rest ih =>
      rcases continues_cons_iff.mp continues with ⟨first, later⟩
      rw [phases_cons] at reported
      rcases List.mem_append.mp reported with now | behind
      · exact ⟨phase, Option.mem_toList.mp now, Phase.onward.refl phase⟩
      · obtain ⟨next, found, onward⟩ := ih (sound.call c) later behind
        obtain ⟨before, present, step⟩ := sound.phase_le first found
        exact ⟨before, present, Phase.onward.trans step onward⟩

/-- The phases that are reported never move backwards while no target is started. -/
theorem Sound.phases_sorted (sound : server.Sound) {calls : List Call}
    (continues : server.Continues calls) : (server.phases calls).Pairwise (· ≤ ·) := by
  induction calls generalizing server with
  | nil =>
      rw [phases_nil]
      cases server.phase? <;> simp
  | cons c rest ih =>
      rcases continues_cons_iff.mp continues with ⟨first, later⟩
      rw [phases_cons]
      refine List.pairwise_append.mpr ⟨?_, ih (sound.call c) later, ?_⟩
      · cases server.phase? <;> simp
      · -- Whatever is reported later is compared with the phase behind the first call.
        intro before now phase behind
        obtain ⟨next, found, onward⟩ := (sound.call c).le_of_mem_phases later behind
        obtain ⟨present, same, step⟩ := sound.phase_le first found
        cases same.symm.trans (Option.mem_toList.mp now)
        exact Phase.onward.trans step onward

theorem after_setting (server : Server ν) (calls : List Call) :
    (server.after calls).registry = server.registry ∧
      (server.after calls).layout = server.layout := by
  induction calls generalizing server with
  | nil => exact ⟨rfl, rfl⟩
  | cons c rest ih =>
      have first := server.call_setting c
      have later := ih (server.call c).2
      exact ⟨later.1.trans first.1, later.2.trans first.2⟩

theorem Sound.after (sound : server.Sound) (calls : List Call) : (server.after calls).Sound := by
  induction calls generalizing server with
  | nil => exact sound
  | cons c rest ih => exact ih (sound.call c)

theorem sound_ofRegistry (registry : Registry ν) (layout : Layout) :
    (ofRegistry registry layout).Sound :=
  nofun

theorem call_of_refuses {c : Call} (refuses : server.Refuses c) :
    (server.call c).2 = server ∧ ∃ e, (server.call c).1.error? = some e := by
  cases c with
  | start source rule target =>
      obtain ⟨e, failed⟩ := refuses
      rcases server.start_cases source rule target with ⟨session, _, started⟩ | ⟨e, same⟩
      · rw [started] at failed
        cases failed
      · simp only [call, same, true_and]
        exact ⟨e, rfl⟩
  | advanceText text =>
      obtain ⟨fault, undecoded⟩ := refuses
      simp only [call, advanceText, undecoded, true_and]
      exact ⟨_, rfl⟩
  | advance event => exact refuses.elim
  | handOver fileno bytes => exact refuses.elim

/-- A target that is started is analyzed as it is by any other server in the same setting. -/
theorem call_start_congr {registry : Registry ν} {layout : Layout} {files : OpenFiles}
    {session other : Option (Session ν)} {source rule : String} {target : TargetText}
    (started : (start ⟨registry, layout, session, files⟩ source rule target).1 = .ok ()) :
    call ⟨registry, layout, session, files⟩ (.start source rule target) =
      call ⟨registry, layout, other, files⟩ (.start source rule target) := by
  -- A start looks at the registry and the layout, never at the session that it replaces.
  have sameRule : findRule ⟨registry, layout, session, files⟩ source rule =
      findRule ⟨registry, layout, other, files⟩ source rule := rfl
  unfold start at started
  unfold call start
  simp only [sameRule] at started ⊢
  split at started
  · rfl
  · cases started

/-- In whatever order a server has been called, it keeps its sessions apart and whole.

* A call that is refused changes nothing: it is answered by an error, and whatever follows is
  answered as if the call had not been made.
* A target that is started is answered, then and later, as by a fresh server for which the host has
  opened the same descriptors.
* A step of a session ends with requests, and the session goes on, or it ends the session. Then
  every event that can be decoded is answered that there is none, until a target is started. A text
  that can be decoded is answered by the text of what its event is answered by.
* Until a target is started, the phases that are reported never move backwards. -/
theorem session_machine (registry : Registry ν) (layout : Layout) (history : List Call) :
    let server := (ofRegistry registry layout).after history
    (∀ c, server.Refuses c → (server.call c).2 = server ∧
      (∃ e, (server.call c).1.error? = some e) ∧
      ∀ later, server.replies (c :: later) =
        ((server.call c).1, server.phase?) :: server.replies later) ∧
    (∀ source rule target, (server.start source rule target).1 = .ok () → ∀ later,
      server.replies (.start source rule target :: later) =
        { ofRegistry registry layout with files := server.files }.replies
          (.start source rule target :: later)) ∧
    (∀ event, server.session.isSome →
      let outcome := (server.advance event).1
      let next := (server.advance event).2
      (∃ qs, outcome = .ok (.requests qs)) ∧ next.session.isSome ∨
        SessionOutcome.Ends outcome ∧ next.session = none ∧ next.Idle) ∧
    (∀ text event, Decoder.text SessionEvent.decode text = .ok event →
      server.advanceText text =
        ((server.advance event).1.map fun outcome => outcome.encode.render,
          (server.advance event).2)) ∧
    ∀ later, server.Continues later → (server.phases later).Pairwise (· ≤ ·) := by
  intro server
  have sound : server.Sound := (sound_ofRegistry registry layout).after history
  have setting := (ofRegistry registry layout).after_setting history
  refine ⟨?_, ?_, ?_, ?_, ?_⟩
  · intro c refuses
    rcases call_of_refuses refuses with ⟨same, answered⟩
    refine ⟨same, answered, fun later => ?_⟩
    rw [replies, same]
  · intro source rule target started later
    have placed : server =
        ⟨(ofRegistry registry layout).registry, (ofRegistry registry layout).layout,
          server.session, server.files⟩ := by
      rw [← setting.1, ← setting.2]
    rw [placed] at started ⊢
    rw [replies, replies, call_start_congr started]
  · intro event inProgress
    rcases sound.advance_cases inProgress event with ⟨asks, stays⟩ | ⟨ends, closed⟩
    · exact .inl ⟨asks, stays⟩
    · exact .inr ⟨ends, closed, idle_of_no_session closed⟩
  · intro text event decoded
    exact advanceText_eq decoded
  · intro later continues
    exact sound.phases_sorted continues

end Server

/-! ## A session that is disturbed

A target asks a question. While it waits for the answer, the host tries to start another one in vain
and then hands over a batch without an answer.
-/

namespace PlainTarget

def asking : Rule Unit := rule (.ask (.targetExists ⟨"//lib"⟩) fun _ => .finish (.ok .null))

def target : TargetText :=
  ⟨"plain", "//pkg:plain", "\x7b\x7d", "\x7b\"options\": [], \"host_options\": []\x7d"⟩

def opening : List Call :=
  [.start reference.sourceLabel.text reference.qualifiedName target, .advance .firstPoll]

/-- The server waits for the answer to the question. -/
def waiting : Server Unit := (Server.ofRegistry (.ofList [asking]) .standard).after opening

def unknown : Call := .start reference.sourceLabel.text "Unknown" target

def unknownRule : SessionError := .unknownRule "Unknown in @trellis.builtin//:rules"

end PlainTarget

open PlainTarget

/-- The start is refused and forgotten, and the batch ends the session. -/
theorem Server.session_machine_disturbed :
    waiting.phase? = some .analyzing ∧
    (∀ later, waiting.replies (unknown :: later) =
      (.started (.error unknownRule), some .analyzing) :: waiting.replies later) ∧
    (waiting.advance (.responses [])).1 = .error (.protocol (.responseCount 1 0)) ∧
    (waiting.advance (.responses [])).2.Idle := by
  have analyzing : waiting.phase? = some .analyzing := by decide +kernel
  have inProgress : waiting.session.isSome := by decide +kernel
  have refused : (waiting.start reference.sourceLabel.text "Unknown" target).1 =
      .error unknownRule := by decide +kernel
  have miscounted : (waiting.advance (.responses [])).1 =
      .error (.protocol (.responseCount 1 0)) := by decide +kernel
  have answered : (waiting.call unknown).1 = .started (.error unknownRule) :=
    congrArg Reply.started refused
  obtain ⟨refusals, _, steps, _, _⟩ := session_machine (.ofList [asking]) .standard opening
  refine ⟨analyzing, fun later => ?_, miscounted, ?_⟩
  · have forgotten := (refusals unknown ⟨_, refused⟩).2.2 later
    rwa [← waiting, answered, analyzing] at forgotten
  · rcases steps (.responses []) inProgress with ⟨⟨qs, asks⟩, _⟩ | ⟨_, _, idle⟩
    · cases miscounted.symm.trans asks
    · exact idle

end RuleAnalysis
