import RuleAnalysis.Schedule.Channel
import RuleAnalysis.Schedule.Program

namespace RuleAnalysis

/-!
# Groups of tasks

A task runs one program, one exchange at a time, and has a channel of its own.
A group is a task's way of running others: the requests of its members are
submitted to the channel of the task around the group, and each response is
handed on to the member that has asked. A member is resumed when it has all the
responses that it is owed.

What a task has left to run is an activity. Polling an activity in the channel
of its task runs it as far as it goes: it submits what it asks, takes what has
arrived for it, and ends with a result or with the activity that is left.
-/

/-- A task, whatever its activities are like. -/
structure TaskOf (φ κ : Type) where
  /-- What is left to run. A finished task has nothing left. -/
  activity? : Option φ
  channel : Channel κ

structure MemberOf (φ ρ κ : Type) where
  task : TaskOf φ κ
  output : Option ρ
  /-- Responses that have come for the member and have not been delivered to it. -/
  buffered : List Response
  /-- How many responses are still to come before the member is resumed. -/
  owed : Nat

structure GroupOf (φ ρ κ : Type) where
  members : List (MemberOf φ ρ κ)
  /-- The requests that are outstanding, in the order in which they were submitted, and the member
  that each belongs to. -/
  associations : List (Ticket × Nat)

inductive Activity (σ ρ κ : Type) where
  /-- Has not been polled yet. -/
  | fresh (p : Program σ ρ κ)
  /-- Waits without having asked anything. -/
  | stalled
  | call (ticket : Ticket) (next : Response → Program σ ρ κ)
  | group (g : GroupOf (Activity σ ρ κ) ρ κ)
      (next : Except ProtocolError (List ρ) → Program σ ρ κ)

abbrev Task (σ ρ : Type) (κ : Type := Request) := TaskOf (Activity σ ρ κ) κ

abbrev Member (σ ρ κ : Type) := MemberOf (Activity σ ρ κ) ρ κ

abbrev Group (σ ρ κ : Type) := GroupOf (Activity σ ρ κ) ρ κ

/-- What polling ends with. -/
inductive Progress (σ ρ κ : Type) where
  | finished (result : ρ)
  | waiting (rest : Activity σ ρ κ)

/-- What a resumption ends with: requests to answer, in this order, or the result. -/
inductive Step (ρ : Type) (κ : Type := Request) where
  | pending (requests : List κ)
  | done (result : ρ)

abbrev Polling (σ ρ κ : Type) := Channel κ → σ → Progress σ ρ κ × Channel κ × σ

abbrev Resumption (σ ρ κ : Type) :=
  List Response → σ → Except ProtocolError (Step ρ κ) × Task σ ρ κ × σ

variable {σ ρ κ : Type}

/-! ## One exchange of a task -/

namespace TaskOf

def ofProgram (p : Program σ ρ κ) : Task σ ρ κ := ⟨some (.fresh p), .empty⟩

/-- Goes on from polling: what was submitted is sent as one batch. -/
def conclude : Progress σ ρ κ → Channel κ → Except ProtocolError (Step ρ κ) × Task σ ρ κ
  | .finished r, c => (.ok (.done r), ⟨none, c⟩)
  | .waiting rest, c =>
      let (requests, c) := c.flush
      (if requests.isEmpty then .error .stalled else .ok (.pending requests), ⟨some rest, c⟩)

/-- Delivers responses to a task and polls its activity. A batch of the wrong size is turned away and
leaves the task as it was. -/
def resumeBy (poll : Polling σ ρ κ) (t : Task σ ρ κ) : Resumption σ ρ κ := fun responses s =>
  match t.channel.deliver responses with
  | .error e => (.error e, t, s)
  | .ok c =>
      let (progress, c, s) := poll c s
      let (step, t) := conclude progress c
      (step, t, s)

end TaskOf

/-! ## The books of a group -/

namespace GroupOf

def empty : Group σ ρ κ := ⟨[], []⟩

def changeMember (g : Group σ ρ κ) (index : Nat) (change : Member σ ρ κ → Member σ ρ κ) :
    Group σ ρ κ :=
  { g with members := g.members.modify index change }

/-- Submits the requests of a member to the channel around the group. -/
def submitAll (g : Group σ ρ κ) (index : Nat) : List κ → Channel κ → Group σ ρ κ × Channel κ
  | [], c => (g, c)
  | q :: rest, c =>
      let (ticket, c) := c.submit q
      let g := g.changeMember index fun m => { m with owed := m.owed + 1 }
      submitAll { g with associations := g.associations ++ [(ticket, index)] } index rest c

/-- Resumes a member. Its failure to run is the failure of the group. -/
def step (g : Group σ ρ κ) (index : Nat) (resume : Resumption σ ρ κ) (responses : List Response)
    (c : Channel κ) (s : σ) : Except ProtocolError (Group σ ρ κ) × Channel κ × σ :=
  let (outcome, t, s) := resume responses s
  let g := g.changeMember index fun m => { m with task := t }
  match outcome with
  | .error e => (.error e, c, s)
  | .ok (.done r) => (.ok (g.changeMember index fun m => { m with output := some r }), c, s)
  | .ok (.pending requests) =>
      let (g, c) := g.submitAll index requests c
      (.ok g, c, s)

/-- The outputs of the members if all of them have finished. -/
def outputs? (g : Group σ ρ κ) : Option (List ρ) := g.members.mapM MemberOf.output

/-- Puts a response into the buffer of a member. The whole buffer is yielded, and left empty, when
nothing more is owed to the member. -/
def credit (g : Group σ ρ κ) (index : Nat) (response : Response) :
    Group σ ρ κ × Option (List Response) :=
  match g.members[index]? with
  | none => (g, none)
  | some m =>
      let buffered := m.buffered ++ [response]
      if m.owed = 1 then
        (g.changeMember index fun m => { m with buffered := [], owed := 0 }, some buffered)
      else (g.changeMember index fun m => { m with buffered, owed := m.owed - 1 }, none)

/-- Hands on the responses that have arrived, in the order of the requests, and stops at the first
that has not. Requests that are submitted on the way are not looked at again: nothing can have
arrived for them yet. -/
def route (resumptions : List (Resumption σ ρ κ)) :
    List (Ticket × Nat) → Group σ ρ κ → Channel κ → σ →
      Except ProtocolError (Group σ ρ κ) × Channel κ × σ
  | [], g, c, s => (.ok g, c, s)
  | (ticket, index) :: rest, g, c, s =>
      match c.take ticket with
      | (none, c) =>
          (.ok { g with associations := (ticket, index) :: rest ++ g.associations }, c, s)
      | (some response, c) =>
          match g.credit index response, resumptions[index]? with
          | (g, some responses), some resume =>
              match g.step index resume responses c s with
              | (.error e, c, s) => (.error e, c, s)
              | (.ok g, c, s) => route resumptions rest g c s
          | (g, _), _ => route resumptions rest g c s

end GroupOf

/-! ## Polling -/

mutual

/-- Runs a program from its beginning. The members of a group are started in their order. -/
def Program.start : Program σ ρ κ → Polling σ ρ κ
  | .done r, c, s => (.finished r, c, s)
  | .stall, c, s => (.waiting .stalled, c, s)
  | .ask q next, c, s =>
      let (ticket, c) := c.submit q
      (.waiting (.call ticket next), c, s)
  | .read next, c, s => (next s).start c s
  | .write s next, c, _ => next.start c s
  | .group members next, c, s =>
      match Program.startAll members GroupOf.empty c s with
      | (.error e, c, s) => (next (.error e)).start c s
      | (.ok g, c, s) =>
          match g.outputs? with
          | some rs => (next (.ok rs)).start c s
          | none => (.waiting (.group g next), c, s)

/-- Adds members to a group and resumes each for the first time. -/
def Program.startAll : List (Program σ ρ κ) → Group σ ρ κ → Channel κ → σ →
    Except ProtocolError (Group σ ρ κ) × Channel κ × σ
  | [], g, c, s => (.ok g, c, s)
  | p :: rest, g, c, s =>
      let t := TaskOf.ofProgram p
      let index := g.members.length
      let joined : Group σ ρ κ := { g with members := g.members ++ [⟨t, none, [], 0⟩] }
      match joined.step index (t.resumeBy p.start) [] c s with
      | (.error e, c, s) => (.error e, c, s)
      | (.ok g, c, s) => Program.startAll rest g c s

end

mutual

def Activity.poll : Activity σ ρ κ → Polling σ ρ κ
  | .fresh p => p.start
  | .stalled => fun c s => (.waiting .stalled, c, s)
  | .call ticket next => fun c s =>
      match c.take ticket with
      | (some response, c) => (next response).start c s
      | (none, c) => (.waiting (.call ticket next), c, s)
  | .group ⟨members, associations⟩ next => fun c s =>
      match GroupOf.route (Activity.resumptions members) associations ⟨members, []⟩ c s with
      | (.error e, c, s) => (next (.error e)).start c s
      | (.ok g, c, s) =>
          match g.outputs? with
          | some rs => (next (.ok rs)).start c s
          | none => (.waiting (.group g next), c, s)

/-- How the members of a group are resumed as they stand. Within one poll no member is resumed
twice, since it then waits for what has been submitted on the way. -/
def Activity.resumptions : List (Member σ ρ κ) → List (Resumption σ ρ κ)
  | [] => []
  | m :: rest => Activity.resumption m :: Activity.resumptions rest

def Activity.resumption : Member σ ρ κ → Resumption σ ρ κ
  | ⟨⟨none, c⟩, _, _, _⟩ => fun _ s => (.error .finished, ⟨none, c⟩, s)
  | ⟨⟨some activity, c⟩, _, _, _⟩ => TaskOf.resumeBy activity.poll ⟨some activity, c⟩

end

end RuleAnalysis
