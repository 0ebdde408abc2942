import RuleAnalysis.Analysis.Error
import RuleAnalysis.Protocol.Message

namespace RuleAnalysis

/-!
# Programs

A program is a computation that can be suspended. It stops only where it asks
the host something, where it runs a group of programs, or where it waits for
something that never comes. Programs that run together share a state; they
take turns and never run at the same time.

A procedure is the part of a program that runs no group. It may yield a result
of any type, and a program goes on with what its procedures yield.
-/

inductive Program (σ ρ : Type) (κ : Type := Request) where
  | done (result : ρ)
  /-- Waits without having asked anything. -/
  | stall
  | ask (q : κ) (next : Response → Program σ ρ κ)
  | read (next : σ → Program σ ρ κ)
  | write (state : σ) (next : Program σ ρ κ)
  /-- Runs programs together and goes on with their results in the order of submission. -/
  | group (members : List (Program σ ρ κ))
      (next : Except ProtocolError (List ρ) → Program σ ρ κ)

namespace Program

variable {σ ρ κ : Type}

/-- Goes on from a program's result. Only the program itself is followed by more, not the members of
its groups. -/
def bind : Program σ ρ κ → (ρ → Program σ ρ κ) → Program σ ρ κ
  | done r, more => more r
  | stall, _ => stall
  | ask q next, more => ask q fun response => (next response).bind more
  | read next, more => read fun state => (next state).bind more
  | write state next, more => write state (next.bind more)
  | group members next, more => group members fun results => (next results).bind more

/-- Changes the state and goes on. -/
def modify (change : σ → σ) (next : Program σ ρ κ) : Program σ ρ κ :=
  read fun state => write (change state) next

/-- What becomes of a program that is run where there is no task: it must not ask anything. -/
def outsideTask? : Program σ ρ κ → Option ProtocolError
  | ask .. => some .outsideTask
  | group .. => some .outsideTask
  | _ => none

end Program

/-! ## Procedures -/

inductive Procedure (σ α : Type) (κ : Type := Request) where
  | done (result : α)
  | ask (q : κ) (next : Response → Procedure σ α κ)
  | read (next : σ → Procedure σ α κ)
  | write (state : σ) (next : Procedure σ α κ)

namespace Procedure

variable {σ ε α β κ : Type}

def bind : Procedure σ α κ → (α → Procedure σ β κ) → Procedure σ β κ
  | done a, more => more a
  | ask q next, more => ask q fun response => (next response).bind more
  | read next, more => read fun state => (next state).bind more
  | write state next, more => write state (next.bind more)

/-- Goes on if the procedure has succeeded. -/
def andThen (first : Procedure σ (Except ε α) κ) (more : α → Procedure σ (Except ε β) κ) :
    Procedure σ (Except ε β) κ :=
  first.bind fun
    | .ok a => more a
    | .error e => done (.error e)

/-- Changes the state and yields a result. -/
def modify (change : σ → σ) (result : α) : Procedure σ α κ :=
  read fun state => write (change state) (done result)

end Procedure

namespace Program

variable {σ ρ κ α : Type}

/-- Carries out a procedure and goes on with what it yields. -/
def perform : Procedure σ α κ → (α → Program σ ρ κ) → Program σ ρ κ
  | .done a, next => next a
  | .ask q more, next => ask q fun response => perform (more response) next
  | .read more, next => read fun state => perform (more state) next
  | .write state more, next => write state (perform more next)

end Program

end RuleAnalysis
