import RuleAnalysis.Analysis.Error
import RuleAnalysis.Protocol.Message

namespace RuleAnalysis

/-!
# Channels

A channel keeps the books on the requests of one task. A submitted request
gets a ticket and waits in the outbox; flushing sends the whole outbox as a
batch; a delivery answers everything in flight, by position; and the response
for a ticket is taken once. What the requests say is of no concern here.
-/

/-- Identifies a request within its channel. -/
abbrev Ticket := Nat

structure Channel (κ : Type := Request) where
  nextTicket : Ticket
  outbox : List (Ticket × κ)
  inFlight : List Ticket
  ready : List (Ticket × Response)

namespace Channel

variable {κ : Type}

def empty : Channel κ := ⟨0, [], [], []⟩

/-- Gives the request the next ticket. -/
def submit (c : Channel κ) (q : κ) : Ticket × Channel κ :=
  (c.nextTicket,
    { c with nextTicket := c.nextTicket + 1, outbox := c.outbox ++ [(c.nextTicket, q)] })

/-- Sends the outbox as a batch, in the order of submission. -/
def flush (c : Channel κ) : List κ × Channel κ :=
  (c.outbox.map Prod.snd,
    { c with outbox := [], inFlight := c.inFlight ++ c.outbox.map Prod.fst })

/-- Answers everything in flight, or nothing if the counts differ. -/
def deliver (c : Channel κ) (rs : List Response) : Except ProtocolError (Channel κ) :=
  if rs.length = c.inFlight.length then
    .ok { c with inFlight := [], ready := c.ready ++ c.inFlight.zip rs }
  else .error (.responseCount c.inFlight.length rs.length)

/-- Takes the response for a ticket if it has arrived. -/
def take (c : Channel κ) (ticket : Ticket) : Option Response × Channel κ :=
  (c.ready.lookup ticket, { c with ready := c.ready.filter fun entry => entry.1 ≠ ticket })

end Channel

end RuleAnalysis
