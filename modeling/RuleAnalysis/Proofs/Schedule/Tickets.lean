import Mathlib.Data.List.Induction
import Mathlib.Data.List.Nodup
import RuleAnalysis.Proofs.Lookups
import RuleAnalysis.Schedule.Channel

namespace RuleAnalysis

/-!
# The way of a ticket

A request is submitted under a ticket and waits in the outbox until a flush
sends it. It is in flight until a delivery answers everything that is, and then
its response is ready until it is taken. Nothing else moves a ticket, so it is
in one place at any time.

What has been done to a channel, with what came of it, is a journal. The
journal alone tells what waits to be sent, what is awaited and what has been
answered, without a look at the books. The channel keeps its books so that they
agree with the journal, whatever is done to it and in whatever order.
-/

namespace Channel

open scoped List

variable {κ : Type}

/-! ## Journals -/

/-- What can be done to a channel. -/
inductive Operation (κ : Type) where
  | submit (q : κ)
  | flush
  | deliver (responses : List Response)
  | take (ticket : Ticket)

/-- What has been done to a channel, with what came of it. -/
inductive Entry (κ : Type) where
  | submitted (ticket : Ticket) (q : κ)
  | flushed (batch : List κ)
  | delivered (responses : List Response)
  | refused (responses : List Response) (e : ProtocolError)
  | taken (ticket : Ticket) (response? : Option Response)

/-- Does something to a channel. A delivery that fails leaves the channel as it is. -/
def perform (c : Channel κ) : Operation κ → Entry κ × Channel κ
  | .submit q =>
      let (ticket, c) := c.submit q
      (.submitted ticket q, c)
  | .flush =>
      let (batch, c) := c.flush
      (.flushed batch, c)
  | .deliver responses =>
      match c.deliver responses with
      | .ok c => (.delivered responses, c)
      | .error e => (.refused responses e, c)
  | .take ticket =>
      let (response?, c) := c.take ticket
      (.taken ticket response?, c)

/-- All that has been done to a channel since it was empty, the latest first, and the channel as it
is now. -/
structure Journal (κ : Type) where
  entries : List (Entry κ)
  channel : Channel κ

namespace Journal

def add (j : Journal κ) (o : Operation κ) : Journal κ :=
  let (entry, c) := j.channel.perform o
  ⟨entry :: j.entries, c⟩

def of (operations : List (Operation κ)) : Journal κ := operations.foldl add ⟨[], .empty⟩

end Journal

/-! ## What a journal tells -/

/-- The tickets that have been given, in order. -/
def issued : List (Entry κ) → List Ticket
  | [] => []
  | .submitted ticket _ :: earlier => issued earlier ++ [ticket]
  | _ :: earlier => issued earlier

/-- What has been submitted since the last flush, in order. -/
def unsent : List (Entry κ) → List (Ticket × κ)
  | [] => []
  | .submitted ticket q :: earlier => unsent earlier ++ [(ticket, q)]
  | .flushed _ :: _ => []
  | _ :: earlier => unsent earlier

/-- What all the flushes since the last delivery have sent, in order. -/
def awaited : List (Entry κ) → List (Ticket × κ)
  | [] => []
  | .flushed _ :: earlier => awaited earlier ++ unsent earlier
  | .delivered _ :: _ => []
  | _ :: earlier => awaited earlier

/-- The tickets whose responses have been taken. -/
def taken : List (Entry κ) → List Ticket
  | [] => []
  | .taken ticket (some _) :: earlier => taken earlier ++ [ticket]
  | _ :: earlier => taken earlier

/-- The response was delivered at the position that the request of the ticket had among those that
were awaited. -/
def Answered (entries : List (Entry κ)) (ticket : Ticket) (r : Response) : Prop :=
  ∃ responses earlier, .delivered responses :: earlier <:+ entries ∧
    ∃ (position : Nat) (q : κ), (awaited earlier)[position]? = some (ticket, q) ∧
      responses[position]? = some r

/-- All tickets that have been answered, with their responses. -/
def answers : List (Entry κ) → List (Ticket × Response)
  | [] => []
  | .delivered responses :: earlier =>
      answers earlier ++ ((awaited earlier).map Prod.fst).zip responses
  | _ :: earlier => answers earlier

theorem answered_cons_iff {entry : Entry κ} {earlier : List (Entry κ)} {ticket : Ticket}
    {r : Response} (other : ∀ responses, entry ≠ .delivered responses) :
    Answered (entry :: earlier) ticket r ↔ Answered earlier ticket r := by
  constructor
  · rintro ⟨responses, before, behind, position⟩
    rcases List.suffix_cons_iff.mp behind with here | behind
    · exact absurd (List.cons.inj here).1.symm (other responses)
    · exact ⟨responses, before, behind, position⟩
  · rintro ⟨responses, before, behind, position⟩
    exact ⟨responses, before, behind.trans (List.suffix_cons entry earlier), position⟩

theorem answered_delivered_iff {responses : List Response} {earlier : List (Entry κ)}
    {ticket : Ticket} {r : Response} :
    Answered (.delivered responses :: earlier) ticket r ↔
      Answered earlier ticket r ∨
        (ticket, r) ∈ ((awaited earlier).map Prod.fst).zip responses := by
  have here : (ticket, r) ∈ ((awaited earlier).map Prod.fst).zip responses ↔
      ∃ (position : Nat) (q : κ), (awaited earlier)[position]? = some (ticket, q) ∧
        responses[position]? = some r := by
    simp [List.mem_iff_getElem?, List.getElem?_zip_eq_some]
  rw [here]
  constructor
  · rintro ⟨responses', before, behind, position⟩
    rcases List.suffix_cons_iff.mp behind with same | behind
    · cases same
      exact .inr position
    · exact .inl ⟨responses', before, behind, position⟩
  · rintro (⟨responses', before, behind, position⟩ | position)
    · exact ⟨responses', before, behind.trans (List.suffix_cons _ earlier), position⟩
    · exact ⟨responses, earlier, List.suffix_rfl, position⟩

theorem mem_answers_iff {entries : List (Entry κ)} {ticket : Ticket} {r : Response} :
    (ticket, r) ∈ answers entries ↔ Answered entries ticket r := by
  induction entries with
  | nil =>
      constructor
      · nofun
      · rintro ⟨responses, earlier, behind, _⟩
        exact absurd (List.suffix_nil.mp behind) (List.cons_ne_nil _ _)
  | cons entry earlier ih =>
      cases entry with
      | delivered responses => rw [answers, List.mem_append, ih, answered_delivered_iff]
      | _ => exact ih.trans (answered_cons_iff (by nofun)).symm

/-! ## Where the tickets are -/

/-- The places where a channel keeps tickets. -/
def places (c : Channel κ) : List (List Ticket) :=
  [c.outbox.map Prod.fst, c.inFlight, c.ready.map Prod.fst]

theorem flatten_places (c : Channel κ) :
    c.places.flatten = c.outbox.map Prod.fst ++ (c.inFlight ++ c.ready.map Prod.fst) := by
  simp [places]

theorem places_submit (c : Channel κ) (q : κ) :
    (c.submit q).2.places.flatten ~ c.nextTicket :: c.places.flatten := by
  rw [flatten_places, flatten_places]
  simp only [submit, List.map_append, List.map_cons, List.map_nil, List.append_assoc,
    List.singleton_append]
  exact List.perm_middle

theorem places_flush (c : Channel κ) : c.flush.2.places.flatten ~ c.places.flatten := by
  rw [flatten_places, flatten_places, ← List.append_assoc, ← List.append_assoc]
  change (c.inFlight ++ c.outbox.map Prod.fst) ++ _ ~ _
  exact List.perm_append_comm.append_right _

theorem deliver_eq_ok_iff {c c' : Channel κ} {responses : List Response} :
    c.deliver responses = .ok c' ↔ responses.length = c.inFlight.length ∧
      c' = { c with inFlight := [], ready := c.ready ++ c.inFlight.zip responses } := by
  rw [deliver]
  split
  · next sized => simp [sized, eq_comm]
  · next missized => simp [missized]

/-- A delivery gives a response to each ticket in flight and to no other. -/
theorem tickets_zip {c : Channel κ} {responses : List Response}
    (sized : responses.length = c.inFlight.length) :
    (c.inFlight.zip responses).map Prod.fst = c.inFlight :=
  List.map_fst_zip (Nat.le_of_eq sized.symm)

theorem places_deliver {c c' : Channel κ} {responses : List Response}
    (delivered : c.deliver responses = .ok c') : c'.places.flatten ~ c.places.flatten := by
  rcases deliver_eq_ok_iff.mp delivered with ⟨sized, rfl⟩
  rw [flatten_places, flatten_places, List.map_append, tickets_zip sized]
  change _ ++ (c.ready.map Prod.fst ++ c.inFlight) ~ _
  exact List.perm_append_comm.append_left _

theorem take_absent {c : Channel κ} {ticket : Ticket} (absent : c.ready.lookup ticket = none) :
    c.take ticket = (none, c) := by
  have untouched : c.ready.filter (fun entry => entry.1 ≠ ticket) = c.ready := by
    apply List.filter_eq_self.mpr
    intro entry member
    apply decide_eq_true
    rintro rfl
    exact lookup_eq_none_iff.mp absent (List.mem_map_of_mem member)
  rw [take, absent, untouched]

/-- Taking removes all responses that are ready under a ticket. Where none has two it removes one,
and all other tickets stay. -/
theorem places_take {c : Channel κ} (once : (c.ready.map Prod.fst).Nodup) {ticket : Ticket}
    {r : Response} (found : c.ready.lookup ticket = some r) :
    c.places.flatten ~ ticket :: (c.take ticket).2.places.flatten := by
  have others : (c.take ticket).2.ready.map Prod.fst = (c.ready.map Prod.fst).erase ticket := by
    rw [once.erase_eq_filter, List.filter_map]
    congr 1
    apply List.filter_congr
    intro entry _
    rw [Bool.eq_iff_iff]
    simp
  have ready : c.ready.map Prod.fst ~ ticket :: (c.take ticket).2.ready.map Prod.fst := by
    rw [others]
    exact List.perm_cons_erase (List.mem_map_of_mem (mem_of_lookup found))
  rw [flatten_places, flatten_places]
  calc
    c.outbox.map Prod.fst ++ (c.inFlight ++ c.ready.map Prod.fst)
    _ ~ c.outbox.map Prod.fst ++
          (c.inFlight ++ ticket :: (c.take ticket).2.ready.map Prod.fst) :=
      (ready.append_left _).append_left _
    _ ~ c.outbox.map Prod.fst ++
          ticket :: (c.inFlight ++ (c.take ticket).2.ready.map Prod.fst) :=
      List.perm_middle.append_left _
    _ ~ ticket :: (c.outbox.map Prod.fst ++
          (c.inFlight ++ (c.take ticket).2.ready.map Prod.fst)) :=
      List.perm_middle

/-! ## Books that agree with a journal -/

/-- The channel is as the journal tells. Every ticket that has been given is in one place, or its
response has been taken. -/
structure Records (entries : List (Entry κ)) (c : Channel κ) : Prop where
  counted : issued entries = List.range c.nextTicket
  outbox : c.outbox = unsent entries
  inFlight : c.inFlight = (awaited entries).map Prod.fst
  ready : c.ready = (answers entries).filter fun answer => answer.1 ∉ taken entries
  accounted : c.places.flatten ++ taken entries ~ issued entries

namespace Records

variable {entries : List (Entry κ)} {c : Channel κ}

theorem empty : Records [] (Channel.empty : Channel κ) := ⟨rfl, rfl, rfl, rfl, .nil⟩

theorem nodup_issued (records : Records entries c) : (issued entries).Nodup :=
  records.counted ▸ List.nodup_range

theorem nodup (records : Records entries c) : (c.places.flatten ++ taken entries).Nodup :=
  records.accounted.nodup_iff.mpr records.nodup_issued

/-- The places of a channel are sets of tickets, and no two of them have a ticket in common. -/
theorem disjoint (records : Records entries c) :
    (∀ tickets ∈ c.places, tickets.Nodup) ∧ c.places.Pairwise List.Disjoint :=
  List.nodup_flatten.mp records.nodup.of_append_left

theorem nodup_ready (records : Records entries c) : (c.ready.map Prod.fst).Nodup :=
  records.disjoint.1 _ (by simp [places])

/-- What is in flight has not been taken. -/
theorem not_mem_taken (records : Records entries c) {ticket : Ticket}
    (sent : ticket ∈ c.inFlight) : ticket ∉ taken entries := by
  intro gone
  have kept : ticket ∈ c.places.flatten := by simp [places, sent]
  exact List.disjoint_of_nodup_append records.nodup kept gone

theorem submit (records : Records entries c) (q : κ) :
    Records (.submitted (c.submit q).1 q :: entries) (c.submit q).2 where
  counted := by
    change issued entries ++ [c.nextTicket] = List.range (c.nextTicket + 1)
    rw [records.counted, List.range_succ]
  outbox := by
    change c.outbox ++ [(c.nextTicket, q)] = unsent entries ++ [(c.nextTicket, q)]
    rw [records.outbox]
  inFlight := records.inFlight
  ready := records.ready
  accounted := by
    calc
      (c.submit q).2.places.flatten ++ taken entries
      _ ~ c.nextTicket :: (c.places.flatten ++ taken entries) := (c.places_submit q).append_right _
      _ ~ c.nextTicket :: issued entries := records.accounted.cons _
      _ ~ issued entries ++ [c.nextTicket] := (List.perm_append_singleton _ _).symm

theorem flush (records : Records entries c) :
    Records (.flushed c.flush.1 :: entries) c.flush.2 where
  counted := records.counted
  outbox := rfl
  inFlight := by
    change c.inFlight ++ c.outbox.map Prod.fst = (awaited entries ++ unsent entries).map Prod.fst
    rw [records.inFlight, records.outbox, List.map_append]
  ready := records.ready
  accounted := (c.places_flush.append_right _).trans records.accounted

theorem deliver (records : Records entries c) {responses : List Response} {c' : Channel κ}
    (delivered : c.deliver responses = .ok c') : Records (.delivered responses :: entries) c' := by
  have moved := places_deliver delivered
  rcases deliver_eq_ok_iff.mp delivered with ⟨sized, rfl⟩
  -- None of the new responses is passed over: their tickets have been in flight until now.
  have fresh : (c.inFlight.zip responses).filter (fun answer => answer.1 ∉ taken entries) =
      c.inFlight.zip responses := by
    apply List.filter_eq_self.mpr
    intro answer member
    exact decide_eq_true (records.not_mem_taken (List.of_mem_zip member).1)
  refine ⟨records.counted, records.outbox, rfl, ?_, ?_⟩
  · change c.ready ++ _ = (answers entries ++ _).filter fun answer => answer.1 ∉ taken entries
    rw [List.filter_append, ← records.ready, ← records.inFlight, fresh]
  · exact (moved.append_right _).trans records.accounted

theorem refuse (records : Records entries c) (responses : List Response) (e : ProtocolError) :
    Records (.refused responses e :: entries) c :=
  ⟨records.counted, records.outbox, records.inFlight, records.ready, records.accounted⟩

theorem take (records : Records entries c) (ticket : Ticket) :
    Records (.taken ticket (c.take ticket).1 :: entries) (c.take ticket).2 := by
  cases found : c.ready.lookup ticket with
  | none =>
      rw [take_absent found]
      exact ⟨records.counted, records.outbox, records.inFlight, records.ready, records.accounted⟩
  | some r =>
      have answer : (c.take ticket).1 = some r := found
      rw [answer]
      refine ⟨records.counted, records.outbox, records.inFlight, ?_, ?_⟩
      · change c.ready.filter _ =
          (answers entries).filter fun answer => answer.1 ∉ taken entries ++ [ticket]
        rw [records.ready, List.filter_filter]
        apply List.filter_congr
        simp [and_comm]
      · change (c.take ticket).2.places.flatten ++ (taken entries ++ [ticket]) ~ _
        calc
          (c.take ticket).2.places.flatten ++ (taken entries ++ [ticket])
          _ ~ (c.take ticket).2.places.flatten ++ (ticket :: taken entries) :=
            (List.perm_append_singleton _ _).append_left _
          _ ~ ticket :: ((c.take ticket).2.places.flatten ++ taken entries) := List.perm_middle
          _ ~ c.places.flatten ++ taken entries :=
            (places_take records.nodup_ready found).symm.append_right _
          _ ~ issued entries := records.accounted

theorem perform (records : Records entries c) (o : Operation κ) :
    Records ((c.perform o).1 :: entries) (c.perform o).2 := by
  cases o with
  | submit q => exact records.submit q
  | flush => exact records.flush
  | deliver responses =>
      rw [Channel.perform]
      cases delivered : c.deliver responses with
      | ok c' => exact records.deliver delivered
      | error e => exact records.refuse responses e
  | take ticket => exact records.take ticket

/-- What is ready for a ticket has been delivered for it and has not been taken. -/
theorem take_eq_some_iff (records : Records entries c) {ticket : Ticket} {r : Response} :
    (c.take ticket).1 = some r ↔ Answered entries ticket r ∧ ticket ∉ taken entries := by
  change c.ready.lookup ticket = some r ↔ _
  rw [lookup_eq_some_iff records.nodup_ready, records.ready, List.mem_filter, mem_answers_iff,
    decide_eq_true_iff]

end Records

theorem Journal.records (operations : List (Operation κ)) :
    Records (of operations).entries (of operations).channel := by
  induction operations using List.reverseRecOn with
  | nil => exact .empty
  | append_singleton earlier o ih =>
      rw [of, List.foldl_concat]
      exact ih.perform o

/-- As long as the counter fits a word of 64 bits, the words of its tickets are as distinct as the
tickets. -/
theorem nodup_words {count : Nat} (fits : count < UInt64.size) :
    ((List.range count).map UInt64.ofNat).Nodup := by
  apply List.Nodup.map_on _ List.nodup_range
  intro ticket given other given' same
  rw [List.mem_range] at given given'
  have words := congrArg UInt64.toNat same
  rwa [UInt64.toNat_ofNat_of_lt' (Nat.lt_trans given fits),
    UInt64.toNat_ofNat_of_lt' (Nat.lt_trans given' fits)] at words

/-- A channel loses nothing and doubles nothing, whatever is done to it. The tickets that it gives
are distinct, and so are their words of 64 bits as long as fewer than `2 ^ 64` are given. What is in
the outbox, in flight and ready are sets without a ticket in common, and together with the tickets
whose responses have been taken they make up all that were given. A flush sends exactly what was
submitted since the last one, in order. A delivery succeeds exactly if it brings as many responses
as requests are in flight, which are those that all flushes since the last delivery have sent; any
other is refused and changes nothing. No response is taken twice, and a ticket whose response has
not been taken yields exactly the one that was delivered at the position of its request. -/
theorem nothing_lost_or_doubled (operations : List (Operation κ)) :
    let j := Journal.of operations
    ((issued j.entries).Nodup ∧
      ((issued j.entries).length < UInt64.size →
        j.channel.nextTicket < UInt64.size ∧ ((issued j.entries).map UInt64.ofNat).Nodup)) ∧
    (((∀ tickets ∈ j.channel.places, tickets.Nodup) ∧ j.channel.places.Pairwise List.Disjoint) ∧
      j.channel.places.flatten ++ taken j.entries ~ issued j.entries) ∧
    j.channel.flush.1 = (unsent j.entries).map Prod.snd ∧
    (j.channel.inFlight = (awaited j.entries).map Prod.fst ∧
      ∀ responses,
        ((∃ c, j.channel.deliver responses = .ok c) ↔
          responses.length = (awaited j.entries).length) ∧
        (responses.length ≠ (awaited j.entries).length →
          j.channel.perform (.deliver responses) =
            (.refused responses (.responseCount (awaited j.entries).length responses.length),
              j.channel))) ∧
    (taken j.entries).Nodup ∧
    ∀ ticket r, (j.channel.take ticket).1 = some r ↔
      Answered j.entries ticket r ∧ ticket ∉ taken j.entries := by
  intro j
  have records : Records j.entries j.channel := Journal.records operations
  have sent : j.channel.inFlight.length = (awaited j.entries).length := by
    rw [records.inFlight, List.length_map]
  refine ⟨⟨records.nodup_issued, ?_⟩, ⟨records.disjoint, records.accounted⟩, ?_,
    ⟨records.inFlight, ?_⟩, records.nodup.of_append_right, ?_⟩
  · intro few
    rw [records.counted, List.length_range] at few
    rw [records.counted]
    exact ⟨few, nodup_words few⟩
  · rw [← records.outbox]
    rfl
  · intro responses
    rw [← sent]
    constructor
    · constructor
      · rintro ⟨c, delivered⟩
        exact (deliver_eq_ok_iff.mp delivered).1
      · intro sized
        exact ⟨_, deliver_eq_ok_iff.mpr ⟨sized, rfl⟩⟩
    · intro missized
      rw [perform, deliver, if_neg missized]
  · intro ticket r
    exact records.take_eq_some_iff

/-! ## Two flushes and one delivery -/

namespace Crossing

/-- Three requests are in flight when the second flush is done. -/
def sent : List (Operation Nat) := [.submit 10, .submit 11, .flush, .submit 12, .flush]

/-- One response is too few. Of the three that come then, the last is taken first and the one in the
middle not at all. -/
def settled : List (Operation Nat) :=
  sent ++ [.deliver [.none], .deliver [.boolean true, .none, .boolean false], .take 2, .take 0,
    .take 2, .submit 13]

end Crossing

open Crossing in
theorem nothing_lost_or_doubled_crossing :
    ((issued (Journal.of settled).entries).length < UInt64.size ∧
      ((issued (Journal.of settled).entries).map UInt64.ofNat).Nodup) ∧
    (Journal.of settled).channel.places = [[3], [], [1]] ∧
    (Journal.of settled).channel.flush.1 = [13] ∧
    ((∃ c, (Journal.of sent).channel.deliver [.boolean true, .none, .boolean false] = .ok c) ∧
      ∀ responses, responses.length ≠ 3 →
        (Journal.of sent).channel.perform (.deliver responses) =
          (.refused responses (.responseCount 3 responses.length), (Journal.of sent).channel)) ∧
    taken (Journal.of settled).entries = [2, 0] ∧
    (Answered (Journal.of settled).entries 1 .none ∧
      ((Journal.of settled).channel.take 1).1 = some .none) := by
  rcases nothing_lost_or_doubled sent with ⟨_, _, _, ⟨_, delivery⟩, _⟩
  rcases nothing_lost_or_doubled settled with ⟨⟨_, words⟩, _, flushed, _, _, takes⟩
  have few : (issued (Journal.of settled).entries).length < UInt64.size := by decide +kernel
  have waiting : unsent (Journal.of settled).entries = [(3, 13)] := by decide +kernel
  have gone : taken (Journal.of settled).entries = [2, 0] := by decide +kernel
  have answered : Answered (Journal.of settled).entries 1 .none :=
    mem_answers_iff.mp (by decide +kernel)
  rw [waiting] at flushed
  refine ⟨⟨few, (words few).2⟩, by decide +kernel, flushed,
    ⟨(delivery _).1.mpr (by decide +kernel), fun responses => (delivery responses).2⟩, gone,
    answered, ?_⟩
  have untaken : 1 ∉ taken (Journal.of settled).entries := by
    rw [gone]
    decide
  exact (takes 1 .none).mpr ⟨answered, untaken⟩

end Channel

end RuleAnalysis
