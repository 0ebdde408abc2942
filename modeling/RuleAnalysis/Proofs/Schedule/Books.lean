import RuleAnalysis.Schedule.Group

namespace RuleAnalysis

/-!
# The books of channels and groups

Between two exchanges the books are in one of a few states. All tickets that
a channel has in flight were given in one run, so they are consecutive; and in
the outstanding requests of a group those of one member stand together.
-/

/-! ## Channels -/

namespace Channel

variable {κ : Type}

/-- A channel in which some requests have been submitted, one after another. -/
def submitted (c : Channel κ) (qs : List κ) : Channel κ :=
  { c with
    nextTicket := c.nextTicket + qs.length
    outbox := c.outbox ++ (List.range' c.nextTicket qs.length).zip qs }

/-- A channel with responses for consecutive tickets, and none besides. -/
def holding (c : Channel κ) (first : Ticket) (rs : List Response) : Channel κ :=
  { c with ready := (List.range' first rs.length).zip rs }

/-- A channel in which nothing is under way. -/
def idle (nextTicket : Ticket) : Channel κ := ⟨nextTicket, [], [], []⟩

/-- A channel that waits for as many responses, from a ticket on. -/
def awaiting (first count : Nat) : Channel κ :=
  ⟨first + count, [], List.range' first count, []⟩

@[simp] theorem submitted_nil (c : Channel κ) : c.submitted [] = c := by
  simp [submitted]

@[simp] theorem submitted_nextTicket (c : Channel κ) (qs : List κ) :
    (c.submitted qs).nextTicket = c.nextTicket + qs.length := rfl

theorem submitted_append (c : Channel κ) (qs rest : List κ) :
    (c.submitted qs).submitted rest = c.submitted (qs ++ rest) := by
  have tickets : List.range' c.nextTicket (qs ++ rest).length =
      List.range' c.nextTicket qs.length ++
        List.range' (c.nextTicket + qs.length) rest.length := by
    rw [List.length_append, List.range'_append_1]
  have outbox : (List.range' c.nextTicket (qs ++ rest).length).zip (qs ++ rest) =
      (List.range' c.nextTicket qs.length).zip qs ++
        (List.range' (c.nextTicket + qs.length) rest.length).zip rest := by
    rw [tickets, List.zip_append (by simp)]
  simp only [submitted, outbox, List.append_assoc]
  rw [List.length_append, Nat.add_assoc]

theorem holding_nil {c : Channel κ} (first : Ticket) (quiet : c.ready = []) :
    c.holding first [] = c := by
  simp only [holding, List.length_nil, List.range'_zero, List.zip_nil_left, ← quiet]

/-- The response for the first ticket is taken, and the others stay. -/
theorem take_holding (c : Channel κ) (first : Ticket) (r : Response) (rs : List Response) :
    (c.holding first (r :: rs)).take first = (some r, c.holding (first + 1) rs) := by
  have others : ((List.range' (first + 1) rs.length).zip rs).filter
      (fun entry => entry.1 ≠ first) = (List.range' (first + 1) rs.length).zip rs := by
    apply List.filter_eq_self.mpr
    intro entry member
    have ticket := (List.of_mem_zip member).1
    have later := (List.mem_range'_1.mp ticket).1
    exact decide_eq_true (Nat.ne_of_gt later)
  simp only [take, holding, List.length_cons, List.range'_succ, List.zip_cons_cons,
    List.lookup_cons_self, List.filter_cons, ne_self_iff_false, decide_false,
    Bool.false_eq_true, if_false, others]

theorem deliver_awaiting {first count : Nat} {rs : List Response} (sized : rs.length = count) :
    (awaiting first count : Channel κ).deliver rs =
      .ok ((idle (first + count)).holding first rs) := by
  subst sized
  simp [deliver, awaiting, idle, holding]

theorem flush_submitted (first : Ticket) (qs : List κ) :
    ((idle first).submitted qs).flush = (qs, awaiting first qs.length) := by
  have tickets : ((List.range' first qs.length).zip qs).map Prod.fst =
      List.range' first qs.length := List.map_fst_zip (by simp)
  have requests : ((List.range' first qs.length).zip qs).map Prod.snd = qs :=
    List.map_snd_zip (by simp)
  simp [flush, submitted, idle, awaiting, tickets, requests]

end Channel

/-! ## Groups -/

/-- Changing the element that stands behind a prefix. -/
theorem modify_length_append {α : Type} (before : List α) (a : α) (after : List α) (f : α → α) :
    (before ++ a :: after).modify before.length f = before ++ f a :: after := by
  induction before with
  | nil => rfl
  | cons b before ih => simp only [List.cons_append, List.length_cons, List.modify_succ_cons, ih]

namespace GroupOf

variable {σ ρ κ : Type}

/-- A group that is looked at around one of its members. -/
def around (before : List (Member σ ρ κ)) (m : Member σ ρ κ) (after : List (Member σ ρ κ))
    (associations : List (Ticket × Nat)) : Group σ ρ κ :=
  ⟨before ++ m :: after, associations⟩

/-- The associations of a member with consecutive tickets. -/
def block (first count index : Nat) : List (Ticket × Nat) :=
  (List.range' first count).map fun ticket => (ticket, index)

@[simp] theorem block_zero (first index : Nat) : block first 0 index = [] := rfl

theorem block_succ (first count index : Nat) :
    block first (count + 1) index = (first, index) :: block (first + 1) count index := by
  rw [block, List.range'_succ, List.map_cons, block]

variable {before after : List (Member σ ρ κ)} {m : Member σ ρ κ}
  {associations : List (Ticket × Nat)}

theorem changeMember_around (change : Member σ ρ κ → Member σ ρ κ) :
    (around before m after associations).changeMember before.length change =
      around before (change m) after associations := by
  rw [changeMember, around, modify_length_append, around]

theorem submitAll_around (qs : List κ) (c : Channel κ) :
    (around before m after associations).submitAll before.length qs c =
      (around before { m with owed := m.owed + qs.length } after
        (associations ++ block c.nextTicket qs.length before.length), c.submitted qs) := by
  induction qs generalizing m associations c with
  | nil => simp [submitAll]
  | cons q qs ih =>
      have first : c.submit q = (c.nextTicket, c.submitted [q]) := by
        simp [Channel.submit, Channel.submitted]
      rw [submitAll, first]
      simp only [changeMember_around]
      have counted : m.owed + 1 + qs.length = m.owed + (q :: qs).length := by
        rw [List.length_cons]; omega
      change submitAll (around before _ after _) _ _ _ = _
      rw [ih, Channel.submitted_append, List.length_cons, block_succ]
      simp only [counted, List.append_assoc, List.singleton_append, Channel.submitted_nextTicket,
        List.length_cons]
      rfl

theorem credit_around_last (response : Response) (last : m.owed = 1) :
    (around before m after associations).credit before.length response =
      (around before { m with buffered := [], owed := 0 } after associations,
        some (m.buffered ++ [response])) := by
  have found : (around before m after associations).members[before.length]? = some m := by
    simp [around]
  rw [credit, found]
  simp only [last, if_true, changeMember_around]

theorem credit_around_more (before : List (Member σ ρ κ)) (m : Member σ ρ κ)
    (after : List (Member σ ρ κ)) (associations : List (Ticket × Nat)) (response : Response)
    (more : m.owed ≠ 1) :
    (around before m after associations).credit before.length response =
      (around before { m with buffered := m.buffered ++ [response], owed := m.owed - 1 } after
        associations, none) := by
  have found : (around before m after associations).members[before.length]? = some m := by
    simp [around]
  rw [credit, found]
  simp only [more, if_false, changeMember_around]

end GroupOf

end RuleAnalysis
