import Mathlib.Data.List.Forall2

namespace RuleAnalysis
namespace Success

/-!
# Steps that succeed

Work that may fail yields a result exactly when each of its steps does. A list
of results stands place by place beside the list that it comes from.
-/

variable {ε α β : Type}

theorem bind_eq_ok_iff {x : Except ε α} {f : α → Except ε β} {b : β} :
    x >>= f = .ok b ↔ ∃ a, x = .ok a ∧ f a = .ok b := by
  cases x with
  | error e => exact ⟨nofun, fun ⟨_, impossible, _⟩ => nomatch impossible⟩
  | ok a => exact ⟨fun ok => ⟨a, rfl, ok⟩, fun ⟨_, same, ok⟩ => by cases same; exact ok⟩

/-- Work in two steps succeeds if the second step does on what the first one yields. -/
theorem exists_bind_eq_ok_iff {x : Except ε α} {f : α → Except ε β} :
    (∃ b, x >>= f = .ok b) ↔ ∃ a, x = .ok a ∧ ∃ b, f a = .ok b := by
  simp only [bind_eq_ok_iff]
  constructor
  · rintro ⟨b, a, first, second⟩
    exact ⟨a, first, b, second⟩
  · rintro ⟨a, first, b, second⟩
    exact ⟨b, a, first, second⟩

theorem exists_pure_eq_ok_iff {a : α} : (∃ b, (pure a : Except ε α) = .ok b) ↔ True :=
  iff_true_intro ⟨a, rfl⟩

theorem bind_eq_error_iff {x : Except ε α} {f : α → Except ε β} {e : ε} :
    x >>= f = .error e ↔ x = .error e ∨ ∃ a, x = .ok a ∧ f a = .error e := by
  cases x with
  | error e' =>
      constructor
      · intro failed
        cases failed
        exact .inl rfl
      · rintro (failed | ⟨_, impossible, _⟩)
        · cases failed
          rfl
        · cases impossible
  | ok a =>
      constructor
      · intro failed
        exact .inr ⟨a, rfl, failed⟩
      · rintro (impossible | ⟨_, same, failed⟩)
        · cases impossible
        · cases same
          exact failed

/-- Work yields a result unless it fails. -/
theorem exists_eq_ok_iff {x : Except ε α} : (∃ a, x = .ok a) ↔ ∀ e, x ≠ .error e := by
  cases x with
  | error e => exact iff_of_false (fun ⟨_, impossible⟩ => nomatch impossible) fun never => never e rfl
  | ok a => exact iff_of_true ⟨a, rfl⟩ nofun

theorem map_eq_ok_iff {x : Except ε α} {f : α → β} {b : β} :
    x.map f = .ok b ↔ ∃ a, x = .ok a ∧ f a = b := by
  cases x with
  | error e => exact ⟨nofun, fun ⟨_, impossible, _⟩ => nomatch impossible⟩
  | ok a => simp [Except.map]

theorem mapError_eq_ok_iff {δ : Type} {x : Except ε α} {f : ε → δ} {a : α} :
    x.mapError f = .ok a ↔ x = .ok a := by
  cases x <;> simp [Except.mapError]

/-- Results stay apart when they are carried over one to one. -/
theorem map_eq_map_iff {f : α → β} (apart : Function.Injective f) {x y : Except ε α} :
    x.map f = y.map f ↔ x = y := by
  cases x <;> cases y <;> simp [Except.map, apart.eq_iff]

theorem mapM_eq_ok_iff {f : α → Except ε β} {as : List α} {bs : List β} :
    as.mapM f = .ok bs ↔ List.Forall₂ (fun a b => f a = .ok b) as bs := by
  induction as generalizing bs with
  | nil =>
      rw [List.mapM_nil, List.forall₂_nil_left_iff]
      exact ⟨fun ok => by cases ok; rfl, fun same => by rw [same]; rfl⟩
  | cons a rest ih =>
      rw [List.mapM_cons, List.forall₂_cons_left_iff]
      simp only [bind_eq_ok_iff, ih]
      constructor
      · rintro ⟨b, first, others, rest, same⟩
        cases same
        exact ⟨b, others, first, rest, rfl⟩
      · rintro ⟨b, others, first, rest, rfl⟩
        exact ⟨b, first, others, rest, rfl⟩

/-- Work on each item that falls into two steps may be done on all items step by step. -/
theorem mapM_eq_ok_iff_exists {γ : Type} {f : α → Except ε γ} {g : α → Except ε β}
    {h : β → Except ε γ} (each : ∀ a c, f a = .ok c ↔ ∃ b, g a = .ok b ∧ h b = .ok c)
    {as : List α} {cs : List γ} :
    as.mapM f = .ok cs ↔ ∃ bs, as.mapM g = .ok bs ∧ bs.mapM h = .ok cs := by
  simp only [mapM_eq_ok_iff]
  induction as generalizing cs with
  | nil => simp
  | cons a rest ih =>
      constructor
      · intro done
        rcases List.forall₂_cons_left_iff.mp done with ⟨c, others, now, later, rfl⟩
        rcases (each a c).mp now with ⟨b, first, second⟩
        rcases ih.mp later with ⟨bs, firsts, seconds⟩
        exact ⟨b :: bs, .cons first firsts, .cons second seconds⟩
      · rintro ⟨_, firsts, seconds⟩
        rcases List.forall₂_cons_left_iff.mp firsts with ⟨b, bs, first, laterFirsts, rfl⟩
        rcases List.forall₂_cons_left_iff.mp seconds with ⟨c, others, second, laterSeconds, rfl⟩
        exact .cons ((each a c).mpr ⟨b, first, second⟩) (ih.mpr ⟨bs, laterFirsts, laterSeconds⟩)

theorem mapM_eq_ok_self_iff {f : α → Except ε α} {as : List α} :
    as.mapM f = .ok as ↔ ∀ a ∈ as, f a = .ok a := by
  rw [mapM_eq_ok_iff, List.forall₂_same]

/-- The first item that fails, and what it fails with. -/
def FirstToFail (fails : α → ε → Prop) (items : List α) (e : ε) : Prop :=
  ∃ front item back, items = front ++ item :: back ∧
    (∀ earlier ∈ front, ∀ e', ¬ fails earlier e') ∧ fails item e

theorem not_firstToFail_nil {fails : α → ε → Prop} {e : ε} : ¬ FirstToFail fails [] e := by
  rintro ⟨front, item, back, impossible, _⟩
  cases front <;> cases impossible

theorem firstToFail_cons_iff {fails : α → ε → Prop} {a : α} {rest : List α} {e : ε} :
    FirstToFail fails (a :: rest) e ↔
      fails a e ∨ (∀ e', ¬ fails a e') ∧ FirstToFail fails rest e := by
  constructor
  · rintro ⟨front, item, back, listed, unfailing, failed⟩
    cases front with
    | nil =>
        cases listed
        exact .inl failed
    | cons first front =>
        cases listed
        rcases List.forall_mem_cons.mp unfailing with ⟨now, later⟩
        exact .inr ⟨now, front, item, back, rfl, later, failed⟩
  · rintro (failed | ⟨now, front, item, back, rfl, later, failed⟩)
    · exact ⟨[], a, rest, rfl, List.forall_mem_nil _, failed⟩
    · exact ⟨a :: front, item, back, rfl, List.forall_mem_cons.mpr ⟨now, later⟩, failed⟩

theorem mapM_eq_error_iff {f : α → Except ε β} {as : List α} {e : ε} :
    as.mapM f = .error e ↔ FirstToFail (fun a e => f a = .error e) as e := by
  induction as with
  | nil => exact iff_of_false nofun not_firstToFail_nil
  | cons a rest ih =>
      rw [List.mapM_cons, bind_eq_error_iff, firstToFail_cons_iff, ← ih]
      refine or_congr_right ?_
      rw [← exists_eq_ok_iff]
      constructor
      · rintro ⟨b, done, failed⟩
        rcases bind_eq_error_iff.mp failed with failed | ⟨_, _, impossible⟩
        · exact ⟨⟨b, done⟩, failed⟩
        · cases impossible
      · rintro ⟨⟨b, done⟩, failed⟩
        exact ⟨b, done, bind_eq_error_iff.mpr (.inl failed)⟩

theorem exists_mapM_eq_ok_iff {f : α → Except ε β} {as : List α} :
    (∃ bs, as.mapM f = .ok bs) ↔ ∀ a ∈ as, ∃ b, f a = .ok b := by
  induction as with
  | nil => exact iff_of_true ⟨[], rfl⟩ (List.forall_mem_nil _)
  | cons a rest ih =>
      rw [List.forall_mem_cons, ← ih]
      simp only [mapM_eq_ok_iff, List.forall₂_cons_left_iff]
      constructor
      · rintro ⟨_, b, others, now, later, rfl⟩
        exact ⟨⟨b, now⟩, others, later⟩
      · rintro ⟨⟨b, now⟩, others, later⟩
        exact ⟨b :: others, b, others, now, later, rfl⟩

/-! ## Work without a fault -/

theorem mapM_eq_some_iff {f : α → Option β} {as : List α} {bs : List β} :
    as.mapM f = some bs ↔ List.Forall₂ (fun a b => f a = some b) as bs := by
  induction as generalizing bs with
  | nil =>
      rw [List.mapM_nil, List.forall₂_nil_left_iff]
      exact Option.some_inj.trans eq_comm
  | cons a rest ih =>
      rw [List.mapM_cons, List.forall₂_cons_left_iff]
      change ((f a).bind fun b => (rest.mapM f).bind fun bs => some (b :: bs)) = some bs ↔ _
      simp only [Option.bind_eq_some_iff, ih, Option.some.injEq]
      constructor
      · rintro ⟨b, first, others, later, same⟩
        exact ⟨b, others, first, later, same.symm⟩
      · rintro ⟨b, others, first, later, same⟩
        exact ⟨b, first, others, later, same.symm⟩

theorem exists_mapM_eq_some_iff {f : α → Option β} {as : List α} :
    (∃ bs, as.mapM f = some bs) ↔ ∀ a ∈ as, ∃ b, f a = some b := by
  induction as with
  | nil => exact iff_of_true ⟨[], rfl⟩ (List.forall_mem_nil _)
  | cons a rest ih =>
      rw [List.forall_mem_cons, ← ih]
      simp only [mapM_eq_some_iff, List.forall₂_cons_left_iff]
      constructor
      · rintro ⟨_, b, others, now, later, rfl⟩
        exact ⟨⟨b, now⟩, others, later⟩
      · rintro ⟨⟨b, now⟩, others, later⟩
        exact ⟨b :: others, b, others, now, later, rfl⟩

/-! ## Lists beside each other -/

theorem forall₂_imp_of_mem {r t : α → β → Prop} {as : List α} {bs : List β}
    (each : List.Forall₂ r as bs) (imp : ∀ a ∈ as, ∀ b ∈ bs, r a b → t a b) :
    List.Forall₂ t as bs := by
  induction each with
  | nil => exact .nil
  | cons first _ ih =>
      refine .cons (imp _ List.mem_cons_self _ List.mem_cons_self first) (ih ?_)
      exact fun a inAs b inBs => imp a (List.mem_cons_of_mem _ inAs) b (List.mem_cons_of_mem _ inBs)

theorem exists_left_of_forall₂ {r : α → β → Prop} {as : List α} {bs : List β}
    (each : List.Forall₂ r as bs) {b : β} (member : b ∈ bs) : ∃ a ∈ as, r a b := by
  induction each with
  | nil => cases member
  | cons first _ ih =>
      rcases List.mem_cons.mp member with rfl | later
      · exact ⟨_, List.mem_cons_self, first⟩
      · rcases ih later with ⟨a, known, holds⟩
        exact ⟨a, List.mem_cons_of_mem _ known, holds⟩

theorem exists_right_of_forall₂ {r : α → β → Prop} {as : List α} {bs : List β}
    (each : List.Forall₂ r as bs) {a : α} (member : a ∈ as) : ∃ b ∈ bs, r a b :=
  exists_left_of_forall₂ each.flip member

end Success
end RuleAnalysis
