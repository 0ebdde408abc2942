import RuleAnalysis.Proofs.Success
import RuleAnalysis.Value.Reader

namespace RuleAnalysis

/-!
# Shapes of values

A shape says what a value has to look like, in words of its own and not by a
reader. A reader is made for a shape if it succeeds on the values that have the
shape and on no others; readers that are put together from others are made for
the shapes that are put together likewise.
-/

inductive Shape where
  | text
  | label
  | flag
  /-- An integer of 32 bits without a sign. -/
  | natural
  | list (item : Shape)
  | dictionary (entry : Shape)
  | optional (shape : Shape)

namespace Shape

def Admits : Shape → Value → Prop
  | text, v => ∃ s, v = .string s
  | label, v => ∃ l, v = .label l
  | flag, v => ∃ b, v = .bool b
  | natural, v => ∃ n : Nat, n < UInt32.size ∧ v = .number (.integer n)
  | list item, v => ∃ items, v = .list items ∧ ∀ part ∈ items, item.Admits part
  | dictionary entry, v => ∃ entries, v = .map entries ∧ ∀ part ∈ entries, entry.Admits part.2
  | optional shape, v => v = .null ∨ shape.Admits v

end Shape

namespace Reader

variable {α : Type} {r : Reader α} {shape : Shape}

/-- The reader succeeds on the values of the shape, and on no others. -/
def Reads (r : Reader α) (shape : Shape) : Prop :=
  ∀ v, (∃ a, r.read? v = some a) ↔ shape.Admits v

/-! ## Plain values -/

theorem string_reads : string.Reads .text := by
  intro v
  cases v with
  | string s => exact iff_of_true ⟨s, rfl⟩ ⟨s, rfl⟩
  | _ => exact iff_of_false nofun nofun

theorem label_reads : label.Reads .label := by
  intro v
  cases v with
  | label l => exact iff_of_true ⟨l, rfl⟩ ⟨l, rfl⟩
  | _ => exact iff_of_false nofun nofun

theorem bool_reads : bool.Reads .flag := by
  intro v
  cases v with
  | bool b => exact iff_of_true ⟨b, rfl⟩ ⟨b, rfl⟩
  | _ => exact iff_of_false nofun nofun

theorem unsigned32?_eq_some_iff {x : Number} {n : Nat} :
    x.unsigned32? = some n ↔ n < UInt32.size ∧ x = .integer n := by
  cases x with
  | real x => exact iff_of_false nofun fun impossible => nomatch impossible.2
  | integer i =>
      have bound : ((Nat.pow 2 32 : Nat) : Int) = UInt32.size := rfl
      simp only [Number.unsigned32?, bound, Number.integer.injEq, Bool.and_eq_true,
        decide_eq_true_eq, Option.ite_none_right_eq_some, Option.some.injEq]
      omega

/-- What is read is the number that the value is, and it has no more than 32 bits. -/
theorem natural_read?_eq_some_iff {v : Value} {n : Nat} :
    natural.read? v = some n ↔ n < UInt32.size ∧ v = .number (.integer n) := by
  cases v with
  | number x =>
      rw [Value.number.injEq]
      exact unsigned32?_eq_some_iff
  | _ => exact iff_of_false nofun fun impossible => nomatch impossible.2

theorem natural_reads : natural.Reads .natural := by
  intro v
  simp only [natural_read?_eq_some_iff, Shape.Admits]

/-! ## Values made of others -/

theorem Reads.optional (reads : r.Reads shape) : r.optional.Reads (.optional shape) := by
  intro v
  by_cases absent : v = .null
  · subst absent
    exact iff_of_true ⟨none, rfl⟩ (.inl rfl)
  · have read : r.optional.read? v = (r.read? v).map some := by
      cases v with
      | null => exact absurd rfl absent
      | _ => rfl
    rw [read, Shape.Admits, or_iff_right absent, ← reads v]
    constructor
    · rintro ⟨_, found⟩
      rcases Option.map_eq_some_iff.mp found with ⟨a, found, _⟩
      exact ⟨a, found⟩
    · rintro ⟨a, found⟩
      exact ⟨some a, by rw [found, Option.map_some]⟩

theorem Reads.list (reads : r.Reads shape) : r.list.Reads (.list shape) := by
  intro v
  cases v with
  | list items =>
      change (∃ as, items.mapM r.read? = some as) ↔ _
      rw [Success.exists_mapM_eq_some_iff]
      simp only [reads _, Shape.Admits, Value.list.injEq, exists_eq_left']
  | _ => exact iff_of_false nofun nofun

theorem Reads.dictionary (reads : r.Reads shape) : r.dictionary.Reads (.dictionary shape) := by
  intro v
  cases v with
  | map entries =>
      change (∃ d, (entries.mapM fun entry => (r.read? entry.2).map (entry.1, ·)) = some d) ↔ _
      rw [Success.exists_mapM_eq_some_iff]
      simp only [Option.map_eq_some_iff, Shape.Admits, Value.map.injEq, exists_eq_left', ← reads _]
      refine forall₂_congr fun entry _ => ?_
      constructor
      · rintro ⟨_, a, found, _⟩
        exact ⟨a, found⟩
      · rintro ⟨a, found⟩
        exact ⟨_, a, found, rfl⟩
  | _ => exact iff_of_false nofun nofun

/-! ## Values that were written item by item -/

theorem list_read?_map {f : α → Value} (each : ∀ a, r.read? (f a) = some a) (as : List α) :
    r.list.read? (.list (as.map f)) = some as := by
  change (as.map f).mapM r.read? = some as
  rw [Success.mapM_eq_some_iff, List.forall₂_map_left_iff, List.forall₂_same]
  exact fun a _ => each a

theorem dictionary_read?_map {f : α → Value} (each : ∀ a, r.read? (f a) = some a)
    (d : Dictionary α) :
    r.dictionary.read? (.map (d.map fun entry => (entry.1, f entry.2))) = some d := by
  change (d.map fun entry => (entry.1, f entry.2)).mapM _ = some d
  rw [Success.mapM_eq_some_iff, List.forall₂_map_left_iff, List.forall₂_same]
  intro entry _
  rw [each, Option.map_some]

end Reader

/-! ## Fields -/

namespace Provider

variable {α : Type} {p : Provider} {r : Reader α} {name : String}

theorem field_eq_ok_iff {a : α} :
    p.field r name = .ok a ↔ ∃ v, p.get? name = some v ∧ r.read? v = some a := by
  unfold field
  cases p.get? name with
  | none => exact iff_of_false nofun fun ⟨_, impossible, _⟩ => nomatch impossible
  | some v =>
      simp only [Value.extract, Option.some.injEq, exists_eq_left']
      cases r.read? v <;> simp

/-- A field can be read exactly if it is there and has the shape that is asked for. -/
theorem exists_field_iff {shape : Shape} (reads : r.Reads shape) :
    (∃ a, p.field r name = .ok a) ↔ ∃ v, p.get? name = some v ∧ shape.Admits v := by
  simp only [field_eq_ok_iff, ← reads _]
  constructor
  · rintro ⟨a, v, present, read⟩
    exact ⟨v, present, a, read⟩
  · rintro ⟨v, present, a, read⟩
    exact ⟨a, v, present, read⟩

end Provider
end RuleAnalysis
