import Mathlib.Data.List.Sort
import RuleAnalysis.Proofs.Success
import RuleAnalysis.Proofs.Wire.Trees

namespace RuleAnalysis
namespace Dictionary

/-!
# Names bound one after another

A dictionary is filled from a list of bindings, of which the last for a name
holds. It is in order whatever the order of the list, and then it is known by
what it binds: nothing tells apart two dictionaries that bind the same names to
the same values.
-/

variable {α β : Type}

/-! ## What a name is bound to -/

/-- A name is bound to what the second dictionary has last for it, or else as before. -/
theorem get?_override (d e : Dictionary α) (name : String) :
    (d.override e).get? name = (e.reverse.lookup name).or (d.get? name) := by
  induction e generalizing d with
  | nil => rfl
  | cons binding rest ih =>
      change (override (d.insert binding.1 binding.2) rest).get? name = _
      rw [ih, List.reverse_cons, List.lookup_append, Option.or_assoc]
      congr 1
      by_cases same : name = binding.1
      · subst same
        rw [get?_insert_self, List.lookup_cons_self, Option.some_or]
      · have apart : (name == binding.1) = false := by simpa using same
        rw [get?_insert_of_ne d binding.2 same, List.lookup_cons, apart]
        rfl

/-- A dictionary that is filled from a list has the names of the list. -/
theorem contains_override_nil (e : List (String × α)) (name : String) :
    (override [] e).contains name = decide (name ∈ e.map Prod.fst) := by
  have same : (override [] e).get? name = e.reverse.lookup name := by
    rw [get?_override]
    exact Option.or_none
  rw [contains, same, Bool.eq_iff_iff, isSome_lookup_iff, List.map_reverse, List.mem_reverse,
    decide_eq_true_iff]

theorem mem_keys_iff {d : Dictionary α} {name : String} :
    name ∈ d.keys ↔ ∃ value, d.get? name = some value := by
  rw [keys, ← isSome_lookup_iff, Option.isSome_iff_exists]
  rfl

/-- Where each name is bound once, it does not matter from which end it is looked up. -/
theorem lookup_reverse {d : Dictionary α} (once : d.keys.Nodup) (name : String) :
    d.reverse.lookup name = d.get? name := by
  have likewise : (d.reverse.map Prod.fst).Nodup := by
    rw [List.map_reverse]
    exact List.nodup_reverse.mpr once
  apply Option.ext
  intro value
  change _ ↔ d.lookup name = some value
  rw [lookup_eq_some_iff once, lookup_eq_some_iff likewise, List.mem_reverse]

/-- Lists that stand beside each other under the same names bind each name to values that stand
beside each other under it. -/
theorem lookup_forall₂ {r : String → α → β → Prop} {as : List (String × α)}
    {bs : List (String × β)} (each : List.Forall₂ (fun a b => b.1 = a.1 ∧ r a.1 a.2 b.2) as bs)
    (name : String) : Option.Rel (r name) (as.lookup name) (bs.lookup name) := by
  induction each with
  | nil => exact .none
  | @cons a b as bs first _ ih =>
      rcases a with ⟨key, v⟩
      rcases b with ⟨key', w⟩
      rcases first with ⟨same, holds⟩
      cases same
      rw [List.lookup_cons, List.lookup_cons]
      by_cases here : name = key
      · subst here
        rw [beq_self_eq_true]
        exact .some holds
      · have apart : (name == key) = false := by simpa using here
        rw [apart]
        exact ih

/-! ## What a dictionary is known by -/

theorem Ordered.override {d : Dictionary α} (ordered : Ordered d) (e : Dictionary α) :
    Ordered (d.override e) := by
  induction e generalizing d with
  | nil => exact ordered
  | cons binding rest ih => exact ih (ordered.insert binding.1 binding.2)

/-- Dictionaries that bind the same names to the same values are the same. -/
theorem Ordered.ext {d e : Dictionary α} (left : Ordered d) (right : Ordered e)
    (same : ∀ name, d.get? name = e.get? name) : d = e := by
  have entries : ∀ entry : String × α, entry ∈ d ↔ entry ∈ e := by
    rintro ⟨name, value⟩
    rw [← lookup_eq_some_iff left.nodup, ← lookup_eq_some_iff right.nodup]
    exact iff_of_eq (congrArg (· = some value) (same name))
  have sorted {f : Dictionary α} (ordered : Ordered f) :
      f.Pairwise fun entry other => entry.1 < other.1 := List.pairwise_map.mp ordered
  have distinct {f : Dictionary α} (ordered : Ordered f) : f.Nodup :=
    List.Nodup.of_map Prod.fst ordered.nodup
  have permuted := (List.perm_ext_iff_of_nodup (distinct left) (distinct right)).mpr entries
  refine permuted.eq_of_pairwise ?_ (sorted left) (sorted right)
  intro entry other _ _ less more
  exact absurd more (String.lt_asymm less)

/-! ## What is left out -/

section

variable {ε ι : Type} {name : ι → String} {fallback : ι → Except ε (Option (String × α))}

/-- Binds the names that are not bound yet, one after another, to what their fallbacks yield. -/
def fillIn (name : ι → String) (fallback : ι → Except ε (Option (String × α))) :
    List ι → Dictionary α → Except ε (Dictionary α)
  | [], d => .ok d
  | i :: rest, d =>
      if d.contains (name i) then fillIn name fallback rest d
      else fallback i >>= fun bound => fillIn name fallback rest (d.override bound.toList)

/-- What is filled in under one name is nothing to the others. -/
theorem contains_override_of_ne {d : Dictionary α} {bound : Option (String × α)} {key other : String}
    (own : ∀ binding ∈ bound, binding.1 = key) (differs : other ≠ key) :
    (d.override bound.toList).contains other = d.contains other := by
  cases bound with
  | none => rfl
  | some binding =>
      have apart : other ≠ binding.1 := by
        rw [own binding rfl]
        exact differs
      change (d.insert binding.1 binding.2).contains other = _
      rw [contains, get?_insert_of_ne d binding.2 apart]
      rfl

/-- Fallbacks are taken for the names that are not bound before the round begins: none of them is
bound by another's fallback. -/
theorem fillIn_eq (own : ∀ i bound, fallback i = .ok bound → ∀ binding ∈ bound, binding.1 = name i)
    {items : List ι} (distinct : (items.map name).Nodup) (d : Dictionary α) :
    fillIn name fallback items d =
      ((items.filter fun i => !d.contains (name i)).mapM fallback).map
        fun bound => d.override (bound.filterMap id) := by
  induction items generalizing d with
  | nil => rfl
  | cons i rest ih =>
      rw [List.map_cons, List.nodup_cons] at distinct
      rw [fillIn]
      cases held : d.contains (name i) with
      | true => rw [if_pos rfl, ih distinct.2, List.filter_cons_of_neg (by simp [held])]
      | false =>
          rw [if_neg Bool.false_ne_true, List.filter_cons_of_pos (by simp [held]), List.mapM_cons]
          cases filled : fallback i with
          | error e => rfl
          | ok bound =>
              have unaffected : (rest.filter fun j => !(d.override bound.toList).contains (name j)) =
                  rest.filter fun j => !d.contains (name j) := by
                apply List.filter_congr
                intro j member
                have differs : name j ≠ name i := by
                  intro same
                  exact distinct.1 (same ▸ List.mem_map_of_mem member)
                rw [contains_override_of_ne (own i bound filled) differs]
              change fillIn name fallback rest (d.override bound.toList) = _
              rw [ih distinct.2, unaffected]
              cases (rest.filter fun j => !d.contains (name j)).mapM fallback with
              | error e => rfl
              | ok others => cases bound <;> rfl

end

end Dictionary
end RuleAnalysis
