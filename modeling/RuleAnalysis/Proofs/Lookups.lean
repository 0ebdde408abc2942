import Mathlib.Data.List.Nodup

namespace RuleAnalysis

/-!
# What is listed under a key

What is found under a key is listed with it. Where no key is listed twice, it
is the other way about as well: all that is listed is found.
-/

variable {α β : Type} [BEq α] [LawfulBEq α] {entries : List (α × β)} {key : α} {value : β}

theorem mem_of_lookup (found : entries.lookup key = some value) : (key, value) ∈ entries := by
  rcases List.lookup_eq_some_iff.mp found with ⟨before, after, listed, _⟩
  rw [listed]
  exact List.mem_append_right _ List.mem_cons_self

theorem lookup_of_mem (once : (entries.map Prod.fst).Nodup) (member : (key, value) ∈ entries) :
    entries.lookup key = some value := by
  rcases List.append_of_mem member with ⟨before, after, rfl⟩
  refine List.lookup_eq_some_iff.mpr ⟨before, after, rfl, ?_⟩
  intro entry earlier
  rw [List.map_append, List.nodup_append] at once
  have apart := once.2.2 entry.1 (List.mem_map_of_mem earlier) key List.mem_cons_self
  simpa using Ne.symm apart

theorem lookup_eq_some_iff (once : (entries.map Prod.fst).Nodup) :
    entries.lookup key = some value ↔ (key, value) ∈ entries :=
  ⟨mem_of_lookup, lookup_of_mem once⟩

theorem isSome_lookup_iff : (entries.lookup key).isSome ↔ key ∈ entries.map Prod.fst := by
  rw [Option.isSome_iff_exists]
  constructor
  · rintro ⟨value, found⟩
    exact List.mem_map_of_mem (mem_of_lookup found)
  · intro listed
    cases found : entries.lookup key with
    | some value => exact ⟨value, rfl⟩
    | none =>
        rcases List.mem_map.mp listed with ⟨entry, member, same⟩
        have differs := List.lookup_eq_none_iff.mp found _ member
        simp [← same] at differs

theorem lookup_eq_none_iff : entries.lookup key = none ↔ key ∉ entries.map Prod.fst := by
  rw [← isSome_lookup_iff, Option.not_isSome_iff_eq_none]

end RuleAnalysis
