import RuleAnalysis.Value.Basic

namespace RuleAnalysis
namespace Value

/-!
# The parts of a value

A value is made of the items of a list, the entries of a map, the fields of a
provider or the branches of a selection. All of these are smaller than the
value, so what is passed on from the parts to the whole holds of every value.
-/

/-- The values that a value is immediately made of. -/
def parts : Value → List Value
  | list items => items
  | map entries => entries.map Prod.snd
  | provider p => p.data.map Prod.snd
  | selection s => s.default :: s.mapping.map Prod.snd
  | _ => []

theorem sizeOf_lt_of_mem_entries {κ : Type} [SizeOf κ] {entries : List (κ × Value)} {part : Value}
    (member : part ∈ entries.map Prod.snd) : sizeOf part < sizeOf entries := by
  rcases List.mem_map.mp member with ⟨⟨key, value⟩, entry, rfl⟩
  have smaller := List.sizeOf_lt_of_mem entry
  have pair : sizeOf (key, value) = 1 + sizeOf key + sizeOf value := rfl
  simp only
  omega

theorem sizeOf_lt_of_mem_parts {v part : Value} (member : part ∈ v.parts) :
    sizeOf part < sizeOf v := by
  cases v with
  | list items =>
      have smaller : sizeOf part < sizeOf items := List.sizeOf_lt_of_mem member
      rw [list.sizeOf_spec]
      omega
  | map entries =>
      have smaller : sizeOf part < sizeOf entries := sizeOf_lt_of_mem_entries member
      rw [map.sizeOf_spec]
      omega
  | provider p =>
      obtain ⟨reference, data⟩ := p
      have smaller : sizeOf part < sizeOf data := sizeOf_lt_of_mem_entries member
      rw [provider.sizeOf_spec, Provider.mk.sizeOf_spec]
      omega
  | selection s =>
      obtain ⟨mapping, default⟩ := s
      rw [selection.sizeOf_spec, Selection.mk.sizeOf_spec]
      rcases List.mem_cons.mp member with rfl | branch
      · omega
      · have smaller : sizeOf part < sizeOf mapping := sizeOf_lt_of_mem_entries branch
        omega
  | _ => cases member

/-- What holds of a value whenever it holds of the parts of the value holds of all values. -/
theorem induction_on_parts {P : Value → Prop} (step : ∀ v, (∀ part ∈ v.parts, P part) → P v)
    (v : Value) : P v :=
  step v fun part _ => induction_on_parts step part
termination_by sizeOf v
decreasing_by exact sizeOf_lt_of_mem_parts ‹_›

/-- The property holds of the value and of every value in it, however deep it lies. -/
inductive Every (P : Value → Prop) : Value → Prop
  | intro {v : Value} (here : P v) (parts : ∀ part ∈ v.parts, Every P part) : Every P v

namespace Every

variable {P : Value → Prop} {v : Value}

theorem leaf (here : P v) (none : v.parts = []) : Every P v := by
  refine .intro here fun part member => ?_
  rw [none] at member
  cases member

theorem here (every : Every P v) : P v := by
  cases every with
  | intro here _ => exact here

theorem part (every : Every P v) {part : Value} (member : part ∈ v.parts) : Every P part := by
  cases every with
  | intro _ parts => exact parts part member

end Every

end Value
end RuleAnalysis
