import RuleAnalysis.Config.Basic

namespace RuleAnalysis
namespace Value

/-!
# Resolving selections

Under a configuration every selection stands for one of its branches. A branch
may hold selections again, so resolving goes on inside the branch it has
picked, and into lists and maps. What providers hold is theirs and stays as it
is.
-/

mutual

def resolveSelections (c : BuildConfig) : Value → Value
  | .selection s => resolveBranches c s
  | .list items => .list (resolveItems c items)
  | .map entries => .map (resolveEntries c entries)
  | v => v

def resolveItems (c : BuildConfig) : List Value → List Value
  | [] => []
  | item :: rest => item.resolveSelections c :: resolveItems c rest

def resolveEntries (c : BuildConfig) : List (String × Value) → List (String × Value)
  | [] => []
  | (key, value) :: rest => (key, value.resolveSelections c) :: resolveEntries c rest

def resolveBranches (c : BuildConfig) : Selection → Value
  | ⟨mapping, default⟩ => resolveFirst c mapping (default.resolveSelections c)

/-- The resolved value of the first branch that is selected, or else the one given. -/
def resolveFirst (c : BuildConfig) : List (TypeRef × Value) → Value → Value
  | [], otherwise => otherwise
  | (key, value) :: rest, otherwise =>
      if c.isSelected key then value.resolveSelections c else resolveFirst c rest otherwise

end

/-- Resolving a selection resolves the branch that the configuration picks. -/
theorem resolveSelections_selection (c : BuildConfig) (s : Selection) :
    resolveSelections c (.selection s) = resolveSelections c (s.resolve c) := by
  obtain ⟨mapping, default⟩ := s
  simp only [resolveSelections, resolveBranches, Selection.resolve]
  induction mapping with
  | nil => simp [resolveFirst]
  | cons branch rest ih =>
      obtain ⟨key, value⟩ := branch
      by_cases picked : c.isSelected key = true
      · simp [resolveFirst, picked]
      · simp [resolveFirst, picked, ih]

end Value
end RuleAnalysis
