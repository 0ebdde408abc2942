import Mathlib.Data.List.Induction
import Mathlib.Data.List.Nodup
import RuleAnalysis.Config.Basic
import RuleAnalysis.Proofs.Lookups

namespace RuleAnalysis
namespace BuildConfig

/-!
# Configurations are maps

A configuration lists the selected options with their families. Selecting
replaces an option where its family stands and appends it where it stands
nowhere, so no family is ever listed twice: a configuration is a map from
families to options that remembers in which order the families have come. All
of it rests on what one selection does to the listing.
-/

variable {options : List (TypeRef × TypeRef)}

/-- The families of a listing in their order. -/
def families (options : List (TypeRef × TypeRef)) : List TypeRef := options.map Prod.fst

/-- The option that is given last for a family. -/
def lastGiven? (given : List ConfigOption) (family : TypeRef) : Option TypeRef :=
  ((given.filter fun o => o.family = family).getLast?).map ConfigOption.option

/-! ## One selection -/

theorem lookup_cons (listed option : TypeRef) (rest : List (TypeRef × TypeRef))
    (family : TypeRef) :
    ((listed, option) :: rest).lookup family =
      if family = listed then some option else rest.lookup family := by
  by_cases here : family = listed
  · rw [here, List.lookup_cons_self, if_pos rfl]
  · have apart : (family == listed) = false := by simpa using here
    rw [List.lookup_cons, apart, if_neg here]

theorem lookup_select (options : List (TypeRef × TypeRef)) (o : ConfigOption) (family : TypeRef) :
    (select options o).lookup family =
      if family = o.family then some o.option else options.lookup family := by
  induction options with
  | nil => rw [select, lookup_cons]
  | cons entry rest ih =>
      rcases entry with ⟨listed, option⟩
      by_cases replaced : listed = o.family
      · subst replaced
        rw [select, if_pos rfl, lookup_cons, lookup_cons]
        split <;> rfl
      · rw [select, if_neg replaced, lookup_cons, lookup_cons, ih]
        by_cases here : family = listed
        · rw [if_pos here, if_pos here, if_neg (here ▸ replaced)]
        · rw [if_neg here, if_neg here]

/-- A family keeps its place, and a new one comes behind all others. -/
theorem families_select (options : List (TypeRef × TypeRef)) (o : ConfigOption) :
    families (select options o) =
      families options ++ if o.family ∈ families options then [] else [o.family] := by
  induction options with
  | nil => rfl
  | cons entry rest ih =>
      rcases entry with ⟨listed, option⟩
      by_cases replaced : listed = o.family
      · simp [select, families, replaced]
      · have elsewhere : o.family ∈ families ((listed, option) :: rest) ↔
            o.family ∈ families rest := by
          simp [families, Ne.symm replaced]
        rw [select, if_neg replaced]
        simp only [elsewhere]
        change listed :: families (select rest o) = listed :: families rest ++ _
        rw [ih, List.cons_append]

theorem nodup_select (once : (families options).Nodup) (o : ConfigOption) :
    (families (select options o)).Nodup := by
  rw [families_select]
  split
  · rwa [List.append_nil]
  · next absent =>
      exact List.nodup_append'.mpr ⟨once, List.nodup_singleton _, by simpa using absent⟩

/-! ## Selections one after another -/

theorem lookup_foldl_select (given : List ConfigOption) (family : TypeRef) :
    (given.foldl select []).lookup family = lastGiven? given family := by
  induction given using List.reverseRecOn with
  | nil => rfl
  | append_singleton earlier o ih =>
      rw [List.foldl_concat, lookup_select, ih, lastGiven?, lastGiven?, List.filter_append]
      by_cases same : o.family = family
      · subst same
        simp
      · simp [same, Ne.symm same]

/-- What comes last is told apart by whether it has come before. -/
theorem eraseDups_concat (earlier : List TypeRef) (family : TypeRef) :
    (earlier ++ [family]).eraseDups =
      earlier.eraseDups ++ if family ∈ earlier then [] else [family] := by
  rw [List.eraseDups_append]
  congr 1
  by_cases present : family ∈ earlier <;>
    simp [List.removeAll, List.eraseDups_cons, present]

theorem families_foldl_select (given : List ConfigOption) :
    families (given.foldl select []) = (given.map ConfigOption.family).eraseDups := by
  induction given using List.reverseRecOn with
  | nil => rfl
  | append_singleton earlier o ih =>
      rw [List.foldl_concat, families_select, ih, List.map_append, List.map_singleton,
        eraseDups_concat]
      simp only [List.mem_eraseDups]

theorem nodup_foldl_select (given : List ConfigOption) :
    (families (given.foldl select [])).Nodup := by
  induction given using List.reverseRecOn with
  | nil => exact List.nodup_nil
  | append_singleton earlier o ih =>
      rw [List.foldl_concat]
      exact nodup_select ih o

/-! ## Changes of a configuration -/

/-- Each family is listed at most once. -/
structure Single (c : BuildConfig) : Prop where
  options : (families c.options).Nodup
  hostOptions : (families c.hostOptions).Nodup

inductive Change where
  | set (o : ConfigOption)
  | transitionToHost

def change (c : BuildConfig) : Change → BuildConfig
  | .set o => c.set o
  | .transitionToHost => c.transitionToHost

theorem single_ofOptions (given hostGiven : List ConfigOption) :
    (ofOptions given hostGiven).Single :=
  ⟨nodup_foldl_select given, nodup_foldl_select hostGiven⟩

theorem Single.change {c : BuildConfig} (single : c.Single) (step : Change) :
    (c.change step).Single := by
  cases step with
  | set o => exact ⟨nodup_select single.options o, single.hostOptions⟩
  | transitionToHost => exact ⟨single.hostOptions, single.hostOptions⟩

theorem Single.foldl_change {c : BuildConfig} (single : c.Single) (steps : List Change) :
    (steps.foldl BuildConfig.change c).Single := by
  induction steps generalizing c with
  | nil => exact single
  | cons step rest ih => exact ih (single.change step)

/-! ## What is selected -/

theorem isSelected_iff_mem (c : BuildConfig) (option : TypeRef) :
    c.isSelected option = true ↔ ∃ family, (family, option) ∈ c.options := by
  simp [isSelected]

theorem Single.isSelected_iff {c : BuildConfig} (single : c.Single) (option : TypeRef) :
    c.isSelected option = true ↔ ∃ family, c.get? family = some option := by
  rw [isSelected_iff_mem]
  constructor
  · rintro ⟨family, member⟩
    exact ⟨family, lookup_of_mem single.options member⟩
  · rintro ⟨family, found⟩
    exact ⟨family, mem_of_lookup found⟩

/-- However a configuration has been made and changed, each family is listed once in it, and an
option is selected exactly if it is the one of some family. At first the families stand in the order
in which they were given first, each with the option that was given last. Selecting an option
changes it for its family and nothing else: a family that is listed keeps its place, and a new one
comes last. The configuration for tools has the options of the host on both sides. -/
theorem configurations_are_maps (given hostGiven : List ConfigOption) (steps : List Change) :
    let fresh := ofOptions given hostGiven
    let c := steps.foldl change fresh
    ((families c.options).Nodup ∧ (families c.hostOptions).Nodup) ∧
    (∀ option, c.isSelected option = true ↔ ∃ family, c.get? family = some option) ∧
    (families fresh.options = (given.map ConfigOption.family).eraseDups ∧
      families fresh.hostOptions = (hostGiven.map ConfigOption.family).eraseDups) ∧
    (∀ family, fresh.get? family = lastGiven? given family ∧
      fresh.getHost? family = lastGiven? hostGiven family) ∧
    (∀ o : ConfigOption,
      (∀ family, (c.set o).get? family =
        if family = o.family then some o.option else c.get? family) ∧
      families (c.set o).options =
        families c.options ++ (if o.family ∈ families c.options then [] else [o.family]) ∧
      (c.set o).hostOptions = c.hostOptions) ∧
    ∀ family, c.transitionToHost.get? family = c.getHost? family ∧
      c.transitionToHost.getHost? family = c.getHost? family ∧
      (c.forRequest true).get? family = c.getHost? family ∧
      (c.forRequest true).getHost? family = c.getHost? family := by
  intro fresh c
  have single : c.Single := (single_ofOptions given hostGiven).foldl_change steps
  refine ⟨⟨single.options, single.hostOptions⟩, single.isSelected_iff, ?_, ?_, ?_, ?_⟩
  · exact ⟨families_foldl_select given, families_foldl_select hostGiven⟩
  · intro family
    exact ⟨lookup_foldl_select given family, lookup_foldl_select hostGiven family⟩
  · intro o
    exact ⟨lookup_select c.options o, families_select c.options o, rfl⟩
  · intro family
    exact ⟨rfl, rfl, rfl, rfl⟩

end BuildConfig
end RuleAnalysis
