import RuleAnalysis.Proofs.Label.Normalization

namespace RuleAnalysis
namespace LabelPath

/-!
# Joined and relative paths

A path is known by its components and by whether it is absolute; how many
slashes stand between the components, or behind the last one, makes no
difference. Joining appends components and a relative path is what is left of
them, so each undoes the other. Slashes come and go on the way: only the root
is passed over without one.
-/

open Text

variable {a b p r : LabelPath}

/-! ## What a path begins with -/

theorem isTop_iff : p.isTop = true ↔ p = top := by
  rw [isTop, decide_eq_true_iff, top, mk.injEq]

theorem chars_ne_nil (named : p ≠ top) : p.chars ≠ [] := by
  intro empty
  rw [chars, String.toList_eq_nil_iff] at empty
  exact named (isTop_iff.mp (decide_eq_true empty))

theorem isAbsolute_congr (same : a.chars.head? = b.chars.head?) :
    a.isAbsolute = b.isAbsolute := by
  rw [isAbsolute, isAbsolute, same]

/-- The first character stays: if all are slashes and dropped, the one that is added is first. -/
theorem head?_dropTrailing_append {cs : List Char} (filled : cs ≠ []) (ds : List Char) :
    (dropTrailing (· = '/') cs ++ '/' :: ds).head? = cs.head? := by
  rcases exists_trailing (· = '/') cs with ⟨trailing, whole, each⟩
  cases front : dropTrailing (· = '/') cs with
  | cons c rest =>
      rw [front] at whole
      rw [← whole]
      rfl
  | nil =>
      rw [front, List.nil_append] at whole
      subst whole
      cases trailing with
      | nil => exact absurd rfl filled
      | cons c rest =>
          have slash : c = '/' := of_decide_eq_true (each c List.mem_cons_self)
          rw [slash]
          rfl

/-! ## Joining -/

theorem join_of_top (b : LabelPath) : top.join b = b :=
  if_pos (Bool.or_true _)

theorem join_top (a : LabelPath) : a.join top = a := by
  unfold join
  split
  · next based =>
      have root : a = top := isTop_iff.mp based
      exact root.symm
  · rfl

theorem chars_join (relative : b.isAbsolute = false) (based : a ≠ top) (named : b ≠ top) :
    (a.join b).chars = dropTrailing (· = '/') a.chars ++ '/' :: b.chars := by
  have based : a.isTop = false := Bool.eq_false_iff.mpr (mt isTop_iff.mp based)
  have named : b.isTop = false := Bool.eq_false_iff.mpr (mt isTop_iff.mp named)
  rw [join, relative, based, named]
  exact String.toList_ofList

/-- A joined path has the components of both. -/
theorem components_join (relative : b.isAbsolute = false) :
    (a.join b).components = a.components ++ b.components := by
  by_cases based : a = top
  · rw [based, join_of_top]
    rfl
  · by_cases named : b = top
    · rw [named, join_top]
      exact (List.append_nil _).symm
    · have slash : decide ('/' = '/') = true := rfl
      rw [components, chars_join relative based named, pieces_append slash, List.filter_append,
        filter_pieces_dropTrailing slash rfl]
      rfl

/-- It is as absolute as the path in front. -/
theorem isAbsolute_join (relative : b.isAbsolute = false) :
    (a.join b).isAbsolute = a.isAbsolute := by
  by_cases based : a = top
  · rw [based, join_of_top, relative]
    rfl
  · by_cases named : b = top
    · rw [named, join_top]
    · apply isAbsolute_congr
      rw [chars_join relative based named]
      exact head?_dropTrailing_append (chars_ne_nil based) b.chars

/-! ## What is left behind a base -/

/-- Components that are taken from a path can be written as a path of their own. -/
theorem clear_of_subset {parts : List (List Char)} (taken : parts ⊆ p.components) :
    ∀ part ∈ parts, part ≠ [] ∧ '/' ∉ part :=
  fun _ member => components_clear (taken member)

/-- A path leads on from a base if it has the base's components in front. -/
theorem relativeTo?_eq_some_iff :
    p.relativeTo? a = some r ↔
      p.isAbsolute = a.isAbsolute ∧
        ∃ rest, p.components = a.components ++ rest ∧ r = ofComponents false rest := by
  unfold relativeTo?
  split
  · next differ =>
      refine iff_of_false nofun fun leads => ?_
      exact bne_iff_ne.mp differ leads.1
  · next alike =>
      have alike : p.isAbsolute = a.isAbsolute := by simpa using alike
      rw [and_iff_right alike]
      split
      · next begins =>
          rcases List.isPrefixOf_iff_prefix.mp begins with ⟨rest, whole⟩
          rw [← whole, List.drop_left, Option.some.injEq]
          constructor
          · intro same
            exact ⟨rest, rfl, same.symm⟩
          · rintro ⟨other, same, rfl⟩
            rw [List.append_cancel_left same]
      · next strays =>
          refine iff_of_false nofun ?_
          rintro ⟨rest, whole, _⟩
          exact strays (List.isPrefixOf_iff_prefix.mpr ⟨rest, whole.symm⟩)

theorem relativeTo?_eq_none_iff :
    p.relativeTo? a = none ↔ p.isAbsolute ≠ a.isAbsolute ∨ ¬ a.components <+: p.components := by
  rw [← not_and_or, Option.eq_none_iff_forall_ne_some]
  simp only [Ne, relativeTo?_eq_some_iff]
  constructor
  · rintro never ⟨alike, rest, whole⟩
    exact never _ ⟨alike, rest, whole.symm, rfl⟩
  · rintro differs r ⟨alike, rest, whole, _⟩
    exact differs ⟨alike, rest, whole.symm⟩

/-- What is left is relative and has the components that are left. -/
theorem parts_of_relativeTo? (leads : p.relativeTo? a = some r) :
    p.isAbsolute = a.isAbsolute ∧ r.isAbsolute = false ∧
      p.components = a.components ++ r.components := by
  rcases relativeTo?_eq_some_iff.mp leads with ⟨alike, rest, whole, rfl⟩
  have taken : rest ⊆ p.components := by
    rw [whole]
    exact List.subset_append_right _ _
  have clear := clear_of_subset taken
  rw [components_ofComponents false clear]
  exact ⟨alike, isAbsolute_ofComponents false clear, whole⟩

theorem exists_relativeTo?_join (relative : b.isAbsolute = false) :
    ∃ r, (a.join b).relativeTo? a = some r := by
  have whole := components_join (a := a) relative
  exact ⟨_, relativeTo?_eq_some_iff.mpr ⟨isAbsolute_join relative, b.components, whole, rfl⟩⟩

/-! ## Each undoes the other -/

/-- Joining a relative path appends its components and keeps all else of the base; a root on either
side leaves the other path as it is written. What is then left behind the base has the components
that were appended. Where something is left behind a base, joining it leads back to the components
of the path, and nothing is left exactly if the path is absolute and the base is not, or the other
way round, or if the base's components do not stand in front. -/
theorem join_and_relativeTo? (a b p : LabelPath) :
    (b.isAbsolute = false →
      (a.join b).isAbsolute = a.isAbsolute ∧
      (a.join b).components = a.components ++ b.components ∧
      (a.isTop = true → a.join b = b) ∧ (b.isTop = true → a.join b = a) ∧
      ∃ r, (a.join b).relativeTo? a = some r ∧
        r.isAbsolute = false ∧ r.components = b.components) ∧
    (∀ r, p.relativeTo? a = some r →
      (a.join r).isAbsolute = p.isAbsolute ∧ (a.join r).components = p.components) ∧
    (p.relativeTo? a = none ↔
      p.isAbsolute ≠ a.isAbsolute ∨ ¬ a.components <+: p.components) := by
  refine ⟨fun relative => ⟨isAbsolute_join relative, components_join relative, ?_, ?_, ?_⟩, ?_,
    relativeTo?_eq_none_iff⟩
  · intro based
    rw [isTop_iff.mp based, join_of_top]
  · intro named
    rw [isTop_iff.mp named, join_top]
  · rcases exists_relativeTo?_join (a := a) relative with ⟨r, leads⟩
    rcases parts_of_relativeTo? leads with ⟨_, remains, whole⟩
    rw [components_join relative] at whole
    exact ⟨r, leads, remains, (List.append_cancel_left whole).symm⟩
  · intro r leads
    rcases parts_of_relativeTo? leads with ⟨alike, remains, whole⟩
    rw [isAbsolute_join remains, components_join remains, alike, whole]
    exact ⟨rfl, rfl⟩

/-- The slashes of the base and of the path do not come back, but all components do. -/
theorem join_and_relativeTo?_slashes :
    let a : LabelPath := ⟨"//usr//"⟩
    let b : LabelPath := ⟨"./lib//"⟩
    b.isAbsolute = false ∧
    a.join b = ⟨"//usr/./lib//"⟩ ∧
    (a.join b).relativeTo? a = some ⟨"./lib"⟩ ∧
    (a.join b).components = a.components ++ b.components ∧
    (a.join ⟨"./lib"⟩).components = (a.join b).components := by
  intro a b
  have relative : b.isAbsolute = false := by decide +kernel
  have leads : (a.join b).relativeTo? a = some ⟨"./lib"⟩ := by decide +kernel
  have both := join_and_relativeTo? a b (a.join b)
  exact ⟨relative, by decide +kernel, leads, (both.1 relative).2.1, (both.2.1 _ leads).2⟩

end LabelPath
end RuleAnalysis
