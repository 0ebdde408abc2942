import RuleAnalysis.Action.Basic
import RuleAnalysis.Proofs.Rule.Coercion

namespace RuleAnalysis
namespace Label

/-!
# Addresses of output trees, as joins

The address of an action's output tree puts a colon and the id of the action
behind the address of its owner. Whoever writes a colon and the id as a
relative label reaches the same place as long as the slashes at the end of the
owner are treated alike. A join drops all of them behind the root. The address
of the tree drops a single one, and none of two, since two slashes may be the
end of a root. So the two part ways exactly where two slashes end the label
and are not the root itself.
-/

open Text

variable {l r : Label} {id : String}

/-! ## What stays in front of the colon -/

/-- The text of an owner in front of the colon. -/
def front (l : Label) : List Char :=
  if ['/', '/'] <:+ l.chars ∨ l.chars.getLast? ≠ some '/' then l.chars else l.chars.dropLast

theorem joinAction_eq (l : Label) (id : String) :
    l.joinAction id = ofChars (l.front ++ ':' :: id.toList) := by
  unfold joinAction front
  have spelled : l.chars = l.chars.reverse.reverse := l.chars.reverse_reverse.symm
  split
  · next before ends =>
      rw [ends] at spelled
      have double : ['/', '/'] <:+ l.chars := ⟨before.reverse, by rw [spelled]; simp⟩
      rw [if_pos (Or.inl double)]
  · next before single ends =>
      rw [ends, List.reverse_cons] at spelled
      have one : ¬ ['/', '/'] <:+ l.chars := by
        intro double
        rw [← List.reverse_prefix, ends] at double
        rcases double with ⟨rest, same⟩
        exact single rest (List.cons.inj same).2.symm
      have last : l.chars.getLast? = some '/' := by rw [spelled, List.getLast?_concat]
      have kept : l.chars.dropLast = before.reverse := by rw [spelled, List.dropLast_concat]
      rw [if_neg (by simp [one, last]), kept]
  · next other =>
      have last : l.chars.getLast? ≠ some '/' := by
        intro slash
        rw [List.getLast?_eq_head?_reverse] at slash
        rcases List.head?_eq_some_iff.mp slash with ⟨before, ends⟩
        exact other before ends
      rw [if_pos (Or.inr last)]

/-- The label that a colon and an id make up is joined to what is left of the owner without the
slashes behind its root. -/
theorem join_colonId (l : Label) (id : String) :
    l.join ⟨":" ++ id⟩ = ofChars (l.trimmed ++ ':' :: id.toList) :=
  join_colon l ⟨id⟩

/-! ## Slashes at the end -/

/-- A root is empty or ends with two slashes. -/
theorem IsRoot.ends {f : Form} {root : List Char} (isRoot : IsRoot f root) :
    root = [] ∨ ['/', '/'] <:+ root := by
  cases isRoot with
  | workspaceAbsolute _ _ => exact Or.inr (List.suffix_append _ _)
  | workspaceRelative => exact Or.inr (List.suffix_refl _)
  | packageRelative => exact Or.inl rfl

/-- The end of the rest is the end of the label. -/
theorem getLast?_rest (some_rest : l.rest ≠ []) : l.rest.getLast? = l.chars.getLast? := by
  rw [← root_append_rest l, List.getLast?_append_of_ne_nil _ some_rest]

theorem dropTrailing_slash_eq_iff {cs : List Char} :
    dropTrailing (· = '/') cs = cs ↔ cs.getLast? ≠ some '/' := by
  rw [dropTrailing_eq_self_iff]
  constructor
  · intro kept slash
    exact of_decide_eq_false (kept '/' slash) rfl
  · intro other c last
    apply decide_eq_false
    rintro rfl
    exact other last

/-- A slash at the end that is not one of two stands behind the root, since a root that is there
ends with two. -/
theorem rest_ne_nil_of_single (rooted : l.Rooted) (single : ¬ ['/', '/'] <:+ l.chars)
    (last : l.chars.getLast? = some '/') : l.rest ≠ [] := by
  intro rootOnly
  have whole := root_append_rest l
  rw [rootOnly, List.append_nil] at whole
  rcases rooted.isRoot.ends with rootless | ends
  · rw [← whole, rootless] at last
    cases last
  · exact single (whole ▸ ends)

/-- Without two slashes at the end both ways keep the same text in front of the colon. -/
theorem front_eq_trimmed (rooted : l.Rooted) (single : ¬ ['/', '/'] <:+ l.chars) :
    l.front = l.trimmed := by
  have whole := root_append_rest l
  rw [front, trimmed]
  by_cases last : l.chars.getLast? = some '/'
  · have lastRest := (getLast?_rest (rest_ne_nil_of_single rooted single last)).trans last
    rcases List.getLast?_eq_some_iff.mp lastRest with ⟨before, spelled⟩
    have one : before.getLast? ≠ some '/' := by
      intro another
      rcases List.getLast?_eq_some_iff.mp another with ⟨segments, rfl⟩
      exact single ⟨l.root ++ segments, by rw [← whole, spelled]; simp⟩
    rw [if_neg (by simp [single, last]), ← whole, spelled,
      dropTrailing_concat (decide_eq_true rfl), dropTrailing_slash_eq_iff.mpr one,
      ← List.append_assoc, List.dropLast_concat]
  · have clear : l.rest.getLast? ≠ some '/' := by
      intro slash
      have some_rest : l.rest ≠ [] := by
        intro empty
        rw [empty] at slash
        cases slash
      exact last ((getLast?_rest some_rest).symm.trans slash)
    rw [if_pos (Or.inr last), dropTrailing_slash_eq_iff.mpr clear, whole]

/-- Both ways keep the same text in front of the colon unless two slashes stand at the end behind
the root. -/
theorem front_eq_trimmed_iff (rooted : l.Rooted) :
    l.front = l.trimmed ↔ (['/', '/'] <:+ l.chars → l.rest = []) := by
  by_cases double : ['/', '/'] <:+ l.chars
  · have whole := root_append_rest l
    rw [front, trimmed, if_pos (Or.inl double)]
    have last : l.chars.getLast? = some '/' := by
      rcases double with ⟨before, spelled⟩
      rw [← spelled, List.getLast?_append_cons]
      rfl
    constructor
    · intro same _
      by_contra some_rest
      rw [← whole, List.append_cancel_left_eq] at same
      exact dropTrailing_slash_eq_iff.mp same.symm ((getLast?_rest some_rest).trans last)
    · intro rootOnly
      rw [rootOnly double, ← whole, rootOnly double]
      rfl
  · refine iff_of_true (front_eq_trimmed rooted double) ?_
    intro impossible
    exact absurd impossible double

/-! ## The address of a tree -/

/-- What the address of a tree and the join are, for every owner and every id that makes up a label
behind a colon: they are one label exactly if the owner does not end with two slashes behind its
root. Where it does, the address keeps these slashes and the join drops them. -/
theorem joinAction_eq_join_iff (sound : l.WellFormed) (read : parse (":" ++ id) = .ok r) :
    (l.joinAction id = l.join r ↔ (['/', '/'] <:+ l.chars → l.rest = [])) ∧
    (l.join r).chars = l.trimmed ++ r.chars ∧
    (['/', '/'] <:+ l.chars → (l.joinAction id).chars = l.chars ++ r.chars) ∧
    ∀ a : Action, a.id = id →
      (a.files l = l.join r ↔ (['/', '/'] <:+ l.chars → l.rest = [])) := by
  have spelled : r = ⟨":" ++ id⟩ := by
    have text := (parse_eq_ok_iff.mp read).2
    cases r with
    | mk _ => exact congrArg Label.mk text
  have behind : r.chars = ':' :: id.toList := by
    rw [spelled, chars, String.toList_append]
    rfl
  have joined : l.join r = ofChars (l.trimmed ++ ':' :: id.toList) := by
    rw [spelled]
    exact join_colonId l id
  have agree : l.joinAction id = l.join r ↔ (['/', '/'] <:+ l.chars → l.rest = []) := by
    rw [joinAction_eq, joined, ofChars_eq_iff, chars_ofChars, List.append_cancel_right_eq]
    exact front_eq_trimmed_iff sound.rooted
  refine ⟨agree, ?_, ?_, ?_⟩
  · rw [joined, chars_ofChars, behind]
  · intro double
    rw [joinAction_eq, chars_ofChars, behind, front, if_pos (Or.inl double)]
  · intro a same
    rw [Action.files, same]
    exact agree

/-- One slash behind a package gives way, and the two of a root stay. -/
theorem joinAction_eq_join_iff_copy :
    let package : Label := ⟨"//pkg/"⟩
    let root : Label := ⟨"@ws//"⟩
    package.WellFormed ∧ root.WellFormed ∧ parse (":" ++ "abc") = .ok ⟨":abc"⟩ ∧
    package.joinAction "abc" = package.join ⟨":abc"⟩ ∧
    root.joinAction "abc" = root.join ⟨":abc"⟩ := by
  intro package root
  have soundPackage : package.WellFormed := by decide
  have soundRoot : root.WellFormed := by decide
  have read : parse (":" ++ "abc") = .ok ⟨":abc"⟩ := parse_eq_ok_iff.mpr ⟨by decide, rfl⟩
  refine ⟨soundPackage, soundRoot, read, ?_, ?_⟩
  · exact (joinAction_eq_join_iff soundPackage read).1.mpr (by decide)
  · exact (joinAction_eq_join_iff soundRoot read).1.mpr (by decide)

/-- Behind a package with two slashes at its end the address of a tree is not the join. -/
theorem joinAction_ne_join :
    ¬ ∀ (l : Label) (id : String) (r : Label), l.WellFormed → parse (":" ++ id) = .ok r →
      l.joinAction id = l.join r := by
  intro same
  have read : parse (":" ++ "abc") = .ok ⟨":abc"⟩ := parse_eq_ok_iff.mpr ⟨by decide, rfl⟩
  have addresses := same ⟨"//pkg//"⟩ "abc" ⟨":abc"⟩ (by decide) read
  exact absurd addresses (by decide)

end Label
end RuleAnalysis
