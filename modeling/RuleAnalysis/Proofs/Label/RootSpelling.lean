import RuleAnalysis.Proofs.Label.RelativePaths
import RuleAnalysis.Proofs.Wire.Values

namespace RuleAnalysis
namespace LabelPath

/-!
# How the root is written

The root is the empty text. A single dot stands for it where a path is read
from a text or off the wire, and there it is turned into the root. Paths that
are made from other paths are put together from components, and a dot is a
component as any other: where it is the only one that a parent or a relative
path leaves over, the path is written as a single dot and is not the root. It
is lost on the wire, which turns it into the root after all.
-/

open Text

variable {a b p r : LabelPath}

/-! ## A dot that is left over -/

theorem eq_of_text_eq_dot (dot : p.text = ".") : p = ⟨"."⟩ := by
  rw [← dot]

theorem components_dot : components ⟨"."⟩ = [['.']] := by
  decide +kernel

theorem text_ofComponents_eq_dot_iff {absolute : Bool} {parts : List (List Char)}
    (clear : ∀ part ∈ parts, part ≠ [] ∧ '/' ∉ part) :
    (ofComponents absolute parts).text = "." ↔ absolute = false ∧ parts = [['.']] := by
  constructor
  · intro dot
    have same := eq_of_text_eq_dot dot
    constructor
    · rw [← isAbsolute_ofComponents absolute clear, same]
      rfl
    · rw [← components_ofComponents absolute clear, same, components_dot]
  · rintro ⟨rfl, rfl⟩
    rfl

/-- A join is a single dot only if one side is, and the other is the root. -/
theorem text_join_eq_dot_iff :
    (a.join b).text = "." ↔ a = top ∧ b.text = "." ∨ a.text = "." ∧ b = top := by
  have undotted : top.text ≠ "." := by decide
  by_cases based : a = top
  · subst based
    simp [join_of_top, undotted]
  · by_cases named : b = top
    · subst named
      simp [join_top, undotted]
    · refine iff_of_false ?_ (by simp [based, named])
      intro dot
      by_cases rooted : b.isAbsolute = true
      · have alone : a.join b = b := if_pos (by rw [rooted, Bool.true_or])
        rw [alone] at dot
        rw [eq_of_text_eq_dot dot] at rooted
        cases rooted
      · have spelled := chars_join (Bool.eq_false_iff.mpr rooted) based named
        have slash : '/' ∈ (a.join b).chars := by
          rw [spelled]
          exact List.mem_append_right _ List.mem_cons_self
        rw [chars, dot] at slash
        exact absurd slash (by decide)

/-- A parent is a single dot if a dot stands in front of the only name. -/
theorem text_parent_eq_dot_iff :
    p.parent.text = "." ↔ p.isAbsolute = false ∧ ∃ name, p.components = [['.'], name] := by
  rw [parent, text_ofComponents_eq_dot_iff (clear_of_subset (List.dropLast_subset _))]
  refine and_congr_right fun _ => ?_
  rcases List.eq_nil_or_concat p.components with none | ⟨front, name, whole⟩
  · simp [none]
  · rw [whole, List.concat_eq_append, List.dropLast_concat]
    constructor
    · rintro rfl
      exact ⟨name, rfl⟩
    · rintro ⟨other, same⟩
      have ends : front ++ [name] = [['.']] ++ [other] := same
      exact (List.append_inj' ends rfl).1

/-- A relative path is a single dot if a dot is all that stands behind the base. -/
theorem text_relativeTo?_eq_dot_iff (leads : p.relativeTo? a = some r) :
    r.text = "." ↔ p.components = a.components ++ [['.']] := by
  rcases relativeTo?_eq_some_iff.mp leads with ⟨_, rest, whole, rfl⟩
  have taken : rest ⊆ p.components := by
    rw [whole]
    exact List.subset_append_right _ _
  rw [text_ofComponents_eq_dot_iff (clear_of_subset taken), and_iff_right rfl, whole,
    List.append_cancel_left_eq]

theorem dot_not_mem_normalize (p : LabelPath) : ['.'] ∉ p.normalize.components := by
  intro member
  rw [components_normalize, Position.path, List.mem_append, List.mem_reverse] at member
  rcases member with climb | name
  · exact absurd (List.eq_of_mem_replicate climb) (by decide)
  · exact (p.destination_proper.names _ name).1 rfl

theorem text_normalize_ne_dot (p : LabelPath) : p.normalize.text ≠ "." := by
  intro dot
  apply dot_not_mem_normalize p
  rw [eq_of_text_eq_dot dot, components_dot]
  exact List.mem_cons_self

/-! ## Constructed paths -/

/-- How a path has come about: from a text, off the wire, or from other paths. -/
inductive Construction where
  | spelled (text : String)
  | decoded (document : Document)
  | joined (base rhs : Construction)
  | parent (path : Construction)
  | relative (path base : Construction)
  | normalized (path : Construction)

namespace Construction

/-- The path that is constructed. There is none if a document is no path, or if a path does not
lead on from its base. -/
def path? : Construction → Option LabelPath
  | spelled text => some (parse text)
  | decoded document => (decode document).toOption
  | joined base rhs => base.path?.bind fun p => rhs.path?.map p.join
  | parent path => path.path?.map LabelPath.parent
  | relative path base => path.path?.bind fun p => base.path?.bind p.relativeTo?
  | normalized path => path.path?.map LabelPath.normalize

/-- The paths that have been read, from which all others are made. -/
def sources : Construction → List LabelPath
  | spelled text => [parse text]
  | decoded document => (decode document).toOption.toList
  | joined base rhs => base.sources ++ rhs.sources
  | parent path => path.sources
  | relative path base => path.sources ++ base.sources
  | normalized path => path.sources

/-- The last components to be taken away have left a dot over, and since then nothing has been
joined to it but the root. -/
inductive LeavesDot : Construction → Prop
  | parent {path : Construction} {p : LabelPath} {name : List Char} : path.path? = some p →
      p.isAbsolute = false → p.components = [['.'], name] → LeavesDot (.parent path)
  | relative {path base : Construction} {p q : LabelPath} : path.path? = some p →
      base.path? = some q → p.components = q.components ++ [['.']] → LeavesDot (.relative path base)
  | behindRoot {base rhs : Construction} : base.path? = some top → LeavesDot rhs →
      LeavesDot (.joined base rhs)
  | beforeRoot {base rhs : Construction} : LeavesDot base → rhs.path? = some top →
      LeavesDot (.joined base rhs)

variable {c : Construction}

theorem path?_joined_eq_some_iff {base rhs : Construction} :
    (joined base rhs).path? = some p ↔
      ∃ a, base.path? = some a ∧ ∃ b, rhs.path? = some b ∧ a.join b = p := by
  simp only [path?, Option.bind_eq_some_iff, Option.map_eq_some_iff]

theorem path?_relative_eq_some_iff {path base : Construction} :
    (relative path base).path? = some r ↔
      ∃ p, path.path? = some p ∧ ∃ a, base.path? = some a ∧ p.relativeTo? a = some r := by
  simp only [path?, Option.bind_eq_some_iff]

theorem path?_decoded_eq_some_iff {document : Document} :
    (decoded document).path? = some p ↔ decode document = .ok p := by
  rw [path?]
  cases decode document <;> simp [Except.toOption]

theorem text_ne_dot_of_decode {document : Document} (read : decode document = .ok p) :
    p.text ≠ "." := by
  rcases Success.map_eq_ok_iff.mp read with ⟨text, _, rfl⟩
  exact text_parse_ne text

/-- A path is written as a single dot exactly if a dot has been left over. -/
theorem text_eq_dot_iff (made : c.path? = some p) : p.text = "." ↔ c.LeavesDot := by
  induction c generalizing p with
  | spelled text =>
      cases made
      exact iff_of_false (text_parse_ne text) nofun
  | decoded document =>
      exact iff_of_false (text_ne_dot_of_decode (path?_decoded_eq_some_iff.mp made)) nofun
  | joined base rhs ihBase ihRhs =>
      rcases path?_joined_eq_some_iff.mp made with ⟨a, madeBase, b, madeRhs, rfl⟩
      rw [text_join_eq_dot_iff, ihBase madeBase, ihRhs madeRhs]
      constructor
      · rintro (⟨rfl, left⟩ | ⟨left, rfl⟩)
        · exact .behindRoot madeBase left
        · exact .beforeRoot left madeRhs
      · intro left
        cases left with
        | behindRoot root left => exact .inl ⟨Option.some.inj (madeBase.symm.trans root), left⟩
        | beforeRoot left root => exact .inr ⟨left, Option.some.inj (madeRhs.symm.trans root)⟩
  | parent path _ =>
      rcases Option.map_eq_some_iff.mp made with ⟨q, madePath, rfl⟩
      rw [text_parent_eq_dot_iff]
      constructor
      · rintro ⟨relative, name, whole⟩
        exact .parent madePath relative whole
      · intro left
        cases left with
        | parent same relative whole =>
            cases madePath.symm.trans same
            exact ⟨relative, _, whole⟩
  | relative path base _ _ =>
      rcases path?_relative_eq_some_iff.mp made with ⟨q, madePath, a, madeBase, leads⟩
      rw [text_relativeTo?_eq_dot_iff leads]
      constructor
      · exact fun whole => .relative madePath madeBase whole
      · intro left
        cases left with
        | relative samePath sameBase whole =>
            cases madePath.symm.trans samePath
            cases madeBase.symm.trans sameBase
            exact whole
  | normalized path _ =>
      rcases Option.map_eq_some_iff.mp made with ⟨q, _, rfl⟩
      exact iff_of_false (text_normalize_ne_dot q) nofun

/-- No operation brings a dot among the components of a path. -/
theorem dot_not_mem_components (made : c.path? = some p)
    (undotted : ∀ source ∈ c.sources, ['.'] ∉ source.components) : ['.'] ∉ p.components := by
  induction c generalizing p with
  | spelled text =>
      cases made
      exact undotted _ (List.mem_singleton_self _)
  | decoded document =>
      apply undotted
      exact Option.mem_toList.mpr made
  | joined base rhs ihBase ihRhs =>
      rcases path?_joined_eq_some_iff.mp made with ⟨a, madeBase, b, madeRhs, rfl⟩
      rcases List.forall_mem_append.mp undotted with ⟨front, back⟩
      have inBase := ihBase madeBase front
      have inRhs := ihRhs madeRhs back
      cases rooted : b.isAbsolute with
      | true =>
          have alone : a.join b = b := if_pos (by rw [rooted, Bool.true_or])
          rwa [alone]
      | false =>
          rw [components_join rooted, List.mem_append, not_or]
          exact ⟨inBase, inRhs⟩
  | parent path ih =>
      rcases Option.map_eq_some_iff.mp made with ⟨q, madePath, rfl⟩
      have clear := clear_of_subset (List.dropLast_subset q.components)
      rw [LabelPath.parent, components_ofComponents _ clear]
      exact fun member => ih madePath undotted (List.dropLast_subset _ member)
  | relative path base ihPath _ =>
      rcases path?_relative_eq_some_iff.mp made with ⟨q, madePath, a, _, leads⟩
      rcases parts_of_relativeTo? leads with ⟨_, _, whole⟩
      have inPath := ihPath madePath (List.forall_mem_append.mp undotted).1
      rw [whole, List.mem_append, not_or] at inPath
      exact inPath.2
  | normalized path _ =>
      rcases Option.map_eq_some_iff.mp made with ⟨q, _, rfl⟩
      exact dot_not_mem_normalize q

end Construction

/-! ## On the wire -/

/-- Whatever a path is written as, its text is read again as if it were new. -/
theorem decode_takes_encode_iff {q : LabelPath} : decode.Takes p.encode q ↔ q = parse p.text := by
  rw [decode_takes_iff]
  constructor
  · rintro ⟨text, same, rfl⟩
    cases same
    rfl
  · rintro rfl
    exact ⟨p.text, rfl, rfl⟩

theorem parse_text_eq_self_iff : parse p.text = p ↔ p.text ≠ "." := by
  constructor
  · intro same dot
    rw [← same] at dot
    exact text_parse_ne _ dot
  · exact parse_text_of_ne

/-! ## One spelling, but for what is left over -/

/-- A path that has been made by any operations from texts and documents is written as a single dot
exactly if a dot has been left over, which takes a path that was read with a dot among other
components. All other paths are read back as they were; such a path is read back as the root. -/
theorem root_spelled_once_unless_dot_left (c : Construction) (p : LabelPath) (made : c.path? = some p) :
    (p.text = "." ↔ c.LeavesDot) ∧
    (c.LeavesDot → ∃ source ∈ c.sources, ['.'] ∈ source.components) ∧
    ∃ q, decode.Takes p.encode q ∧ (q = p ↔ ¬ c.LeavesDot) ∧ (c.LeavesDot → q = top) := by
  have spelling := Construction.text_eq_dot_iff made
  refine ⟨spelling, ?_, parse p.text, decode_takes_encode_iff.mpr rfl, ?_, ?_⟩
  · intro left
    by_contra undotted
    push Not at undotted
    apply Construction.dot_not_mem_components made undotted
    rw [eq_of_text_eq_dot (spelling.mpr left), components_dot]
    exact List.mem_cons_self
  · rw [parse_text_eq_self_iff, Ne, spelling]
  · intro left
    rw [spelling.mpr left]
    rfl

/-- The dot that is left over is a path like any other as long as something is joined to it. -/
theorem root_spelled_once_unless_dot_left_joined :
    let c : Construction := .joined (.parent (.spelled "./a")) (.normalized (.spelled "b/./.."))
    let d : Construction := .joined (.parent (.spelled "./a")) (.spelled "b")
    c.path? = some ⟨"."⟩ ∧ c.LeavesDot ∧ d.path? = some ⟨"./b"⟩ ∧ ¬ d.LeavesDot := by
  intro c d
  have dot : c.path? = some ⟨"."⟩ := by decide +kernel
  have named : d.path? = some ⟨"./b"⟩ := by decide +kernel
  refine ⟨dot, (root_spelled_once_unless_dot_left c _ dot).1.mp rfl, named, ?_⟩
  rw [← (root_spelled_once_unless_dot_left d _ named).1]
  decide

/-- The parent of a path, and a path behind its own beginning, may be a second spelling of the root,
which is not the root and is not read back. -/
theorem root_spelled_twice :
    (Construction.parent (.spelled "./a")).path? = some ⟨"."⟩ ∧
    (Construction.relative (.spelled "a/.") (.spelled "a")).path? = some ⟨"."⟩ ∧
    isTop ⟨"."⟩ = false ∧ ¬ decode.Takes (encode ⟨"."⟩) ⟨"."⟩ := by
  refine ⟨by decide +kernel, by decide +kernel, by decide, ?_⟩
  rw [decode_takes_encode_iff]
  decide

end LabelPath
end RuleAnalysis
