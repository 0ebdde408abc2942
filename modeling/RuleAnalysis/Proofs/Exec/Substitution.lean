import RuleAnalysis.Exec.Platform
import RuleAnalysis.Proofs.Text.Replacement

namespace RuleAnalysis
namespace LinuxExecutePlatform

open Text

/-!
# Markers of the sandbox

A platform puts its directories in the place of their markers, one marker
after the other. That is as if both markers were replaced at once unless the
directory of the input can make up the marker of the program's tree, by itself
or together with what stands around it. A directory that is an absolute path
without a percent sign never does.
-/

/-- The markers with the directories that they stand for. -/
def markers (l : LinuxExecutePlatform) : Table :=
  [(sourceMarker.toList, l.inputDestination.toList),
    (execMarker.toList, l.execContextDestination.toList)]

variable (l : LinuxExecutePlatform)

/-- Neither marker begins with the other. -/
theorem markers_branch : ¬ sourceMarker.toList <+: execMarker.toList ∧
    ¬ execMarker.toList <+: sourceMarker.toList := by
  decide

theorem marks_markers : Marks '%' l.markers where
  opens entry member := by
    rcases List.mem_pair.mp member with rfl | rfl
    · exact ⟨"[srcdir]".toList, rfl, by decide⟩
    · exact ⟨"[execdir]".toList, rfl, by decide⟩
  apart entry member other among := by
    intro begins
    rcases List.mem_pair.mp member with rfl | rfl <;> rcases List.mem_pair.mp among with rfl | rfl
    · rfl
    · exact absurd begins markers_branch.1
    · exact absurd begins markers_branch.2
    · rfl

theorem markers_apart : sourceMarker.toList ≠ execMarker.toList := by
  intro same
  apply markers_branch.1
  rw [same]

theorem substitute_toList (text : String) :
    (l.substitute text).toList =
      replaceEach [(execMarker.toList, l.execContextDestination.toList)] 0
        (replaceEach [(sourceMarker.toList, l.inputDestination.toList)] 0 text.toList) := by
  unfold substitute replaceAll
  rw [String.toList_ofList, String.toList_ofList, replaceFrom_eq_replaceEach,
    replaceFrom_eq_replaceEach]

/-- An absolute path without a percent sign makes up no marker. -/
theorem not_completes_of_path {rest : List Char} (path : l.inputDestination.toList = '/' :: rest)
    (clear : '%' ∉ rest) : ¬ Completes execMarker.toList l.inputDestination.toList := by
  have foreign : '/' ∉ execMarker.toList := by decide
  have unsigned : '%' ∉ '/' :: rest := by
    rw [List.mem_cons, not_or]
    exact ⟨by decide, clear⟩
  rw [path]
  exact l.marks_markers.not_completes (List.mem_cons_of_mem _ List.mem_cons_self) foreign unsigned

/-- A platform replaces its markers at once in every text exactly if the marker of the program's
tree stands for itself or the directory of the input cannot make it up. In a text without the marker
of the input they are replaced at once by every platform. -/
theorem substitute_at_once_iff :
    ((∀ text, Replaced l.markers text.toList (l.substitute text).toList) ↔
      l.execContextDestination = execMarker ∨
        ¬ Completes execMarker.toList l.inputDestination.toList) ∧
    ∀ text : String, ¬ sourceMarker.toList <:+: text.toList →
      Replaced l.markers text.toList (l.substitute text).toList := by
  constructor
  · rw [← String.toList_inj]
    apply Iff.trans ?_ (replaced_one_by_one_iff l.marks_markers markers_apart)
    constructor
    · intro always cs
      have right := always (String.ofList cs)
      rw [substitute_toList, String.toList_ofList] at right
      exact right
    · intro always text
      rw [substitute_toList]
      exact always text.toList
  · intro text absent
    rw [substitute_toList]
    exact replaced_one_by_one l.marks_markers markers_apart absent

/-! ## A platform with a marker in its directory -/

def mounted (inputDestination : String) : LinuxExecutePlatform where
  executionSysroot := ⟨"@sysroot//:root"⟩
  inputDestination := inputDestination
  outputDestination := "/out"
  execContextDestination := "/exec"
  uid := 1000
  gid := 1000
  environment := []
  useFuse := true
  useInterceptor := true

/-- A directory that is a path is put in at once. -/
theorem substitute_at_once_iff_mounted :
    ∀ text, Replaced (mounted "/src").markers text.toList
      ((mounted "/src").substitute text).toList := by
  apply (substitute_at_once_iff (mounted "/src")).1.mpr
  right
  exact not_completes_of_path (mounted "/src") rfl (by decide)

/-- A marker that is part of a directory is replaced as if it were part of the text. -/
theorem substitute_again :
    ¬ ∀ (l : LinuxExecutePlatform) (text : String),
      Replaced l.markers text.toList (l.substitute text).toList := by
  intro atOnce
  have marks := (mounted "/in/%[execdir]").marks_markers
  have result := atOnce (mounted "/in/%[execdir]") "%[srcdir]/main.c"
  exact absurd (marks.replaced_iff.mp result) (by decide)

end LinuxExecutePlatform
end RuleAnalysis
