import RuleAnalysis.Proofs.Analysis.Trace
import RuleAnalysis.Proofs.Label.Navigation
import RuleAnalysis.Proofs.Rule.Coercion
import RuleAnalysis.Proofs.Schedule.Succession
import RuleAnalysis.Proofs.Workspace.SourceFiles

namespace RuleAnalysis

/-!
# Two addresses of one file

A relative label names a file in the package of a target. An attribute for
files puts a bare name behind a colon before it joins it to the package. What
opens a file joins the label as it is, so a bare name comes to stand behind a
slash. Every other label is joined alike. The two addresses of a bare name
lead to one source file, but they are not one label.
-/

/-! ## Bare names -/

namespace Label

/-- The label has neither a root nor a colon. -/
def Bare (l : Label) : Prop := l.form = .packageRelative ∧ ':' ∉ l.chars

instance (l : Label) : Decidable l.Bare :=
  inferInstanceAs (Decidable (l.form = .packageRelative ∧ ':' ∉ l.chars))

/-- The label as that of a file: a bare name is put behind a colon. -/
def ofFile (l : Label) : Label := if l.Bare then ⟨":" ++ l.text⟩ else l

variable {package r target : Label}

/-- Behind a colon a well-formed label is one again. -/
theorem WellFormed.colon (sound : r.WellFormed) : (⟨":" ++ r.text⟩ : Label).WellFormed := by
  have begins : Begins .packageRelative (':' :: r.chars) := ⟨by simp, by simp⟩
  have rooted := IsRoot.packageRelative.rooted_append begins
  rw [← ofChars_chars ⟨":" ++ r.text⟩, wellFormed_iff, chars_ofChars, chars_colon]
  refine ⟨List.cons_ne_nil _ _, ?_, rooted⟩
  exact (clean_cons_iff (by decide)).mpr sound.clean

theorem WellFormed.ofFile (sound : r.WellFormed) : r.ofFile.WellFormed := by
  rw [Label.ofFile]
  split
  · exact sound.colon
  · exact sound

/-- No colon stands in a root. -/
theorem IsRoot.colon_not_mem {f : Form} {root : List Char} (isRoot : IsRoot f root) :
    ':' ∉ root := by
  cases isRoot with
  | @workspaceAbsolute name _ clear =>
      intro colon
      have named : ':' ∈ name := by simpa using colon
      exact absurd (clear _ named) (by decide)
  | workspaceRelative => decide
  | packageRelative => exact List.not_mem_nil

/-- The package of a target ends in front of the first colon. -/
theorem colon_not_mem_package (sound : target.WellFormed) (up : target.package? = some package) :
    ':' ∉ package.chars := by
  rcases Option.map_eq_some_iff.mp up with ⟨parts, cut, rfl⟩
  rcases Text.eq_of_cutFirst? cut with ⟨_, _, _, clear⟩
  rw [chars_ofChars, List.mem_append, not_or]
  refine ⟨sound.rooted.isRoot.colon_not_mem, fun colon => ?_⟩
  simpa using clear ':' colon

/-- Joined as it is, a bare name brings no colon. -/
theorem colon_not_mem_join (clear : ':' ∉ package.chars) (bare : r.Bare) :
    ':' ∉ (package.join r).chars := by
  have own : r.chars.head? ≠ some ':' := fun colon => bare.2 (List.mem_of_head? colon)
  rw [join, bare.1]
  dsimp only
  rw [if_neg own]
  split
  · rw [chars_ofChars, List.mem_append, not_or]
    exact ⟨clear, bare.2⟩
  · rw [chars_ofChars, List.mem_append, List.mem_cons, not_or, not_or]
    exact ⟨clear, by decide, bare.2⟩

/-- A label is joined alike as it is and as that of a file, unless it is a bare name. -/
theorem join_eq_join_ofFile_iff (clear : ':' ∉ package.chars) :
    package.join r = package.join r.ofFile ↔ ¬ r.Bare := by
  constructor
  · intro same bare
    apply colon_not_mem_join clear bare
    rw [same, ofFile, if_pos bare, join_colon, chars_ofChars]
    exact List.mem_append_right _ List.mem_cons_self
  · intro other
    rw [ofFile, if_neg other]

/-- The colon adds no segment. -/
theorem segments_ofFile (sound : r.WellFormed) : r.ofFile.segments = r.segments := by
  rw [ofFile]
  split
  · next bare =>
      have colon : isSeparator ':' = true := rfl
      have behind := sound.colon.rooted.rest_of_packageRelative (form_colon r)
      rw [segments, segments, behind, chars_colon, Text.pieces, if_pos colon,
        sound.rooted.rest_of_packageRelative bare.1]
      rfl
  · rfl

end Label

/-! ## The address that an attribute stores -/

namespace Attribute

variable {a : Attribute} {package r : Label} {v : Value}

theorem anchor_eq (sound : r.WellFormed) :
    anchor (some package) r = .ok (package.join r.ofFile) := by
  by_cases bare : r.Bare
  · have parsed : Label.parse (":" ++ r.text) = .ok ⟨":" ++ r.text⟩ :=
      Label.parse_eq_ok_iff.mpr ⟨sound.colon, rfl⟩
    have spoken : (r.form = .packageRelative && !r.chars.contains ':') = true := by
      simpa [Label.Bare] using bare
    rw [anchor, if_pos spoken, parsed, Label.ofFile, if_pos bare]
    rfl
  · have rooted : ¬ (r.form = .packageRelative && !r.chars.contains ':') = true := by
      simpa [Label.Bare] using bare
    rw [anchor, if_neg rooted, Label.ofFile, if_neg bare]

/-- An attribute for files takes a label and its text alike. -/
theorem coerceSource_file (file : a.kind = .file) (sound : r.WellFormed)
    (given : v = .label r ∨ v = .string r.text) :
    a.coerceSource v (some package) = .ok (.label (package.join r.ofFile)) := by
  have read : a.readLabel v = .ok r := by
    rcases given with rfl | rfl
    · rfl
    · rw [readLabel, Label.parse_eq_ok_iff.mpr ⟨sound, rfl⟩]
      rfl
  have resolved : v.isUnresolved = false := by
    rcases given with rfl | rfl <;> rfl
  have anchored : a.coerceLabel v (some package) = .ok (package.join r.ofFile) := by
    rw [coerceLabel, read]
    exact anchor_eq sound
  simp only [coerceSource, resolved, file, Bool.false_eq_true, if_false, anchored]
  rfl

end Attribute

/-! ## The address that is opened -/

namespace Work

variable {ν : Type}

/-- The host is asked for one label, and the routine goes on with what it answers. -/
theorem openSource_program (r : Label) (next : Except AnalysisError Int → Routine ν) :
    (openSource r next).program =
      .read fun desk =>
        let l := desk.context.package.join r
        let q := Query.labelOpen l
        .ask (.query q) fun response =>
          (next (Answer.file q (.fileNotFound l.text) response)).program :=
  rfl

/-- Whatever the host does, the first thing it is asked for is the label joined to the package. -/
theorem openSource_asks (r : Label) (next : Except AnalysisError Int → Routine ν) (desk : Desk ν)
    (visits : List (Visit (Desk ν))) :
    ((TaskOf.ofProgram (openSource r next).program).course desk (⟨[], id⟩ :: visits)).batches[0]? =
      some [.query (.labelOpen (desk.context.package.join r))] := by
  rw [TaskOf.course_ofProgram (openSource r next).live, openSource_program, Program.settle,
    Program.settle]
  exact Program.follow_batches_zero (p := .ask _ _) (List.cons_ne_nil _ []) _ _

/-- A relative label and the package of a target. Opening the file asks the host for one label,
whatever the host answers and however the routine goes on, and an attribute for files that is given
the label or its text stores another or the same: the same exactly if the label is not a bare name.
In a package that is in a workspace both lead to one source file. -/
theorem opened_as_coerced_iff {desk : Desk ν} {package r : Label} {a : Attribute}
    (sound : desk.context.label.WellFormed) (up : desk.context.label.package? = some package)
    (relative : r.WellFormed) (file : a.kind = .file) :
    ∃ opened coerced : Label,
      (∀ next visits,
        ((TaskOf.ofProgram (openSource r next).program).course desk
          (⟨[], id⟩ :: visits)).batches[0]? = some [.query (.labelOpen opened)]) ∧
      (∀ v, v = .label r ∨ v = .string r.text →
        a.coerceSource v (some package) = .ok (.label coerced)) ∧
      (opened = coerced ↔ ¬ r.Bare) ∧
      (∀ layout : Layout, layout.Absolute → r.Bare → package.form = .workspaceAbsolute →
        ∃ q q', layout.sourcePath opened = .ok q ∧ layout.sourcePath coerced = .ok q' ∧
          q.components = q'.components) := by
  have home : desk.context.package = package := by
    rw [Context.package, up]
    rfl
  refine ⟨package.join r, package.join r.ofFile, ?_, ?_, ?_, ?_⟩
  · intro next visits
    rw [openSource_asks, home]
  · intro v given
    exact Attribute.coerceSource_file file relative given
  · exact Label.join_eq_join_ofFile_iff (Label.colon_not_mem_package sound up)
  · intro layout absolute bare inWorkspace
    have heads := Label.heads_of_package? up
    have spoken : package.chars ≠ [] := by
      intro silent
      rw [Label.form, silent] at inWorkspace
      cases inWorkspace
    have wellFormed := (heads.wellFormed_iff sound).mpr spoken
    rcases Layout.exists_sourcePath absolute wellFormed inWorkspace with ⟨_, base, _, based, _⟩
    have bareFile : r.ofFile.form = .packageRelative := by
      rw [Label.ofFile, if_pos bare]
      exact Label.form_colon r
    rcases Layout.exists_sourcePath_join absolute wellFormed based relative bare.1 with
      ⟨q, leads, spelled⟩
    rcases Layout.exists_sourcePath_join absolute wellFormed based relative.ofFile bareFile with
      ⟨q', leads', spelled'⟩
    refine ⟨q, q', leads, leads', ?_⟩
    rw [spelled, spelled', Label.segments_ofFile relative]

end Work

/-! ## A target that names files beside it -/

namespace FileTarget

def source : Attribute := ⟨"source", .file, none⟩

def schema : RuleSchema := ⟨PlainTarget.reference, [source]⟩

def desk : Desk Unit :=
  ⟨.ofTarget schema "lib" ⟨"@ws//pkg:lib"⟩ [] PlainTarget.config, (), .empty⟩

end FileTarget

open FileTarget

namespace Work

/-- A name behind a colon has one address, and the two of a bare name lead to one source file. -/
theorem opened_as_coerced_iff_beside :
    ∃ opened coerced named stored : Label,
      (∀ next visits,
        ((TaskOf.ofProgram (openSource ⟨":a.txt"⟩ next).program).course FileTarget.desk
          (⟨[], id⟩ :: visits)).batches[0]? = some [.query (.labelOpen opened)]) ∧
      source.coerceSource (.string ":a.txt") (some ⟨"@ws//pkg"⟩) = .ok (.label coerced) ∧
      opened = coerced ∧
      (∀ next visits,
        ((TaskOf.ofProgram (openSource ⟨"a.txt"⟩ next).program).course FileTarget.desk
          (⟨[], id⟩ :: visits)).batches[0]? = some [.query (.labelOpen named)]) ∧
      source.coerceSource (.string "a.txt") (some ⟨"@ws//pkg"⟩) = .ok (.label stored) ∧
      named ≠ stored := by
  have sound : FileTarget.desk.context.label.WellFormed := by decide
  have up : FileTarget.desk.context.label.package? = some ⟨"@ws//pkg"⟩ := by decide
  have behind : Label.WellFormed ⟨":a.txt"⟩ := by decide
  have bare : Label.WellFormed ⟨"a.txt"⟩ := by decide
  rcases opened_as_coerced_iff sound up behind (a := source) rfl with
    ⟨opened, coerced, asks, stores, agree, _⟩
  rcases opened_as_coerced_iff sound up bare (a := source) rfl with
    ⟨named, stored, asksNamed, storesNamed, part, _⟩
  refine ⟨opened, coerced, named, stored, asks, stores _ (Or.inr rfl), agree.mpr (by decide),
    asksNamed, storesNamed _ (Or.inr rfl), ?_⟩
  intro same
  exact part.mp same (by decide)

/-- The file that is opened under a bare name is not the one that an attribute stores. -/
theorem opened_apart_from_coerced :
    ¬ ∀ (desk : Desk Unit) (package r coerced : Label) (a : Attribute),
      desk.context.label.WellFormed → desk.context.label.package? = some package →
      r.WellFormed → r.form = .packageRelative → a.kind = .file →
      a.coerceSource (.label r) (some package) = .ok (.label coerced) →
      ∀ next visits,
        ((TaskOf.ofProgram (openSource r next).program).course desk
          (⟨[], id⟩ :: visits)).batches[0]? = some [.query (.labelOpen coerced)] := by
  intro one
  have relative : Label.WellFormed ⟨"a.txt"⟩ := by decide
  have stores : source.coerceSource (.label ⟨"a.txt"⟩) (some ⟨"@ws//pkg"⟩) =
      .ok (.label (Label.join ⟨"@ws//pkg"⟩ (Label.ofFile ⟨"a.txt"⟩))) :=
    Attribute.coerceSource_file rfl relative (Or.inl rfl)
  have asks := one FileTarget.desk ⟨"@ws//pkg"⟩ ⟨"a.txt"⟩ _ source (by decide) (by decide) relative
    (by decide) rfl stores (fun _ => .finish (.ok .null)) []
  rw [openSource_asks] at asks
  exact absurd asks (by decide)

end Work

end RuleAnalysis
