import RuleAnalysis.Proofs.Label.Anatomy
import RuleAnalysis.Proofs.Wire.Values

namespace RuleAnalysis
namespace Label

/-!
# Going up from a label

The parent and the package of a label are the label cut short behind its root,
so they have its form and its workspace, and going up comes to an end: at the
root, if the label has one. A label that begins with a colon has nothing in
front of it. Its package is the empty text, and so is its parent if the colon
is its only separator; the empty text is no label.
-/

open Text

variable {l m : Label}

/-! ## Labels cut short -/

/-- The first label is the second one cut short behind the root. -/
def Heads (m l : Label) : Prop :=
  ∃ before, m = ofChars (l.root ++ before) ∧ before <+: l.rest ∧ before.length < l.rest.length

/-- A part in front of a separator is shorter than the whole. -/
theorem heads_of_cut {before after : List Char} {c : Char} (cut : l.rest = before ++ c :: after) :
    Heads (ofChars (l.root ++ before)) l := by
  refine ⟨before, rfl, ⟨c :: after, cut.symm⟩, ?_⟩
  rw [cut, List.length_append, List.length_cons]
  omega

theorem heads_of_parent? (up : l.parent? = some m) : Heads m l := by
  rw [parent?] at up
  split at up
  · cases up
  · next segments =>
      split at up
      · next cut =>
          rcases eq_of_cutLast? cut with ⟨c, _, spelled, _⟩
          cases up
          exact heads_of_cut spelled
      · split at up
        · cases up
        · cases up
          refine ⟨[], by rw [List.append_nil], List.nil_prefix, ?_⟩
          exact List.length_pos_of_ne_nil (fun empty => segments (List.isEmpty_iff.mpr empty))

theorem heads_of_package? (up : l.package? = some m) : Heads m l := by
  rcases Option.map_eq_some_iff.mp up with ⟨parts, cut, rfl⟩
  rcases eq_of_cutFirst? cut with ⟨c, _, spelled, _⟩
  exact heads_of_cut spelled

namespace Heads

/-- What is left of a label keeps the root, and with it the form and the workspace. -/
theorem kept (heads : Heads m l) (rooted : l.Rooted) :
    m.Rooted ∧ m.root = l.root ∧ m.form = l.form ∧ m.workspaceName? = l.workspaceName? ∧
      m.rest.length < l.rest.length := by
  rcases heads with ⟨before, rfl, cut, shorter⟩
  have begins := rooted.begins.cut cut
  rw [rooted.isRoot.rest_append begins]
  exact ⟨rooted.isRoot.rooted_append begins, rooted.isRoot.root_append begins,
    rooted.form_behind begins, rooted.workspaceName?_behind begins, shorter⟩

theorem cut_short (heads : Heads m l) : m.chars <+: l.chars ∧ m ≠ l := by
  rcases heads with ⟨before, rfl, ⟨after, spelled⟩, shorter⟩
  constructor
  · rw [chars_ofChars, ← root_append_rest l, List.prefix_append_right_inj]
    exact ⟨after, spelled⟩
  · rw [Ne, ofChars_eq_iff, ← root_append_rest l, List.append_cancel_left_eq]
    rintro rfl
    exact Nat.lt_irrefl _ shorter

/-- The only fault that what is left can have is that nothing is left. -/
theorem wellFormed_iff (heads : Heads m l) (sound : l.WellFormed) : m.WellFormed ↔ m.chars ≠ [] := by
  have clean : Clean m.chars := fun c member => sound.clean c (heads.cut_short.1.subset member)
  rw [Label.wellFormed_iff]
  exact ⟨fun wellFormed => wellFormed.1, fun some_text => ⟨some_text, clean, (heads.kept sound.rooted).1⟩⟩

end Heads

/-! ## Nothing in front -/

theorem root_of_colon (colon : l.chars.head? = some ':') : l.root = [] ∧ l.rest = l.chars := by
  rcases List.head?_eq_some_iff.mp colon with ⟨tail, spelled⟩
  rw [root, rest, spelled, anatomy_eq]
  exact ⟨by simp, by simp⟩

theorem ofChars_eq_empty_iff {cs : List Char} : ofChars cs = ⟨""⟩ ↔ cs = [] :=
  ofChars_eq_iff

/-- The package of a label is empty if the label begins with a colon. -/
theorem package?_eq_empty_iff : l.package? = some ⟨""⟩ ↔ l.chars.head? = some ':' := by
  constructor
  · intro up
    rcases Option.map_eq_some_iff.mp up with ⟨parts, cut, empty⟩
    rcases List.append_eq_nil_iff.mp (ofChars_eq_empty_iff.mp empty) with ⟨rootless, none_before⟩
    rcases eq_of_cutFirst? cut with ⟨c, colon, spelled, _⟩
    rw [← root_append_rest, spelled, rootless, none_before, of_decide_eq_true colon]
    rfl
  · intro colon
    rcases root_of_colon colon with ⟨rootless, whole⟩
    rcases List.head?_eq_some_iff.mp colon with ⟨tail, spelled⟩
    rw [package?, rootless, whole, spelled]
    rfl

/-- The parent of a label is empty if the label is a colon and one segment. -/
theorem parent?_eq_empty_iff (sound : l.WellFormed) :
    l.parent? = some ⟨""⟩ ↔
      ∃ segment, l.chars = ':' :: segment ∧ ∀ c ∈ segment, isSeparator c = false := by
  constructor
  · intro up
    rw [parent?] at up
    split at up
    · cases up
    · split at up
      · next before after cut =>
          have empty := ofChars_eq_empty_iff.mp (Option.some.inj up)
          rcases List.append_eq_nil_iff.mp empty with ⟨rootless, rfl⟩
          rcases eq_of_cutLast? cut with ⟨c, separator, spelled, clear⟩
          have whole : l.chars = c :: after := by
            rw [← root_append_rest, rootless, spelled]
            rfl
          have relative := sound.rooted.packageRelative_of_root rootless
          rcases sound.exists_first relative with ⟨d, tail, begins, _, notSlash⟩
          rw [whole] at begins
          cases begins
          have colon : c = ':' := by
            simpa [isSeparator, notSlash] using separator
          exact ⟨after, colon ▸ whole, clear⟩
      · split at up
        · cases up
        · next rooted =>
            have empty := ofChars_eq_empty_iff.mp (Option.some.inj up)
            exact absurd (List.isEmpty_iff.mpr empty) rooted
  · rintro ⟨segment, spelled, clear⟩
    rcases root_of_colon (l := l) (spelled ▸ rfl) with ⟨rootless, whole⟩
    have cut : cutLast? isSeparator (':' :: segment) = some ([], segment) := by
      rw [cutLast?, cutLast?_eq_none_iff.mpr clear]
      rfl
    rw [parent?, rootless, whole, spelled, cut]
    rfl

/-! ## Going up step by step -/

/-- What is reached by so many steps to the parent, if there are as many. -/
def ascend : Nat → Label → Option Label
  | 0, l => some l
  | n + 1, l => l.parent?.bind (ascend n)

theorem ascend_kept {n : Nat} (rooted : l.Rooted) (reached : ascend n l = some m) :
    m.Rooted ∧ m.root = l.root ∧ m.form = l.form := by
  induction n generalizing l with
  | zero =>
      cases reached
      exact ⟨rooted, rfl, rfl⟩
  | succ n ih =>
      rcases Option.bind_eq_some_iff.mp reached with ⟨above, up, further⟩
      rcases (heads_of_parent? up).kept rooted with ⟨sound, root, form, _⟩
      rcases ih sound further with ⟨last, sameRoot, sameForm⟩
      exact ⟨last, sameRoot.trans root, sameForm.trans form⟩

/-- Every step leaves less behind the root, so there is a last one. -/
theorem exists_top (l : Label) (rooted : l.Rooted) :
    ∃ n top, ascend n l = some top ∧ top.parent? = none := by
  cases up : l.parent? with
  | none => exact ⟨0, l, rfl, up⟩
  | some above =>
      rcases (heads_of_parent? up).kept rooted with ⟨sound, _, _, _, shorter⟩
      rcases exists_top above sound with ⟨n, top, reached, last⟩
      refine ⟨n + 1, top, ?_, last⟩
      rw [ascend, up]
      exact reached
termination_by l.rest.length

/-- A label with a root has no parent exactly if it is the root. -/
theorem parent?_eq_none_iff (rooted : l.root ≠ []) : l.parent? = none ↔ l.chars = l.root := by
  have here : l.chars = l.root ↔ l.rest = [] := by
    rw [← root_append_rest l, List.append_right_eq_self]
  rw [here, parent?]
  cases l.rest with
  | nil => simp
  | cons c cs => cases cutLast? isSeparator (c :: cs) <;> simp [rooted]

/-- What the parent and the package of a label are, for all forms of labels, and where going up comes
to an end. They are labels unless they are empty. -/
theorem navigation_behind_root (sound : l.WellFormed) :
    (∀ m, l.parent? = some m ∨ l.package? = some m →
      m.form = l.form ∧ m.workspaceName? = l.workspaceName? ∧ (m.chars <+: l.chars ∧ m ≠ l) ∧
      (parse m.text = .ok m ↔ m ≠ ⟨""⟩) ∧ (Label.decode.Takes m.encode m ↔ m ≠ ⟨""⟩)) ∧
    (l.parent? = some ⟨""⟩ ↔
      ∃ segment, l.chars = ':' :: segment ∧ ∀ c ∈ segment, isSeparator c = false) ∧
    (l.package? = some ⟨""⟩ ↔ l.chars.head? = some ':') ∧
    (∃ n top, ascend n l = some top ∧ top.parent? = none) ∧
    (l.form ≠ .packageRelative →
      ∀ n m, ascend n l = some m → (m.parent? = none ↔ m.chars = l.root)) := by
  refine ⟨fun m up => ?_, parent?_eq_empty_iff sound, package?_eq_empty_iff,
    exists_top l sound.rooted, fun rooted n m reached => ?_⟩
  · have heads : Heads m l := up.elim heads_of_parent? heads_of_package?
    rcases heads.kept sound.rooted with ⟨_, _, form, workspace, _⟩
    have spoken : m.chars ≠ [] ↔ m ≠ ⟨""⟩ := by
      rw [Ne, Ne, ← ofChars_eq_empty_iff, ofChars_chars]
    have wellFormed := (heads.wellFormed_iff sound).trans spoken
    refine ⟨form, workspace, heads.cut_short, ?_, ?_⟩
    · rw [parse_eq_ok_iff, and_iff_left rfl, wellFormed]
    · rw [Label.decode_takes_iff, and_iff_right rfl, wellFormed]
  · rcases ascend_kept sound.rooted reached with ⟨_, root, _⟩
    have some_root : m.root ≠ [] := fun empty =>
      rooted (sound.rooted.packageRelative_of_root (root ▸ empty))
    rw [parent?_eq_none_iff some_root, root]

/-- From a file of a package up to the root of the workspace. -/
theorem navigation_behind_root_steps :
    let l : Label := ⟨"@ws//a/b:c"⟩
    let m : Label := ⟨"@ws//a/b"⟩
    l.WellFormed ∧ l.parent? = some m ∧ parse m.text = .ok m ∧
    (ascend 3 l).map Label.text = some "@ws//" ∧
    ∀ n m, ascend n l = some m → (m.parent? = none ↔ m.chars = l.root) := by
  intro l m
  have sound : l.WellFormed := by decide
  have up : l.parent? = some m := by decide
  have relative : l.form ≠ .packageRelative := by decide
  rcases navigation_behind_root sound with ⟨above, _, _, _, top⟩
  rcases above m (.inl up) with ⟨_, _, _, accepted, _⟩
  exact ⟨sound, up, accepted.mpr (by decide), by decide, top relative⟩

/-- Neither the package nor the parent of a bare file name is a label. -/
theorem package_of_file_ill_formed :
    ¬ ∀ l m : Label, l.WellFormed → l.parent? = some m ∨ l.package? = some m → m.WellFormed := by
  intro sound
  have parent : (⟨":file"⟩ : Label).parent? = some ⟨""⟩ := by decide
  have wellFormed := sound ⟨":file"⟩ ⟨""⟩ (by decide) (.inl parent)
  exact absurd wellFormed (by decide)

end Label
end RuleAnalysis
