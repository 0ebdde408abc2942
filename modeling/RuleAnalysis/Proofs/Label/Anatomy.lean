import RuleAnalysis.Label.Basic

namespace RuleAnalysis
namespace Label

/-!
# The anatomy of labels

The root of a label decides its form and its workspace. Behind a root the text
may be exchanged freely, as long as a label without a root does not come to
begin like one that has one. A text is a well-formed label exactly when it has
one of the three roots, is not empty and holds no blank or control characters.
-/

open Text

/-! ## Labels as texts -/

@[simp] theorem chars_ofChars (cs : List Char) : (ofChars cs).chars = cs :=
  String.toList_ofList

@[simp] theorem ofChars_chars (l : Label) : ofChars l.chars = l := by
  obtain ⟨text⟩ := l
  rw [ofChars, chars, String.ofList_toList]

theorem ofChars_eq_iff {cs : List Char} {l : Label} : ofChars cs = l ↔ cs = l.chars := by
  constructor
  · rintro rfl
    exact (chars_ofChars cs).symm
  · rintro rfl
    exact ofChars_chars l

/-- The anatomy of a text shows in its first two characters. -/
theorem anatomy_eq (cs : List Char) :
    anatomy cs =
      if cs.head? = some '@' then
        match cutDoubleSlash? cs.tail with
        | some (name, rest) => (.workspaceAbsolute, '@' :: name ++ ['/', '/'], rest)
        | none => (.workspaceAbsolute, [], cs)
      else if cs.take 2 = ['/', '/'] then (.workspaceRelative, ['/', '/'], cs.drop 2)
      else (.packageRelative, [], cs) := by
  match cs with
  | [] => rfl
  | c :: cs =>
      by_cases builtin : c = '@'
      · subst builtin
        rfl
      · rw [if_neg (by simpa using builtin)]
        by_cases slashes : (c :: cs).take 2 = ['/', '/']
        · rw [if_pos slashes]
          obtain ⟨rfl, d, ds, rfl, rfl⟩ : c = '/' ∧ ∃ d ds, cs = d :: ds ∧ d = '/' := by
            cases cs <;> simp_all
          rfl
        · rw [if_neg slashes, anatomy]
          · intro _ same
            exact builtin (List.cons.inj same).1
          · intro _ same
            exact slashes (same ▸ rfl)

theorem form_eq (l : Label) :
    l.form =
      if l.chars.head? = some '@' then .workspaceAbsolute
      else if l.chars.take 2 = ['/', '/'] then .workspaceRelative
      else .packageRelative := by
  rw [form, anatomy_eq]
  split
  · split <;> rfl
  · split <;> rfl

/-- A label is its root and what stands behind it. -/
theorem root_append_rest (l : Label) : l.root ++ l.rest = l.chars := by
  rw [root, rest, anatomy_eq]
  split
  · next begins =>
      rcases List.head?_eq_some_iff.mp begins with ⟨tail, spelled⟩
      rw [spelled]
      split
      · next cut => simpa using (eq_of_cutDoubleSlash? cut).symm
      · rfl
  · split
    · next begins => rw [← begins, List.take_append_drop]
    · rfl

/-! ## Roots -/

/-- The roots of the three forms. A workspace has a name, in which no separator stands. -/
inductive IsRoot : Form → List Char → Prop
  | workspaceAbsolute {name : List Char} (named : name ≠ [])
      (clear : ∀ c ∈ name, isSeparator c = false) :
      IsRoot .workspaceAbsolute ('@' :: name ++ ['/', '/'])
  | workspaceRelative : IsRoot .workspaceRelative ['/', '/']
  | packageRelative : IsRoot .packageRelative []

/-- What may stand behind a root. A label without one begins with neither an at sign nor a slash. -/
def Begins : Form → List Char → Prop
  | .packageRelative, cs => cs.head? ≠ some '@' ∧ cs.head? ≠ some '/'
  | _, _ => True

theorem Begins.nil (f : Form) : Begins f [] := by
  cases f <;> simp [Begins]

theorem Begins.of_ne {f : Form} (rooted : f ≠ .packageRelative) (cs : List Char) : Begins f cs := by
  cases f with
  | packageRelative => exact absurd rfl rooted
  | _ => trivial

/-- Only the first character counts. -/
theorem Begins.congr {f : Form} {cs ds : List Char} (begins : Begins f cs)
    (same : ds.head? = cs.head?) : Begins f ds := by
  cases f with
  | packageRelative =>
      rw [Begins, same]
      exact begins
  | _ => trivial

/-- What is cut short begins as before, if anything is left. -/
theorem Begins.cut {f : Form} {before cs : List Char} (begins : Begins f cs)
    (cut : before <+: cs) : Begins f before := by
  rcases cut with ⟨after, rfl⟩
  cases before with
  | nil => exact .nil f
  | cons c before => exact begins.congr rfl

variable {f : Form} {r cs : List Char}

theorem IsRoot.cutDoubleSlash?_append {name : List Char}
    (clear : ∀ c ∈ name, isSeparator c = false) (cs : List Char) :
    cutDoubleSlash? (name ++ '/' :: '/' :: cs) = some (name, cs) :=
  Text.cutDoubleSlash?_append (fun slash => absurd (clear _ slash) (by decide)) cs

/-- A root is recognized in front of whatever may stand behind it. -/
theorem IsRoot.anatomy_append (isRoot : IsRoot f r) (begins : Begins f cs) :
    anatomy (r ++ cs) = (f, r, cs) := by
  cases isRoot with
  | workspaceAbsolute _ clear =>
      simp [anatomy, cutDoubleSlash?_append clear]
  | workspaceRelative => rfl
  | packageRelative =>
      cases cs with
      | nil => rfl
      | cons c cs =>
          have first : c ≠ '@' ∧ c ≠ '/' := by simpa [Begins] using begins
          rw [List.nil_append, anatomy] <;> simp [first]

/-- The label has one of the three roots, and behind it what may stand there. -/
structure Rooted (l : Label) : Prop where
  isRoot : IsRoot l.form l.root
  begins : Begins l.form l.rest

namespace IsRoot

theorem form_append (isRoot : IsRoot f r) (begins : Begins f cs) :
    (ofChars (r ++ cs)).form = f := by
  rw [form, chars_ofChars, isRoot.anatomy_append begins]

theorem root_append (isRoot : IsRoot f r) (begins : Begins f cs) :
    (ofChars (r ++ cs)).root = r := by
  rw [root, chars_ofChars, isRoot.anatomy_append begins]

theorem rest_append (isRoot : IsRoot f r) (begins : Begins f cs) :
    (ofChars (r ++ cs)).rest = cs := by
  rw [rest, chars_ofChars, isRoot.anatomy_append begins]

theorem rooted_append (isRoot : IsRoot f r) (begins : Begins f cs) :
    (ofChars (r ++ cs)).Rooted := by
  constructor
  · rw [isRoot.form_append begins, isRoot.root_append begins]
    exact isRoot
  · rw [isRoot.form_append begins, isRoot.rest_append begins]
    exact begins

/-- The workspace is named in the root. -/
theorem workspaceName?_append (isRoot : IsRoot f r) (begins : Begins f cs) :
    (ofChars (r ++ cs)).workspaceName? = (ofChars r).workspaceName? := by
  rw [workspaceName?, workspaceName?, chars_ofChars, chars_ofChars]
  cases isRoot with
  | workspaceAbsolute _ clear => simp [cutDoubleSlash?_append clear]
  | workspaceRelative => rfl
  | packageRelative =>
      cases cs with
      | nil => rfl
      | cons c cs =>
          have first : c ≠ '@' := by simpa [Begins] using begins.1
          simp [first]

end IsRoot

/-! ## Labels with the same root -/

namespace Rooted

variable {l : Label}

theorem form_behind (rooted : l.Rooted) (begins : Begins l.form cs) :
    (ofChars (l.root ++ cs)).form = l.form :=
  rooted.isRoot.form_append begins

theorem workspaceName?_eq (rooted : l.Rooted) :
    l.workspaceName? = (ofChars l.root).workspaceName? := by
  have own := rooted.isRoot.workspaceName?_append rooted.begins
  rw [root_append_rest, ofChars_chars] at own
  exact own

/-- Labels with the same root are in the same workspace. -/
theorem workspaceName?_behind (rooted : l.Rooted) (begins : Begins l.form cs) :
    (ofChars (l.root ++ cs)).workspaceName? = l.workspaceName? := by
  rw [rooted.workspaceName?_eq]
  exact rooted.isRoot.workspaceName?_append begins

/-- The workspace-absolute labels are those that name a workspace. -/
theorem workspaceName?_isSome_iff (rooted : l.Rooted) :
    l.workspaceName?.isSome ↔ l.form = .workspaceAbsolute := by
  rw [rooted.workspaceName?_eq, workspaceName?, chars_ofChars]
  rcases rooted with ⟨isRoot, _⟩
  generalize l.form = f, l.root = r at isRoot
  cases isRoot with
  | workspaceAbsolute _ clear => simp [IsRoot.cutDoubleSlash?_append clear]
  | workspaceRelative => simp
  | packageRelative => simp

/-- The root of a workspace-absolute label spells out the name of the workspace. -/
theorem root_of_workspaceName? (rooted : l.Rooted) {name : String}
    (named : l.workspaceName? = some name) : l.root = '@' :: name.toList ++ ['/', '/'] := by
  rw [rooted.workspaceName?_eq, workspaceName?, chars_ofChars] at named
  rcases rooted with ⟨isRoot, _⟩
  generalize l.form = f, l.root = r at isRoot named
  cases isRoot with
  | workspaceAbsolute _ clear =>
      simp only [List.cons_append, IsRoot.cutDoubleSlash?_append clear, Option.map_some,
        Option.some.injEq] at named
      rw [← named, String.toList_ofList]
  | workspaceRelative => cases named
  | packageRelative => cases named

theorem root_of_workspaceRelative (rooted : l.Rooted) (relative : l.form = .workspaceRelative) :
    l.root = ['/', '/'] := by
  have isRoot := relative ▸ rooted.isRoot
  generalize l.root = r at isRoot
  cases isRoot with
  | workspaceRelative => rfl

theorem packageRelative_of_root (rooted : l.Rooted) (rootless : l.root = []) :
    l.form = .packageRelative := by
  have isRoot := rootless ▸ rooted.isRoot
  generalize l.form = f at isRoot
  cases isRoot with
  | packageRelative => rfl

theorem root_of_packageRelative (rooted : l.Rooted) (relative : l.form = .packageRelative) :
    l.root = [] := by
  have isRoot := relative ▸ rooted.isRoot
  generalize l.root = r at isRoot
  cases isRoot with
  | packageRelative => rfl

theorem rest_of_packageRelative (rooted : l.Rooted) (relative : l.form = .packageRelative) :
    l.rest = l.chars := by
  rw [← root_append_rest l, rooted.root_of_packageRelative relative, List.nil_append]

end Rooted

/-! ## Well-formed labels -/

/-- The text holds no blank and no control characters. -/
def Clean (cs : List Char) : Prop :=
  ∀ c ∈ cs, (isBlank c || isControl c) = false

instance (cs : List Char) : Decidable (Clean cs) := List.decidableBAll _ cs

theorem clean_append_iff {cs ds : List Char} : Clean (cs ++ ds) ↔ Clean cs ∧ Clean ds :=
  List.forall_mem_append

theorem clean_cons_iff {c : Char} (kept : (isBlank c || isControl c) = false) {cs : List Char} :
    Clean (c :: cs) ↔ Clean cs :=
  List.forall_mem_cons.trans (and_iff_right kept)

theorem IsRoot.absolute_iff {name : List Char} :
    IsRoot .workspaceAbsolute ('@' :: name ++ ['/', '/']) ↔
      name ≠ [] ∧ ∀ c ∈ name, isSeparator c = false := by
  constructor
  · intro isRoot
    generalize spelled : '@' :: name ++ ['/', '/'] = r at isRoot
    cases isRoot with
    | workspaceAbsolute named clear =>
        cases List.append_cancel_right spelled
        exact ⟨named, clear⟩
  · rintro ⟨named, clear⟩
    exact .workspaceAbsolute named clear

theorem rooted_iff {l : Label} : l.Rooted ↔ IsRoot l.form l.root ∧ Begins l.form l.rest :=
  ⟨fun rooted => ⟨rooted.isRoot, rooted.begins⟩, fun both => ⟨both.1, both.2⟩⟩

/-- A well-formed label is a text that is not empty, has nothing in it that may not stand in a
label, and has one of the three roots. -/
theorem wellFormed_iff {l : Label} : l.WellFormed ↔ l.chars ≠ [] ∧ Clean l.chars ∧ l.Rooted := by
  rw [rooted_iff, WellFormed, fault?, form, root, rest, anatomy_eq, chars]
  cases l.text.toList with
  | nil => simp
  | cons c tail =>
      rw [List.isEmpty_cons, if_neg Bool.false_ne_true]
      split
      · next unclean =>
          refine iff_of_false (Option.some_ne_none _) ?_
          rintro ⟨_, clean, _⟩
          have found := List.find?_some unclean
          rw [clean _ (List.mem_of_find?_eq_some unclean)] at found
          cases found
      · next clean =>
          have noFault : Clean (c :: tail) := by simpa [Clean] using clean
          simp only [ne_eq, reduceCtorEq, not_false_eq_true, noFault, true_and]
          by_cases builtin : c = '@'
          · subst builtin
            cases cut : cutDoubleSlash? tail with
            | none =>
                have rootless : ¬ IsRoot .workspaceAbsolute [] := by
                  intro isRoot
                  cases isRoot
                simp [cut, rootless]
            | some parts =>
                have absolute : IsRoot .workspaceAbsolute ('@' :: parts.1 ++ ['/', '/']) ↔ _ :=
                  IsRoot.absolute_iff
                have begins : Begins .workspaceAbsolute parts.2 := trivial
                simpa [cut, begins] using absolute.symm
          · by_cases slash : c = '/'
            · subst slash
              by_cases second : tail.head? = some '/'
              · rcases List.head?_eq_some_iff.mp second with ⟨ds, rfl⟩
                exact iff_of_true rfl ⟨.workspaceRelative, trivial⟩
              · have single : tail.take 1 ≠ ['/'] := by
                  cases tail <;> simp_all
                have slashed : ¬ Begins .packageRelative ('/' :: tail) := fun begins => begins.2 rfl
                simp [second, single, slashed]
            · have begins : Begins .packageRelative (c :: tail) := by simp [Begins, builtin, slash]
              simp [builtin, slash, begins, IsRoot.packageRelative]

theorem WellFormed.rooted {l : Label} (sound : l.WellFormed) : l.Rooted :=
  (wellFormed_iff.mp sound).2.2

theorem WellFormed.clean {l : Label} (sound : l.WellFormed) : Clean l.chars :=
  (wellFormed_iff.mp sound).2.1

theorem WellFormed.chars_ne_nil {l : Label} (sound : l.WellFormed) : l.chars ≠ [] :=
  (wellFormed_iff.mp sound).1

/-- Among well-formed labels the workspace-relative ones are those that begin with a slash. -/
theorem form_eq_workspaceRelative_iff {l : Label} (sound : l.WellFormed) :
    l.form = .workspaceRelative ↔ l.chars.head? = some '/' := by
  rcases sound.rooted with ⟨isRoot, begins⟩
  rw [← root_append_rest l]
  generalize l.form = f, l.root = r at isRoot begins
  cases isRoot with
  | workspaceAbsolute _ _ => simp
  | workspaceRelative => simp
  | packageRelative => exact iff_of_false nofun begins.2

/-- A well-formed label without a root begins with a character that is part of a segment, or with
a colon. -/
theorem WellFormed.exists_first {l : Label} (sound : l.WellFormed) (relative : l.form = .packageRelative) :
    ∃ d after, l.chars = d :: after ∧ d ≠ '@' ∧ d ≠ '/' := by
  have begins := sound.rooted.begins
  rw [relative, Begins, sound.rooted.rest_of_packageRelative relative] at begins
  cases spelled : l.chars with
  | nil => exact absurd spelled sound.chars_ne_nil
  | cons d after =>
      rw [spelled] at begins
      exact ⟨d, after, rfl, fun same => begins.1 (same ▸ rfl), fun same => begins.2 (same ▸ rfl)⟩

/-- The text of a well-formed label may be exchanged behind the root. -/
theorem WellFormed.behind {l : Label} (sound : l.WellFormed) (begins : Begins l.form cs)
    (some_text : l.root ++ cs ≠ []) (clean : Clean cs) : (ofChars (l.root ++ cs)).WellFormed := by
  have whole := sound.clean
  rw [← root_append_rest, clean_append_iff] at whole
  rw [wellFormed_iff, chars_ofChars, clean_append_iff]
  exact ⟨some_text, ⟨whole.1, clean⟩, sound.rooted.isRoot.rooted_append begins⟩

end Label
end RuleAnalysis
