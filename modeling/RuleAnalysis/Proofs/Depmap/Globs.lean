import Mathlib.Data.List.Infix
import RuleAnalysis.Depmap.Entry
import RuleAnalysis.Proofs.Success

namespace RuleAnalysis

/-!
# What globs mean

A glob is translated to a regular expression, and what reads regular
expressions is not part of this library. All that is relied upon is how it
reads anchors and single characters, one after the other. The expression of a
glob is made of nothing else, however many characters of the glob would have a
meaning of their own in a regular expression.
-/

namespace Regex

open DepmapEntry (isMeta literal)

/-! ## Patterns of anchors and characters -/

inductive Atom where
  | start
  | finish
  | char (c : Char)
  deriving DecidableEq

namespace Atom

def spelling : Atom → List Char
  | start => ['^']
  | finish => ['$']
  | char c => literal [c]

def char? : Atom → Option Char
  | char c => some c
  | _ => none

end Atom

/-- Atoms as a pattern spells them. -/
def spell (atoms : List Atom) : List Char := atoms.flatMap Atom.spelling

/-- The atoms that a pattern spells. -/
def atoms : List Char → List Atom
  | '\\' :: c :: cs => .char c :: atoms cs
  | '^' :: cs => .start :: atoms cs
  | '$' :: cs => .finish :: atoms cs
  | c :: cs => .char c :: atoms cs
  | [] => []

/-- What atoms match, with the text in front of it and the text behind it. -/
def Fits : List Atom → List Char → List Char → List Char → Prop
  | [], _, here, _ => here = []
  | .start :: rest, before, here, after => before = [] ∧ Fits rest before here after
  | .finish :: rest, before, here, after => here = [] ∧ after = [] ∧ Fits rest before here after
  | .char c :: rest, before, here, after =>
      ∃ others, here = c :: others ∧ Fits rest (before ++ [c]) others after

/-- Atoms match some part of a text. -/
def Found (as : List Atom) (text : List Char) : Prop :=
  ∃ before here after, before ++ here ++ after = text ∧ Fits as before here after

variable {as rest : List Atom} {s text before here after : List Char}

theorem spell_append (as bs : List Atom) : spell (as ++ bs) = spell as ++ spell bs :=
  List.flatMap_append

theorem spell_start (as : List Atom) : spell (.start :: as) = '^' :: spell as := rfl

/-- A text is escaped character by character. -/
theorem spell_chars (s : List Char) : spell (s.map .char) = literal s := by
  unfold spell literal
  rw [List.flatMap_map]
  apply List.flatMap_congr
  intro c _
  simp [Atom.spelling, literal]

/-- No two sequences of atoms have one spelling. -/
theorem atoms_spell (as : List Atom) : atoms (spell as) = as := by
  induction as with
  | nil => rfl
  | cons a as ih =>
      rw [spell, List.flatMap_cons, ← spell]
      cases a with
      | start => rw [Atom.spelling, List.singleton_append, atoms, ih]
      | finish => rw [Atom.spelling, List.singleton_append, atoms, ih]
      | char c =>
          by_cases special : isMeta c = true
          · have escaped : literal [c] = ['\\', c] := by simp [literal, special]
            rw [Atom.spelling, escaped, List.cons_append, List.singleton_append, atoms, ih]
          · -- What is not escaped is none of the characters that are read as something else.
            have bare : literal [c] = [c] := by simp [literal, special]
            have other : ∀ d, isMeta d = true → c ≠ d := by
              intro d meaning same
              exact special (same ▸ meaning)
            rw [Atom.spelling, bare, List.singleton_append, atoms, ih]
            · intro _ _ same
              exact absurd same (other _ (by decide))
            · exact other _ (by decide)
            · exact other _ (by decide)

/-! ## Where atoms are found -/

theorem fits_chars (s : List Char) (before here : List Char) :
    Fits (s.map .char ++ rest) before here after ↔
      ∃ others, here = s ++ others ∧ Fits rest (before ++ s) others after := by
  induction s generalizing before here with
  | nil => simp
  | cons c s ih => simp [Fits, ih]

/-- With an anchor behind it a text is found where it is the end. -/
theorem found_ending : Found (s.map .char ++ [.finish]) text ↔ s <:+ text := by
  constructor
  · rintro ⟨before, here, after, whole, fits⟩
    rcases (fits_chars s before here).mp fits with ⟨others, rfl, rfl, rfl, _⟩
    refine ⟨before, ?_⟩
    rw [← whole, List.append_nil, List.append_nil]
  · rintro ⟨before, whole⟩
    refine ⟨before, s, [], ?_, ?_⟩
    · rw [whole, List.append_nil]
    · exact (fits_chars s before s).mpr ⟨[], s.append_nil.symm, rfl, rfl, rfl⟩

/-- With an anchor in front of it a text is found where it is the beginning. -/
theorem found_beginning : Found (.start :: s.map .char) text ↔ s <+: text := by
  rw [← List.append_nil (s.map Atom.char)]
  constructor
  · rintro ⟨before, here, after, whole, rfl, fits⟩
    rcases (fits_chars s [] here).mp fits with ⟨others, rfl, rfl⟩
    refine ⟨after, ?_⟩
    rw [← whole, List.nil_append, List.append_nil]
  · rintro ⟨after, whole⟩
    refine ⟨[], s, after, whole, rfl, ?_⟩
    exact (fits_chars s [] s).mpr ⟨[], s.append_nil.symm, rfl⟩

/-- Between two anchors a text is found in itself alone. -/
theorem found_whole : Found (.start :: (s.map .char ++ [.finish])) text ↔ text = s := by
  constructor
  · rintro ⟨before, here, after, whole, rfl, fits⟩
    rcases (fits_chars s [] here).mp fits with ⟨others, rfl, rfl, rfl, _⟩
    rw [← whole, List.nil_append, List.append_nil, List.append_nil]
  · intro same
    refine ⟨[], s, [], ?_, rfl, ?_⟩
    · rw [same, List.nil_append, List.append_nil]
    · exact (fits_chars s [] s).mpr ⟨[], s.append_nil.symm, rfl, rfl, rfl⟩

/-! ## What reads patterns -/

/-- What tells whether a pattern matches a part of a text, given what stands in front of that part
and behind it. -/
structure Engine where
  Matches (pattern before here after : List Char) : Prop

namespace Engine

/-- Anchors match at the ends of a text and nowhere else, and a character matches itself if it is
escaped where it has a meaning. -/
structure Sound (e : Engine) : Prop where
  empty (before here after : List Char) : e.Matches [] before here after ↔ here = []
  start (rest : List Atom) (before here after : List Char) :
    e.Matches (spell (.start :: rest)) before here after ↔
      before = [] ∧ e.Matches (spell rest) before here after
  finish (rest : List Atom) (before here after : List Char) :
    e.Matches (spell (.finish :: rest)) before here after ↔
      here = [] ∧ after = [] ∧ e.Matches (spell rest) before here after
  char (c : Char) (rest : List Atom) (before here after : List Char) :
    e.Matches (spell (.char c :: rest)) before here after ↔
      ∃ others, here = c :: others ∧ e.Matches (spell rest) (before ++ [c]) others after

/-- A pattern matches some part of a text. -/
def Finds (e : Engine) (pattern text : String) : Prop :=
  ∃ before here after,
    before ++ here ++ after = text.toList ∧ e.Matches pattern.toList before here after

variable {e : Engine}

/-- What holds of one atom holds of all atoms of a pattern. -/
theorem Sound.matches_iff (sound : e.Sound) (as : List Atom) (before here : List Char) :
    e.Matches (spell as) before here after ↔ Fits as before here after := by
  induction as generalizing before here with
  | nil => exact sound.empty before here after
  | cons a as ih =>
      cases a with
      | start => rw [sound.start, Fits, ih]
      | finish => rw [sound.finish, Fits, ih]
      | char c => simp only [sound.char, Fits, ih]

theorem Sound.finds_iff (sound : e.Sound) (as : List Atom) (text : String) :
    e.Finds (String.ofList (spell as)) text ↔ Found as text.toList := by
  unfold Finds Found
  simp only [String.toList_ofList, sound.matches_iff]

/-- Reads a pattern as the atoms that it spells. -/
def plain : Engine := ⟨fun pattern => Fits (atoms pattern)⟩

theorem plain_sound : plain.Sound where
  empty _ _ _ := Iff.rfl
  start rest before here after := by
    simp only [plain, atoms_spell, Fits]
  finish rest before here after := by
    simp only [plain, atoms_spell, Fits]
  char c rest before here after := by
    simp only [plain, atoms_spell, Fits]

end Engine

end Regex

namespace DepmapEntry

open Regex Success

/-! ## The pattern of a glob -/

/-- The atoms that a glob is translated to. -/
inductive Translates : List Char → List Atom → Prop
  | ending {s : List Char} : s ≠ [] → '*' ∉ s → Translates ('*' :: s) (s.map .char ++ [.finish])
  | beginning {s : List Char} : s ≠ [] → '*' ∉ s →
      Translates (s ++ ['*']) (.start :: s.map .char)
  | whole {s : List Char} : s ≠ [] → '*' ∉ s →
      Translates s (.start :: (s.map .char ++ [.finish]))

variable {g p : String} {s cs : List Char} {as : List Atom}

theorem translateGlob_ending (spelled : g.toList = '*' :: s) :
    translateGlob g =
      if s ≠ [] ∧ '*' ∉ s then .ok (String.ofList (spell (s.map .char ++ [.finish])))
      else .error (.invalidGlob g) := by
  have once : (('*' :: s).count '*' = 1) ↔ '*' ∉ s := by
    rw [List.count_cons_self, Nat.add_eq_right, List.count_eq_zero]
  have more : ('*' :: s ≠ ['*']) ↔ s ≠ [] := by simp
  have pattern : spell (s.map .char ++ [.finish]) = literal s ++ ['$'] := by
    rw [spell_append, spell_chars]
    rfl
  simp only [translateGlob, spelled, List.head?_cons, if_true, Bool.and_eq_true, decide_eq_true_eq,
    once, more, List.tail_cons, pattern, and_comm]

theorem translateGlob_beginning (spelled : g.toList = s ++ ['*']) (own : s.head? ≠ some '*')
    (more : s ≠ []) :
    translateGlob g =
      if '*' ∉ s then .ok (String.ofList (spell (.start :: s.map .char)))
      else .error (.invalidGlob g) := by
  have once : ((s ++ ['*']).count '*' = 1) ↔ '*' ∉ s := by
    rw [List.count_append, List.count_singleton_self, Nat.add_eq_right, List.count_eq_zero]
  have first : (s ++ ['*']).head? ≠ some '*' := by
    rwa [List.head?_append_of_ne_nil _ more]
  simp only [translateGlob, spelled, if_neg first, List.getLast?_concat, if_true, once,
    List.dropLast_concat, spell_start, spell_chars]

theorem translateGlob_whole (first : g.toList.head? ≠ some '*')
    (last : g.toList.getLast? ≠ some '*') :
    translateGlob g =
      if g.toList ≠ [] ∧ '*' ∉ g.toList then
        .ok (String.ofList (spell (.start :: (g.toList.map .char ++ [.finish]))))
      else .error (.invalidGlob g) := by
  have pattern : spell (.start :: (g.toList.map .char ++ [.finish])) =
      '^' :: literal g.toList ++ ['$'] := by
    rw [spell_start, spell_append, spell_chars]
    rfl
  simp only [translateGlob, if_neg first, if_neg last, Bool.and_eq_true, decide_eq_true_eq,
    List.count_eq_zero, pattern]

/-- The glob of some atoms has a star in the place of each anchor that is missing. -/
def globOf (as : List Atom) : List Char :=
  (if .start ∈ as then [] else ['*']) ++ as.filterMap Atom.char? ++
    (if .finish ∈ as then [] else ['*'])

/-- No glob but one is translated to some atoms. -/
theorem Translates.globOf_eq (translates : Translates cs as) : globOf as = cs := by
  have text : ∀ s : List Char, (s.map Atom.char).filterMap Atom.char? = s := by
    intro s
    rw [List.filterMap_map]
    exact List.filterMap_some
  cases translates with
  | ending _ _ => simp [globOf, List.filterMap_append, text, Atom.char?]
  | beginning _ _ => simp [globOf, List.filterMap_cons, text, Atom.char?]
  | whole _ _ => simp [globOf, List.filterMap_append, List.filterMap_cons, text, Atom.char?]

theorem translateGlob_eq_ok_iff :
    translateGlob g = .ok p ↔ ∃ as, Translates g.toList as ∧ p = String.ofList (spell as) := by
  constructor
  · intro accepted
    by_cases first : g.toList.head? = some '*'
    · rcases List.head?_eq_some_iff.mp first with ⟨s, spelled⟩
      rw [translateGlob_ending spelled] at accepted
      split at accepted
      · next fine =>
          rw [spelled]
          exact ⟨_, .ending fine.1 fine.2, (Except.ok.inj accepted).symm⟩
      · cases accepted
    · by_cases last : g.toList.getLast? = some '*'
      · rcases List.getLast?_eq_some_iff.mp last with ⟨s, spelled⟩
        have more : s ≠ [] := by
          rintro rfl
          exact first (by rw [spelled]; rfl)
        have own : s.head? ≠ some '*' := by
          rwa [spelled, List.head?_append_of_ne_nil _ more] at first
        rw [translateGlob_beginning spelled own more] at accepted
        split at accepted
        · next fine =>
            rw [spelled]
            exact ⟨_, .beginning more fine, (Except.ok.inj accepted).symm⟩
        · cases accepted
      · rw [translateGlob_whole first last] at accepted
        split at accepted
        · next fine => exact ⟨_, .whole fine.1 fine.2, (Except.ok.inj accepted).symm⟩
        · cases accepted
  · rintro ⟨as, translates, rfl⟩
    generalize spelled : g.toList = cs at translates
    cases translates with
    | ending more single => rw [translateGlob_ending spelled, if_pos ⟨more, single⟩]
    | beginning more single =>
        have own := fun star => single (List.mem_of_head? star)
        rw [translateGlob_beginning spelled own more, if_pos single]
    | whole more single =>
        subst spelled
        have first := fun star => single (List.mem_of_head? star)
        have last := fun star => single (List.mem_of_getLast? star)
        rw [translateGlob_whole first last, if_pos ⟨more, single⟩]

theorem eq_invalidGlob_of_translateGlob {e : LabelError} (refused : translateGlob g = .error e) :
    e = .invalidGlob g := by
  unfold translateGlob at refused
  dsimp only at refused
  repeat' split at refused
  all_goals
    cases refused
    try rfl

/-- A text with at most one star, at its beginning or its end, beside at least one other
character. -/
def Accepted (cs : List Char) : Prop :=
  cs ≠ [] ∧ cs ≠ ['*'] ∧ cs.count '*' ≤ 1 ∧
    ('*' ∈ cs → cs.head? = some '*' ∨ cs.getLast? = some '*')

theorem exists_translates_iff : (∃ as, Translates cs as) ↔ Accepted cs := by
  constructor
  · rintro ⟨as, translates⟩
    cases translates with
    | ending more single => simp [Accepted, more, List.count_eq_zero.mpr single]
    | beginning more single => simp [Accepted, more, List.count_eq_zero.mpr single]
    | whole more single =>
        refine ⟨more, ?_, ?_, fun star => absurd star single⟩
        · rintro rfl
          exact single List.mem_cons_self
        · rw [List.count_eq_zero.mpr single]
          exact Nat.zero_le 1
  · rintro ⟨some_text, other, few, place⟩
    by_cases star : '*' ∈ cs
    · rcases place star with first | last
      · rcases List.head?_eq_some_iff.mp first with ⟨s, rfl⟩
        rw [List.count_cons_self] at few
        refine ⟨_, .ending ?_ (List.count_eq_zero.mp (by omega))⟩
        rintro rfl
        exact other rfl
      · rcases List.getLast?_eq_some_iff.mp last with ⟨s, rfl⟩
        rw [List.count_append, List.count_singleton_self] at few
        refine ⟨_, .beginning ?_ (List.count_eq_zero.mp (by omega))⟩
        rintro rfl
        exact other rfl
    · exact ⟨_, .whole some_text star⟩

/-! ## The paths that a glob finds -/

/-- The paths that a glob stands for. -/
def Names (cs path : List Char) : Prop :=
  (∃ s, cs = '*' :: s ∧ s <:+ path) ∨ (∃ s, cs = s ++ ['*'] ∧ s <+: path) ∨ '*' ∉ cs ∧ path = cs

namespace Translates

theorem of_ending (translates : Translates ('*' :: s) as) : as = s.map .char ++ [.finish] := by
  generalize spelled : '*' :: s = cs at translates
  cases translates with
  | ending _ _ => rw [(List.cons.inj spelled).2]
  | @beginning text more single =>
      have star : (text ++ ['*']).head? = some '*' := by rw [← spelled, List.head?_cons]
      rw [List.head?_append_of_ne_nil _ more] at star
      exact absurd (List.mem_of_head? star) single
  | whole _ single => exact absurd (spelled ▸ List.mem_cons_self) single

theorem of_beginning (translates : Translates (s ++ ['*']) as) : as = .start :: s.map .char := by
  generalize spelled : s ++ ['*'] = cs at translates
  cases translates with
  | @ending text more single =>
      have star : ('*' :: text).getLast? = some '*' := by rw [← spelled, List.getLast?_concat]
      rw [List.getLast?_cons_of_ne_nil more] at star
      exact absurd (List.mem_of_getLast? star) single
  | beginning _ _ => rw [List.append_cancel_right spelled]
  | whole _ single => exact absurd (spelled ▸ List.mem_concat_self) single

theorem of_whole (translates : Translates s as) (single : '*' ∉ s) :
    as = .start :: (s.map .char ++ [.finish]) := by
  cases translates with
  | ending _ _ => exact absurd List.mem_cons_self single
  | beginning _ _ => exact absurd List.mem_concat_self single
  | whole _ _ => rfl

/-- The pattern of a glob is found in the paths that the glob names. -/
theorem found_iff (translates : Translates cs as) (path : List Char) :
    Found as path ↔ Names cs path := by
  constructor
  · intro found
    cases translates with
    | ending _ _ => exact .inl ⟨_, rfl, found_ending.mp found⟩
    | beginning _ _ => exact .inr (.inl ⟨_, rfl, found_beginning.mp found⟩)
    | whole _ single => exact .inr (.inr ⟨single, found_whole.mp found⟩)
  · rintro (⟨s, rfl, ends⟩ | ⟨s, rfl, begins⟩ | ⟨single, same⟩)
    · rw [translates.of_ending, found_ending]
      exact ends
    · rw [translates.of_beginning, found_beginning]
      exact begins
    · rw [translates.of_whole single, found_whole]
      exact same

end Translates

theorem exists_translateGlob_iff : (∃ p, translateGlob g = .ok p) ↔ Accepted g.toList := by
  rw [← exists_translates_iff]
  constructor
  · rintro ⟨p, accepted⟩
    rcases translateGlob_eq_ok_iff.mp accepted with ⟨as, translates, _⟩
    exact ⟨as, translates⟩
  · rintro ⟨as, translates⟩
    exact ⟨_, translateGlob_eq_ok_iff.mpr ⟨as, translates, rfl⟩⟩

/-- An entry is made of globs that are all accepted, and it keeps the paths that one of them
names. -/
theorem glob_keeps {e : Engine} (sound : e.Sound) (base : Label) (globs : List String) :
    ((∃ entry, glob base globs = .ok entry) ↔ ∀ g ∈ globs, Accepted g.toList) ∧
    ∀ entry, glob base globs = .ok entry →
      ∃ patterns, entry = .filter base .top patterns ∧
        ∀ path, (∃ p ∈ patterns, e.Finds p path) ↔ ∃ g ∈ globs, Names g.toList path.toList := by
  constructor
  · unfold glob
    simp only [exists_bind_eq_ok_iff, exists_pure_eq_ok_iff, and_true, exists_mapM_eq_ok_iff,
      exists_translateGlob_iff]
  · intro entry built
    rcases bind_eq_ok_iff.mp built with ⟨patterns, translated, same⟩
    refine ⟨patterns, (Except.ok.inj same).symm, ?_⟩
    intro path
    -- Patterns stand beside their globs, so the induction is on both lists at once.
    have pairs := mapM_eq_ok_iff.mp translated
    clear built translated same
    induction pairs with
    | nil => simp
    | @cons g p globs patterns accepted _ ih =>
        rcases translateGlob_eq_ok_iff.mp accepted with ⟨as, translates, rfl⟩
        rw [List.exists_mem_cons_iff, List.exists_mem_cons_iff, sound.finds_iff,
          translates.found_iff]
        exact or_congr_right ih

/-- A glob is translated exactly if it has at most one star, at its beginning or its end, beside at
least one other character. The pattern is then found in the paths that end, begin or are as the
glob says, whatever its characters would mean in a pattern of their own, and no other glob has that
pattern. -/
theorem translateGlob_means {e : Engine} (sound : e.Sound) (g : String) :
    ((∃ p, translateGlob g = .ok p) ↔ Accepted g.toList) ∧
    (¬ Accepted g.toList → translateGlob g = .error (.invalidGlob g)) ∧
    ∀ p, translateGlob g = .ok p →
      (∀ s, g = "*" ++ s → ∀ t, e.Finds p t ↔ s.toList <:+ t.toList) ∧
      (∀ s, g = s ++ "*" → ∀ t, e.Finds p t ↔ s.toList <+: t.toList) ∧
      ('*' ∉ g.toList → ∀ t, e.Finds p t ↔ t = g) ∧
      ∀ g', translateGlob g' = .ok p → g' = g := by
  refine ⟨exists_translateGlob_iff, ?_, ?_⟩
  · intro other
    cases result : translateGlob g with
    | ok p => exact absurd (exists_translateGlob_iff.mp ⟨p, result⟩) other
    | error e => rw [eq_invalidGlob_of_translateGlob result]
  · intro p accepted
    rcases translateGlob_eq_ok_iff.mp accepted with ⟨as, translates, rfl⟩
    refine ⟨?_, ?_, ?_, ?_⟩
    · rintro s rfl t
      have text : ("*" ++ s).toList = '*' :: s.toList := String.toList_append
      rw [text] at translates
      rw [sound.finds_iff, translates.of_ending, found_ending]
    · rintro s rfl t
      have text : (s ++ "*").toList = s.toList ++ ['*'] := String.toList_append
      rw [text] at translates
      rw [sound.finds_iff, translates.of_beginning, found_beginning]
    · intro single t
      rw [sound.finds_iff, translates.of_whole single, found_whole, String.toList_inj]
    · intro g' same
      rcases translateGlob_eq_ok_iff.mp same with ⟨as', translates', spelled⟩
      have one : as = as' := by
        rw [← atoms_spell as, ← atoms_spell as', String.ofList_inj.mp spelled]
      rw [← String.toList_inj, ← translates'.globOf_eq, ← one, translates.globOf_eq]

/-- Dots and dollars stand for themselves. -/
theorem translateGlob_means_literally :
    Engine.plain.Sound ∧
    translateGlob "*.rs" = .ok "\\.rs$" ∧ translateGlob "a$*" = .ok "^a\\$" ∧
    translateGlob "BUILD" = .ok "^BUILD$" ∧
    (∀ t, Engine.plain.Finds "\\.rs$" t ↔ ".rs".toList <:+ t.toList) ∧
    (∀ t, Engine.plain.Finds "^a\\$" t ↔ "a$".toList <+: t.toList) ∧
    (∀ t, Engine.plain.Finds "^BUILD$" t ↔ t = "BUILD") ∧
    translateGlob "a*b" = .error (.invalidGlob "a*b") := by
  have sound := Engine.plain_sound
  have suffixes : translateGlob "*.rs" = .ok "\\.rs$" := by decide
  have prefixes : translateGlob "a$*" = .ok "^a\\$" := by decide
  have wholes : translateGlob "BUILD" = .ok "^BUILD$" := by decide
  refine ⟨sound, suffixes, prefixes, wholes, ?_, ?_, ?_, ?_⟩
  · exact ((translateGlob_means sound "*.rs").2.2 _ suffixes).1 ".rs" rfl
  · exact ((translateGlob_means sound "a$*").2.2 _ prefixes).2.1 "a$" rfl
  · exact ((translateGlob_means sound "BUILD").2.2 _ wholes).2.2.1 (by decide)
  · exact (translateGlob_means sound "a*b").2.1 (by unfold Accepted; decide)

end DepmapEntry
end RuleAnalysis
