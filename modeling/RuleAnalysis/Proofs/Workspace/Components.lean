import RuleAnalysis.Workspace.FilePath
import Mathlib.Data.List.Infix

namespace RuleAnalysis
namespace FilePath

/-!
# The components of file paths

A path is compared with others by its components: what it begins with and then
the names between its slashes. Taking a path apart and putting two together
respects this. The components of a join are those of the directory and then
those of the path inside, and what is left behind a directory has the
components that the directory has not.
-/

open Text

/-! ## Names -/

/-- The pieces that are not passed over. -/
def namesAmong (pieces : List (List Char)) : List (List Char) :=
  pieces.filter fun piece => !isSilent piece

theorem namesAmong_append (xs ys : List (List Char)) :
    namesAmong (xs ++ ys) = namesAmong xs ++ namesAmong ys :=
  List.filter_append xs ys

theorem namesAmong_cons_silent {piece : List Char} (silent : isSilent piece = true)
    (rest : List (List Char)) : namesAmong (piece :: rest) = namesAmong rest :=
  List.filter_cons_of_neg (by simp [silent])

theorem namesAmong_cons {piece : List Char} (named : isSilent piece = false)
    (rest : List (List Char)) : namesAmong (piece :: rest) = piece :: namesAmong rest :=
  List.filter_cons_of_pos (by simp [named])

/-- The names of the components, whatever the path begins with. -/
def names (p : FilePath) : List (List Char) :=
  namesAmong (pieces (· = '/') p.chars)

theorem mem_names {p : FilePath} {name : List Char} (member : name ∈ p.names) :
    isSilent name = false ∧ '/' ∉ name := by
  rcases List.mem_filter.mp member with ⟨piece, named⟩
  refine ⟨by simpa using named, fun slash => ?_⟩
  exact of_decide_eq_false (not_mem_of_mem_pieces piece '/' slash) rfl

/-- What a path begins with is no name. -/
theorem namesAmong_body (p : FilePath) : namesAmong p.body = p.names := by
  rw [body, names]
  generalize p.chars = cs
  unfold anatomy
  split
  · rw [pieces, if_pos (decide_eq_true rfl)]
    rfl
  · rfl
  · rfl
  · rfl

theorem components_eq (p : FilePath) : p.components = p.anchor.toList ++ p.names.map .name := by
  rw [← namesAmong_body]
  rfl

theorem isAbsolute_iff {p : FilePath} : p.isAbsolute ↔ p.chars.head? = some '/' := by
  rw [isAbsolute, decide_eq_true_iff, anchor]
  generalize p.chars = cs
  unfold anatomy
  split
  · simp
  · simp
  · simp
  · next _ notRooted _ _ =>
      refine iff_of_false nofun fun slash => ?_
      rcases List.head?_eq_some_iff.mp slash with ⟨tail, spelled⟩
      exact notRooted tail spelled

/-- Characters other than slashes and dots stand in the names. -/
theorem mem_chars_iff {p : FilePath} {c : Char} (slash : c ≠ '/') (dot : c ≠ '.') :
    c ∈ p.chars ↔ ∃ name ∈ p.names, c ∈ name := by
  have within : c ∈ (pieces (· = '/') p.chars).flatten ↔ c ∈ p.chars := by
    rw [flatten_pieces, List.mem_filter]
    simp [slash]
  rw [← within, List.mem_flatten]
  constructor
  · rintro ⟨piece, member, inside⟩
    refine ⟨piece, List.mem_filter.mpr ⟨member, ?_⟩, inside⟩
    have spoken : piece ≠ [] ∧ piece ≠ ['.'] := by
      constructor
      · rintro rfl
        cases inside
      · rintro rfl
        exact dot (List.mem_singleton.mp inside)
    simp [isSilent, spoken]
  · rintro ⟨name, member, inside⟩
    exact ⟨name, (List.mem_filter.mp member).1, inside⟩

/-- Slashes at the beginning are passed over. -/
theorem namesAmong_pieces_dropWhile (cs : List Char) :
    namesAmong (pieces (· = '/') (cs.dropWhile (· = '/'))) = namesAmong (pieces (· = '/') cs) := by
  induction cs with
  | nil => rfl
  | cons c cs ih =>
      rw [List.dropWhile_cons]
      by_cases slash : c = '/'
      · rw [if_pos (decide_eq_true slash), ih, pieces, if_pos (decide_eq_true slash)]
        rfl
      · rw [if_neg (by simpa using slash)]

/-! ## Absolute paths -/

section

variable {p q base : FilePath}

theorem components_of_isAbsolute (absolute : p.isAbsolute) :
    p.components = .root :: p.names.map .name := by
  rw [components_eq, of_decide_eq_true absolute]
  rfl

theorem isAbsolute_iff_head : p.isAbsolute ↔ p.components.head? = some .root := by
  rw [isAbsolute, decide_eq_true_iff, components_eq]
  cases p.anchor with
  | some first => simp
  | none => cases p.names <;> simp

/-- Whatever begins like an absolute path is absolute. -/
theorem isAbsolute_of_prefix (absolute : base.isAbsolute)
    (begins : base.components <+: p.components) : p.isAbsolute := by
  rcases begins with ⟨rest, spelled⟩
  rw [isAbsolute_iff_head, ← spelled, components_of_isAbsolute absolute]
  rfl

theorem map_name_inj {xs ys : List (List Char)} :
    xs.map Component.name = ys.map Component.name ↔ xs = ys :=
  List.map_inj_right fun _ _ => Component.name.inj

theorem components_eq_iff (absolute : p.isAbsolute) (alike : q.isAbsolute) :
    p.components = q.components ↔ p.names = q.names := by
  rw [components_of_isAbsolute absolute, components_of_isAbsolute alike, List.cons.injEq,
    and_iff_right rfl, map_name_inj]

theorem components_prefix_iff (absolute : p.isAbsolute) (alike : q.isAbsolute) :
    p.components <+: q.components ↔ p.names <+: q.names := by
  rw [components_of_isAbsolute absolute, components_of_isAbsolute alike, List.cons_prefix_cons,
    and_iff_right rfl]
  constructor
  · rintro ⟨rest, spelled⟩
    rcases List.append_eq_map_iff.mp spelled with ⟨front, back, whole, same, _⟩
    rw [whole, map_name_inj.mp same]
    exact List.prefix_append p.names back
  · exact fun begins => begins.map _

/-- The names of a path behind a directory. -/
theorem components_eq_append_iff (absolute : base.isAbsolute) (alike : p.isAbsolute)
    {rest : List (List Char)} :
    p.components = base.components ++ rest.map .name ↔ p.names = base.names ++ rest := by
  rw [components_of_isAbsolute absolute, components_of_isAbsolute alike, List.cons_append,
    List.cons.injEq, and_iff_right rfl, ← List.map_append, map_name_inj]

end

/-! ## Joining -/

theorem names_join (base : FilePath) {rhs : String} (relative : rhs.toList.head? ≠ some '/') :
    (base.join rhs).names = base.names ++ (FilePath.mk rhs).names := by
  have slash : decide ('/' = '/') = true := rfl
  rw [join, if_neg relative]
  split
  · next closed =>
      simp only [Bool.or_eq_true, decide_eq_true_eq] at closed
      rcases closed with empty | closed
      · rw [names, names, chars, chars, String.toList_append, empty]
        rfl
      · rcases List.getLast?_eq_some_iff.mp closed with ⟨front, spelled⟩
        rw [names, names, chars, String.toList_append, ← chars, spelled, List.append_assoc,
          List.singleton_append, pieces_append slash, pieces_append slash, namesAmong_append,
          namesAmong_append]
        change _ = namesAmong _ ++ [] ++ _
        rw [List.append_nil]
        rfl
  · rw [names, chars, String.toList_append, String.toList_append, List.append_assoc]
    change namesAmong (pieces _ (base.chars ++ '/' :: rhs.toList)) = _
    rw [pieces_append slash, namesAmong_append]
    rfl

theorem isAbsolute_join {base : FilePath} (absolute : base.isAbsolute) (rhs : String) :
    (base.join rhs).isAbsolute := by
  have begins := isAbsolute_iff.mp absolute
  have kept (tail : String) : (FilePath.mk (base.text ++ tail)).isAbsolute := by
    rw [isAbsolute_iff, chars, String.toList_append, List.head?_append, ← chars, begins]
    rfl
  rw [join]
  split
  · next slash => exact isAbsolute_iff.mpr slash
  · split
    · exact kept rhs
    · rw [String.append_assoc]
      exact kept _

/-! ## What is left behind a directory -/

theorem namesAmong_dropComponents (n : Nat) (parts : List (List Char)) :
    namesAmong (dropComponents n parts) = (namesAmong parts).drop n := by
  fun_induction dropComponents n parts with
  | case1 => rfl
  | case2 => rfl
  | case3 n piece rest silent ih => rw [ih, namesAmong_cons_silent silent]
  | case4 n piece rest named ih =>
      rw [ih, namesAmong_cons (Bool.eq_false_iff.mpr named), List.drop_succ_cons]

theorem namesAmong_dropWhile (parts : List (List Char)) :
    namesAmong (parts.dropWhile isSilent) = namesAmong parts := by
  induction parts with
  | nil => rfl
  | cons piece rest ih =>
      by_cases silent : isSilent piece = true
      · rw [List.dropWhile_cons_of_pos silent, ih, namesAmong_cons_silent silent]
      · rw [List.dropWhile_cons_of_neg silent]

theorem namesAmong_reverse (parts : List (List Char)) :
    namesAmong parts.reverse = (namesAmong parts).reverse :=
  List.filter_reverse

theorem namesAmong_dropTrailingSilent (parts : List (List Char)) :
    namesAmong (dropTrailingSilent parts) = namesAmong parts := by
  rw [dropTrailingSilent, namesAmong_reverse, namesAmong_dropWhile, namesAmong_reverse,
    List.reverse_reverse]

theorem dropTrailingSilent_prefix (parts : List (List Char)) :
    dropTrailingSilent parts <+: parts := by
  have shortened := (List.dropWhile_suffix isSilent (l := parts.reverse)).reverse
  rwa [List.reverse_reverse] at shortened

theorem dropComponents_subset (n : Nat) (parts : List (List Char)) :
    dropComponents n parts ⊆ parts := by
  fun_induction dropComponents n parts with
  | case1 => exact List.Subset.refl _
  | case2 => exact List.Subset.refl _
  | case3 n piece rest silent ih => exact List.subset_cons_of_subset _ ih
  | case4 n piece rest named ih => exact List.subset_cons_of_subset _ ih

theorem chars_ofPieces (parts : List (List Char)) : (ofPieces parts).chars = glue '/' parts :=
  String.toList_ofList

/-- Pieces that can be written as a path: none holds a slash, and the first one is a name. -/
structure Spelling (parts : List (List Char)) : Prop where
  clear : ∀ part ∈ parts, '/' ∉ part
  first : ∀ part ∈ parts.head?, isSilent part = false

theorem slash_not_mem_body {p : FilePath} {piece : List Char} (member : piece ∈ p.body) :
    '/' ∉ piece := by
  have cut (cs : List Char) (inside : piece ∈ pieces (· = '/') cs) : '/' ∉ piece :=
    fun slash => of_decide_eq_false (not_mem_of_mem_pieces inside '/' slash) rfl
  rw [body] at member
  generalize p.chars = cs at member
  unfold anatomy at member
  split at member
  · exact cut _ member
  · cases member
  · exact cut _ member
  · exact cut _ member

theorem spelling_remainder (p : FilePath) (n : Nat) :
    Spelling (dropTrailingSilent ((dropComponents n p.body).dropWhile isSilent)) := by
  have shortened := dropTrailingSilent_prefix ((dropComponents n p.body).dropWhile isSilent)
  constructor
  · intro part member
    have before := (List.dropWhile_suffix isSilent).subset (shortened.subset member)
    exact slash_not_mem_body (dropComponents_subset n p.body before)
  · intro part member
    have first : part ∈ ((dropComponents n p.body).dropWhile isSilent).head? := by
      rcases shortened with ⟨rest, whole⟩
      rw [← whole, List.head?_append, Option.mem_def.mp member]
      rfl
    have named := List.head?_dropWhile_not isSilent (dropComponents n p.body)
    rw [Option.mem_def.mp first] at named
    exact named

namespace Spelling

variable {parts : List (List Char)}

theorem pieces_chars (spelling : Spelling parts) (some_part : parts ≠ []) :
    pieces (· = '/') (ofPieces parts).chars = parts := by
  rw [chars_ofPieces]
  exact pieces_glue some_part spelling.clear

theorem names_ofPieces (spelling : Spelling parts) : (ofPieces parts).names = namesAmong parts := by
  by_cases none : parts = []
  · rw [none]
    rfl
  · rw [names, spelling.pieces_chars none]

/-- A path whose first piece is a name begins with nothing else. -/
theorem anchor_ofPieces (spelling : Spelling parts) : (ofPieces parts).anchor = none := by
  by_cases none : parts = []
  · rw [none]
    rfl
  · have first := spelling.first
    rw [← spelling.pieces_chars none] at first
    rw [anchor]
    generalize (ofPieces parts).chars = cs at first
    unfold anatomy
    split
    · rw [pieces, if_pos (decide_eq_true rfl)] at first
      cases first [] rfl
    · cases first ['.'] rfl
    · cases first ['.'] rfl
    · rfl

theorem components_ofPieces (spelling : Spelling parts) :
    (ofPieces parts).components = (namesAmong parts).map .name := by
  rw [components_eq, spelling.anchor_ofPieces, spelling.names_ofPieces]
  rfl

end Spelling

/-- The path has no components but names. -/
def Bare (p : FilePath) : Prop :=
  p.components = p.names.map .name

theorem bare_remainder (p : FilePath) (n : Nat) : (p.remainder (n + 1)).Bare := by
  have spelling := spelling_remainder p (if p.anchor.isSome then n else n + 1)
  have components := spelling.components_ofPieces
  rwa [← spelling.names_ofPieces] at components

/-- What is left behind the first components has the others. -/
theorem components_remainder (p : FilePath) (n : Nat) :
    (p.remainder (n + 1)).components = p.components.drop (n + 1) := by
  rw [remainder, (spelling_remainder p _).components_ofPieces, namesAmong_dropTrailingSilent,
    namesAmong_dropWhile, namesAmong_dropComponents, namesAmong_body, components_eq]
  cases p.anchor with
  | some first => simp
  | none => simp

section

variable {p base rest : FilePath}

theorem stripPrefix?_eq_none_iff : p.stripPrefix? base = none ↔ ¬ base.components <+: p.components := by
  rw [stripPrefix?, ← List.isPrefixOf_iff_prefix]
  split
  · next begins => exact iff_of_false nofun fun outside => outside begins
  · next outside => exact iff_of_true rfl outside

/-- What is behind an absolute directory is spelled out by its names. -/
theorem eq_append_of_stripPrefix? (absolute : base.isAbsolute)
    (found : p.stripPrefix? base = some rest) :
    rest.Bare ∧ p.components = base.components ++ rest.names.map .name := by
  have counted : base.components.length = base.names.length + 1 := by
    rw [components_of_isAbsolute absolute, List.length_cons, List.length_map]
  rw [stripPrefix?] at found
  split at found
  · next begins =>
      rw [counted] at found
      cases found
      rcases List.isPrefixOf_iff_prefix.mp begins with ⟨tail, spelled⟩
      have bare := bare_remainder p base.names.length
      refine ⟨bare, ?_⟩
      rw [← bare, components_remainder, ← spelled, ← counted, List.drop_left]
  · cases found

/-- Behind the first name of a path are the others. -/
theorem Bare.eq_cons_of_uncons? (bare : p.Bare) {first : Component}
    (found : p.uncons? = some (first, rest)) :
    ∃ name, first = .name name ∧ p.names = name :: rest.names := by
  rcases Option.map_eq_some_iff.mp found with ⟨_, head, same⟩
  cases same
  have others := bare_remainder p 0
  rw [Bare, components_remainder, bare] at others
  rw [bare] at head
  cases spelled : p.names with
  | nil =>
      rw [spelled] at head
      cases head
  | cons name names =>
      rw [spelled] at head others
      refine ⟨name, (Option.some.inj head).symm, ?_⟩
      rw [← map_name_inj.mp others]

theorem Bare.uncons?_eq_none_iff (bare : p.Bare) : p.uncons? = none ↔ p.names = [] := by
  rw [uncons?, Option.map_eq_none_iff, bare, List.head?_eq_none_iff, List.map_eq_nil_iff]

end

end FilePath
end RuleAnalysis
