import RuleAnalysis.Proofs.Label.Normalization
import RuleAnalysis.Proofs.Workspace.Components

namespace RuleAnalysis
namespace FilePath

/-!
# Where file paths lead

A file path is normalized like a label path, by its text alone: a `.` is
dropped, and a `..` takes the name in front of it away. What a path has behind
a directory leads so many directories up from there and then down through
names. The normalized path is in the directory again exactly if these names
begin with the directories that have been left; a path that never climbs out
stays there in any case.
-/

open Text LabelPath

/-- The path without `.` and with every `..` applied, at the root to nothing. -/
def normalize (p : FilePath) : FilePath :=
  ⟨(LabelPath.mk p.text).normalize.text⟩

/-- The path is the directory or leads on from it, component by component. -/
def Within (p base : FilePath) : Prop :=
  base.components <+: p.components

instance (p base : FilePath) : Decidable (p.Within base) :=
  inferInstanceAs (Decidable (_ <+: _))

/-- The path leads on from the directory. -/
def Beneath (p base : FilePath) : Prop :=
  p.Within base ∧ p.components ≠ base.components

instance (p base : FilePath) : Decidable (p.Beneath base) :=
  inferInstanceAs (Decidable (_ ∧ _))

/-- An absolute path that normalizing leaves as it is. -/
structure Settled (p : FilePath) : Prop where
  absolute : p.isAbsolute
  normal : p.normalize.components = p.components

variable {p base : FilePath}

theorem within_iff (absolute : p.isAbsolute) (alike : base.isAbsolute) :
    p.Within base ↔ base.names <+: p.names :=
  components_prefix_iff alike absolute

theorem beneath_iff (absolute : p.isAbsolute) (alike : base.isAbsolute) :
    p.Beneath base ↔ base.names <+: p.names ∧ p.names ≠ base.names := by
  rw [Beneath, within_iff absolute alike, Ne, components_eq_iff absolute alike]

/-! ## Walking by names -/

/-- A `.` leads nowhere. -/
theorem walk_filter (stack components : List (List Char)) :
    walk stack (components.filter fun component => component ≠ ['.']) = walk stack components := by
  induction components generalizing stack with
  | nil => rfl
  | cons component rest ih =>
      by_cases here : component = ['.']
      · rw [List.filter_cons_of_neg (by simp [here]), ih, walk, walk, List.foldl_cons, enter,
          if_pos here]
      · rw [List.filter_cons_of_pos (by simp [here]), walk, walk, List.foldl_cons, List.foldl_cons]
        exact ih _

theorem walk_append (stack xs ys : List (List Char)) :
    walk stack (xs ++ ys) = walk (walk stack xs) ys :=
  List.foldl_append

theorem walk_names {names : List (List Char)} (each : ∀ name ∈ names, IsName name)
    (stack : List (List Char)) : walk stack names = names.reverse ++ stack := by
  induction names generalizing stack with
  | nil => rfl
  | cons name names ih =>
      rcases List.forall_mem_cons.mp each with ⟨isName, others⟩
      have down : enter stack name = name :: stack := by
        rw [enter, if_neg isName.1, if_neg isName.2]
      rw [walk, List.foldl_cons, down, ← walk, ih others, List.reverse_cons, List.append_assoc,
        List.singleton_append]

/-! ## The normalized path -/

theorem isAbsolute_mk (p : FilePath) : (LabelPath.mk p.text).isAbsolute = p.isAbsolute := by
  rw [Bool.eq_iff_iff, isAbsolute_iff]
  exact decide_eq_true_iff

/-- The names are the components of the text as a label path, but for the dots. -/
theorem names_eq_filter (p : FilePath) :
    p.names = (LabelPath.mk p.text).components.filter fun component => component ≠ ['.'] := by
  rw [names, namesAmong, LabelPath.components, List.filter_filter]
  refine List.filter_congr fun piece _ => ?_
  simp [isSilent, Bool.and_comm]

theorem walk_names_eq (p : FilePath) (stack : List (List Char)) :
    walk stack p.names = walk stack (LabelPath.mk p.text).components := by
  rw [names_eq_filter, walk_filter]

theorem isAbsolute_normalize (p : FilePath) : p.normalize.isAbsolute = p.isAbsolute := by
  rw [← isAbsolute_mk, ← isAbsolute_mk, normalize]
  exact LabelPath.isAbsolute_normalize ⟨p.text⟩

/-- The normalized path spells the directories that the names lead to from the root. -/
theorem names_normalize (absolute : p.isAbsolute) :
    p.normalize.names = (walk [] p.names).reverse := by
  have rooted : (LabelPath.mk p.text).isAbsolute = true := (isAbsolute_mk p).trans absolute
  have proper := (LabelPath.mk p.text).destination_proper
  have straight : (LabelPath.mk p.text).destination.path =
      (LabelPath.mk p.text).destination.names.reverse := by
    rw [Position.path, proper.rooted rooted]
    rfl
  have named : ∀ name ∈ (LabelPath.mk p.text).destination.names.reverse, name ≠ ['.'] :=
    fun name member => (proper.names name (List.mem_reverse.mp member)).1
  have walked : walk [] p.names = (LabelPath.mk p.text).destination.names := by
    rw [walk_names_eq, walk_components _ [] fun _ => rfl, Position.seenFrom, List.drop_nil,
      List.append_nil]
  rw [names_eq_filter, normalize, components_normalize, straight, walked]
  exact List.filter_eq_self.mpr fun name member => decide_eq_true (named name member)

/-- Nothing that could be resolved is left. -/
theorem isName_of_mem_normalize (absolute : p.isAbsolute) {name : List Char}
    (member : name ∈ p.normalize.names) : IsName name := by
  rw [names_normalize absolute, List.mem_reverse, walk_names_eq, walk_components _ [] fun _ => rfl,
    Position.seenFrom, List.drop_nil, List.append_nil] at member
  exact (LabelPath.mk p.text).destination_proper.names name member

theorem Settled.isName (settled : p.Settled) {name : List Char} (member : name ∈ p.names) :
    IsName name := by
  have alike : p.normalize.isAbsolute := (isAbsolute_normalize p).trans settled.absolute
  rw [← (components_eq_iff alike settled.absolute).mp settled.normal] at member
  exact isName_of_mem_normalize settled.absolute member

/-! ## Behind a directory -/

/-- Where names lead from a directory: so many directories up, and from there down. -/
def way (names : List (List Char)) : Position :=
  Position.start.follow false names

theorem way_climbs_eq_zero_iff (names : List (List Char)) :
    (way names).climbs = 0 ↔ StaysWithin 0 names := by
  have counted := Position.start.climbs_follow_le_iff 0 names
  rwa [Position.start, Nat.add_zero, Nat.le_zero] at counted

/-- The names lead down through all directories that they have climbed out of, whose names stand in
front. -/
def Returns (front names : List (List Char)) : Prop :=
  front.drop (front.length - (way names).climbs) <+: (way names).names.reverse

instance (front names : List (List Char)) : Decidable (Returns front names) :=
  inferInstanceAs (Decidable (_ <+: _))

section

variable {front rest : List (List Char)}

/-- Whoever does not leave need not return. -/
theorem returns_of_staysWithin (stays : StaysWithin 0 rest) : Returns front rest := by
  rw [Returns, (way_climbs_eq_zero_iff rest).mpr stays, Nat.sub_zero, List.drop_length]
  exact List.nil_prefix

/-- Of the directories in front those that are climbed out of are lost, the innermost first. -/
theorem names_normalize_behind (absolute : p.isAbsolute) (each : ∀ name ∈ front, IsName name)
    (behind : p.names = front ++ rest) :
    p.normalize.names =
      front.take (front.length - (way rest).climbs) ++ (way rest).names.reverse := by
  have relative : false = true → front.reverse = [] := nofun
  have walked : walk (Position.start.seenFrom front.reverse) rest =
      (way rest).seenFrom front.reverse := Position.walk_seenFrom front.reverse relative rest
  have started : Position.start.seenFrom front.reverse = front.reverse := rfl
  rw [started] at walked
  rw [names_normalize absolute, behind, walk_append, walk_names each, List.append_nil, walked,
    Position.seenFrom, List.reverse_append, List.drop_reverse, List.reverse_reverse]

/-- A path leads into a directory again exactly if it returns there. -/
theorem prefix_normalize_iff (absolute : p.isAbsolute) (each : ∀ name ∈ front, IsName name)
    (behind : p.names = front ++ rest) : front <+: p.normalize.names ↔ Returns front rest := by
  rw [names_normalize_behind absolute each behind, Returns]
  generalize front.length - (way rest).climbs = kept
  have parted : front.take kept ++ front.drop kept <+: front.take kept ++ (way rest).names.reverse ↔
      front.drop kept <+: (way rest).names.reverse := List.prefix_append_right_inj _
  rwa [List.take_append_drop] at parted

end

end FilePath
end RuleAnalysis
