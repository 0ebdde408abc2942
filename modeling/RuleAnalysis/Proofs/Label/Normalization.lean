import RuleAnalysis.Label.Path
import Mathlib.Data.List.Infix

namespace RuleAnalysis

/-!
# Normalized paths

A path is judged by where it leads. Its components lead to a position: so many
directories up from the start, and from there down through names. Each position
has one straight way to it, climbs first, and that is what normalizing leaves
of a path. The position also tells whether the path has ever been above its
start: a climb that has no name to undo is kept in it for good.
-/

namespace LabelPath

open Text

/-- A component that leads down: neither `.` nor `..`. -/
def IsName (component : List Char) : Prop :=
  component ≠ ['.'] ∧ component ≠ ['.', '.']

instance (component : List Char) : Decidable (IsName component) :=
  inferInstanceAs (Decidable (_ ∧ _))

/-- Where a component leads from a stack of directories, the innermost first. From the empty stack
a climb leads nowhere. -/
def enter (stack : List (List Char)) (component : List Char) : List (List Char) :=
  if component = ['.'] then stack
  else if component = ['.', '.'] then stack.tail
  else component :: stack

def walk (stack components : List (List Char)) : List (List Char) :=
  components.foldl enter stack

/-- Nowhere on the way have there been more climbs than names, by more than the depth. -/
def StaysWithin (depth : Nat) (components : List (List Char)) : Prop :=
  ∀ front, front <+: components →
    front.count ['.', '.'] ≤ depth + front.countP fun component => decide (IsName component)

/-- Where components have led from their start: so many directories up, and from there down through
names, the innermost first. -/
structure Position where
  climbs : Nat
  names : List (List Char)

namespace Position

def start : Position := ⟨0, []⟩

def move (absolute : Bool) (position : Position) (component : List Char) : Position :=
  if component = ['.'] then position
  else if component = ['.', '.'] then
    match position.names with
    | _ :: names => { position with names := names }
    | [] => if absolute then position else { position with climbs := position.climbs + 1 }
  else { position with names := component :: position.names }

def follow (absolute : Bool) (position : Position) (components : List (List Char)) : Position :=
  components.foldl (move absolute) position

/-- The components that stand on the stack in this position. -/
def stack (position : Position) : List (List Char) :=
  position.names ++ List.replicate position.climbs ['.', '.']

/-- The straight way from the start to the position. -/
def path (position : Position) : List (List Char) :=
  List.replicate position.climbs ['.', '.'] ++ position.names.reverse

/-- The directory that the position is for whoever has started in the given one. Climbs above the
outermost directory lead nowhere. -/
def seenFrom (position : Position) (stack : List (List Char)) : List (List Char) :=
  position.names ++ stack.drop position.climbs

/-- Only names are gone down through, and nobody climbs above the root of an absolute path. -/
structure Proper (absolute : Bool) (position : Position) : Prop where
  names : ∀ name ∈ position.names, IsName name
  rooted : absolute = true → position.climbs = 0

variable {absolute : Bool} {position : Position}

theorem Proper.start : start.Proper absolute :=
  ⟨List.forall_mem_nil _, fun _ => rfl⟩

/-- All that a component does to a position. -/
inductive Step (absolute : Bool) : Position → List Char → Position → Prop
  | here (position : Position) : Step absolute position ['.'] position
  | undo (climbs : Nat) (name : List Char) (names : List (List Char)) :
      Step absolute ⟨climbs, name :: names⟩ ['.', '.'] ⟨climbs, names⟩
  | stay (climbs : Nat) : absolute = true → Step absolute ⟨climbs, []⟩ ['.', '.'] ⟨climbs, []⟩
  | climb (climbs : Nat) :
      absolute = false → Step absolute ⟨climbs, []⟩ ['.', '.'] ⟨climbs + 1, []⟩
  | down (position : Position) {name : List Char} : IsName name →
      Step absolute position name ⟨position.climbs, name :: position.names⟩

theorem move_name {name : List Char} (isName : IsName name) :
    position.move absolute name = ⟨position.climbs, name :: position.names⟩ := by
  rw [move, if_neg isName.1, if_neg isName.2]

theorem move_step (absolute : Bool) (position : Position) (component : List Char) :
    Step absolute position component (position.move absolute component) := by
  by_cases stays : component = ['.']
  · subst stays
    exact .here position
  · by_cases climbs : component = ['.', '.']
    · subst climbs
      obtain ⟨climbs, names⟩ := position
      cases names with
      | nil =>
          cases absolute with
          | false => exact .climb climbs rfl
          | true => exact .stay climbs rfl
      | cons name names => exact .undo climbs name names
    · rw [move_name ⟨stays, climbs⟩]
      exact .down position ⟨stays, climbs⟩

theorem Proper.move (proper : position.Proper absolute) (component : List Char) :
    (position.move absolute component).Proper absolute := by
  have step := move_step absolute position component
  generalize position.move absolute component = next at step ⊢
  cases step with
  | here => exact proper
  | undo => exact ⟨(List.forall_mem_cons.mp proper.names).2, proper.rooted⟩
  | stay => exact proper
  | climb _ relative => exact ⟨proper.names, fun rooted => nomatch relative.symm.trans rooted⟩
  | down _ isName => exact ⟨List.forall_mem_cons.mpr ⟨isName, proper.names⟩, proper.rooted⟩

theorem Proper.follow (proper : position.Proper absolute) (components : List (List Char)) :
    (position.follow absolute components).Proper absolute := by
  induction components generalizing position with
  | nil => exact proper
  | cons component rest ih => exact ih (proper.move component)

/-- The names have been there from the start or are among the components. -/
theorem mem_names_follow {name : List Char} (components : List (List Char))
    (member : name ∈ (position.follow absolute components).names) :
    name ∈ position.names ∨ name ∈ components := by
  induction components generalizing position with
  | nil => exact .inl member
  | cons component rest ih =>
      rcases ih member with moved | later
      · have step := move_step absolute position component
        generalize position.move absolute component = next at step moved
        cases step with
        | here => exact .inl moved
        | undo => exact .inl (List.mem_cons_of_mem _ moved)
        | stay => exact .inl moved
        | climb => exact .inl moved
        | down _ isName =>
            rcases List.mem_cons.mp moved with rfl | earlier
            · exact .inr List.mem_cons_self
            · exact .inl earlier
      · exact .inr (List.mem_cons_of_mem _ later)

/-! ## The stack holds the position -/

theorem collapseStep_stack (proper : position.Proper absolute) (component : List Char) :
    collapseStep absolute position.stack component = (position.move absolute component).stack := by
  have step := move_step absolute position component
  generalize position.move absolute component = next at step ⊢
  cases step with
  | here => rfl
  | undo climbs name names =>
      -- The top of the stack is a name, not a climb that has been kept.
      have isName := (List.forall_mem_cons.mp proper.names).1
      exact if_neg isName.2
  | stay climbs rooted =>
      -- The stack is empty: no climb is kept beneath the root.
      have level : climbs = 0 := proper.rooted rooted
      subst rooted level
      rfl
  | climb climbs relative =>
      subst relative
      cases climbs <;> rfl
  | down _ isName =>
      unfold collapseStep
      rw [if_neg isName.1, if_neg isName.2]
      rfl

theorem foldl_collapseStep (proper : position.Proper absolute) (components : List (List Char)) :
    components.foldl (collapseStep absolute) position.stack =
      (position.follow absolute components).stack := by
  induction components generalizing position with
  | nil => rfl
  | cons component rest ih =>
      rw [List.foldl_cons, collapseStep_stack proper, ih (proper.move component)]
      rfl

/-- Collapsing components yields the straight way to where they lead. -/
theorem collapse_eq_path (absolute : Bool) (components : List (List Char)) :
    collapse absolute components = (start.follow absolute components).path := by
  have collapsed := foldl_collapseStep (Proper.start : start.Proper absolute) components
  rw [collapse]
  change (components.foldl (collapseStep absolute) start.stack).reverse = _
  rw [collapsed, stack, List.reverse_append, List.reverse_replicate, path]

/-! ## The straight way -/

theorem follow_names (names : List (List Char)) (each : ∀ name ∈ names, IsName name) :
    position.follow absolute names = ⟨position.climbs, names.reverse ++ position.names⟩ := by
  induction names generalizing position with
  | nil => rfl
  | cons name names ih =>
      rcases List.forall_mem_cons.mp each with ⟨isName, others⟩
      rw [follow, List.foldl_cons, move_name isName]
      change Position.follow absolute _ names = _
      rw [ih others, List.reverse_cons, List.append_assoc, List.singleton_append]

theorem follow_climbs (more climbs : Nat) :
    follow false ⟨climbs, []⟩ (List.replicate more ['.', '.']) = ⟨climbs + more, []⟩ := by
  induction more generalizing climbs with
  | zero => rfl
  | succ more ih =>
      rw [List.replicate_succ]
      change follow false ⟨climbs + 1, []⟩ _ = _
      rw [ih, Nat.add_right_comm, Nat.add_assoc]

/-- The straight way leads to the position. -/
theorem follow_path (proper : position.Proper absolute) :
    start.follow absolute position.path = position := by
  have climbed : start.follow absolute (List.replicate position.climbs ['.', '.']) =
      ⟨position.climbs, []⟩ := by
    cases absolute with
    | false => rw [start, follow_climbs, Nat.zero_add]
    | true =>
        rw [proper.rooted rfl]
        rfl
  have named : ∀ name ∈ position.names.reverse, IsName name := by
    intro name member
    exact proper.names name (List.mem_reverse.mp member)
  calc start.follow absolute position.path
      = (start.follow absolute (List.replicate position.climbs ['.', '.'])).follow absolute
          position.names.reverse := List.foldl_append
    _ = position := by rw [climbed, follow_names _ named, List.reverse_reverse, List.append_nil]

/-! ## Walking -/

/-- A step from where the position is seen leads to where the next one is. Only who starts at the
root may go by an absolute path. -/
theorem enter_seenFrom (stack : List (List Char)) (begins : absolute = true → stack = [])
    (component : List Char) :
    enter (position.seenFrom stack) component = (position.move absolute component).seenFrom stack := by
  have step := move_step absolute position component
  generalize position.move absolute component = next at step ⊢
  cases step with
  | here => rfl
  | undo => rfl
  | stay climbs rooted =>
      rw [begins rooted]
      simp [enter, seenFrom]
  | climb => exact List.tail_drop
  | down _ isName =>
      rw [enter, if_neg isName.1, if_neg isName.2]
      rfl

theorem walk_seenFrom (stack : List (List Char)) (begins : absolute = true → stack = [])
    (components : List (List Char)) :
    walk (position.seenFrom stack) components =
      (position.follow absolute components).seenFrom stack := by
  induction components generalizing position with
  | nil => rfl
  | cons component rest ih =>
      rw [walk, List.foldl_cons, enter_seenFrom stack begins]
      exact ih

/-! ## How far up -/

theorem climbs_le_follow (position : Position) (components : List (List Char)) :
    position.climbs ≤ (position.follow absolute components).climbs := by
  induction components generalizing position with
  | nil => exact Nat.le_refl _
  | cons component rest ih =>
      have stepped : position.climbs ≤ (position.move absolute component).climbs := by
        have step := move_step absolute position component
        generalize position.move absolute component = next at step ⊢
        cases step with
        | climb climbs _ => exact Nat.le_succ climbs
        | _ => exact Nat.le_refl _
      exact Nat.le_trans stepped (ih _)

end Position

theorem forall_prefix_cons {α : Type} {holds : List α → Prop} {a : α} {as : List α} :
    (∀ front, front <+: a :: as → holds front) ↔
      holds [] ∧ ∀ front, front <+: as → holds (a :: front) := by
  constructor
  · intro each
    refine ⟨each [] List.nil_prefix, fun front begins => ?_⟩
    exact each (a :: front) (List.cons_prefix_cons.mpr ⟨rfl, begins⟩)
  · rintro ⟨none, each⟩ front begins
    rcases List.prefix_cons_iff.mp begins with rfl | ⟨rest, rfl, shorter⟩
    · exact none
    · exact each rest shorter

section

variable {depth : Nat} {rest : List (List Char)}

theorem staysWithin_here : StaysWithin depth (['.'] :: rest) ↔ StaysWithin depth rest := by
  have unmoved : ¬ IsName ['.'] := by decide
  rw [StaysWithin, forall_prefix_cons]
  simp [StaysWithin, unmoved]

theorem not_staysWithin_zero_climb : ¬ StaysWithin 0 (['.', '.'] :: rest) := by
  intro stays
  exact absurd (stays [['.', '.']] (List.cons_prefix_cons.mpr ⟨rfl, List.nil_prefix⟩)) (by decide)

theorem staysWithin_climb :
    StaysWithin (depth + 1) (['.', '.'] :: rest) ↔ StaysWithin depth rest := by
  have up : ¬ IsName ['.', '.'] := by decide
  have level (climbs names : Nat) : climbs + 1 ≤ depth + 1 + names ↔ climbs ≤ depth + names := by
    rw [Nat.add_right_comm, Nat.add_le_add_iff_right]
  rw [StaysWithin, forall_prefix_cons]
  simp [StaysWithin, up, level]

theorem staysWithin_name {name : List Char} (isName : IsName name) :
    StaysWithin depth (name :: rest) ↔ StaysWithin (depth + 1) rest := by
  rw [StaysWithin, forall_prefix_cons]
  simp [StaysWithin, isName, List.count_cons_of_ne isName.2, Nat.add_assoc, Nat.add_comm 1]

/-- A relative path has led no further up than the depth exactly if it stays within the depth and
the names that it could undo. -/
theorem Position.climbs_follow_le_iff (position : Position) (depth : Nat)
    (components : List (List Char)) :
    (position.follow false components).climbs ≤ position.climbs + depth ↔
      StaysWithin (depth + position.names.length) components := by
  induction components generalizing position depth with
  | nil =>
      refine iff_of_true (Nat.le_add_right ..) fun front begins => ?_
      rw [List.prefix_nil.mp begins]
      exact Nat.zero_le _
  | cons component rest ih =>
      change ((position.move false component).follow false rest).climbs ≤ _ ↔ _
      have step := move_step false position component
      generalize position.move false component = next at step ⊢
      cases step with
      | here => rw [ih, staysWithin_here]
      | undo climbs _ names =>
          rw [ih ⟨climbs, names⟩ depth]
          exact staysWithin_climb.symm
      | stay _ impossible => cases impossible
      | climb climbs _ =>
          cases depth with
          | zero =>
              -- The path leads out here, and no later name takes that back.
              have further : climbs + 1 ≤ (Position.follow false ⟨climbs + 1, []⟩ rest).climbs :=
                Position.climbs_le_follow ⟨climbs + 1, []⟩ rest
              refine iff_of_false ?_ not_staysWithin_zero_climb
              exact Nat.not_le_of_lt further
          | succ depth =>
              have onward := ih ⟨climbs + 1, []⟩ depth
              rw [Nat.add_right_comm, Nat.add_assoc] at onward
              exact onward.trans staysWithin_climb.symm
      | down _ isName =>
          rw [ih, staysWithin_name isName]
          rfl

end

/-! ## Texts and their components -/

theorem components_clear {p : LabelPath} {component : List Char} (member : component ∈ p.components) :
    component ≠ [] ∧ '/' ∉ component := by
  rcases List.mem_filter.mp member with ⟨piece, filled⟩
  constructor
  · rintro rfl
    exact absurd filled (by decide)
  · intro inside
    exact of_decide_eq_false (not_mem_of_mem_pieces piece '/' inside) rfl

section

variable {parts : List (List Char)}

theorem chars_ofComponents (absolute : Bool) (parts : List (List Char)) :
    (ofComponents absolute parts).chars =
      if absolute then '/' :: glue '/' parts else glue '/' parts :=
  String.toList_ofList

/-- The non-empty pieces of glued components are the components. -/
theorem filter_pieces_glue (each : ∀ part ∈ parts, part ≠ [] ∧ '/' ∉ part) :
    ((pieces (· = '/') (glue '/' parts)).filter fun piece => !piece.isEmpty) = parts := by
  cases parts with
  | nil => rfl
  | cons part rest =>
      rw [pieces_glue (List.cons_ne_nil _ _) fun part member => (each part member).2]
      apply List.filter_eq_self.mpr
      intro part member
      cases part with
      | nil => exact absurd rfl (each [] member).1
      | cons c cs => rfl

theorem components_ofComponents (absolute : Bool)
    (each : ∀ part ∈ parts, part ≠ [] ∧ '/' ∉ part) :
    (ofComponents absolute parts).components = parts := by
  rw [components, chars_ofComponents]
  cases absolute with
  | false => exact filter_pieces_glue each
  | true =>
      have rooted : pieces (· = '/') ('/' :: glue '/' parts) =
          [] :: pieces (· = '/') (glue '/' parts) := if_pos (decide_eq_true rfl)
      rw [if_pos rfl, rooted]
      exact filter_pieces_glue each

theorem isAbsolute_ofComponents (absolute : Bool)
    (each : ∀ part ∈ parts, part ≠ [] ∧ '/' ∉ part) :
    (ofComponents absolute parts).isAbsolute = absolute := by
  rw [isAbsolute, chars_ofComponents]
  cases absolute with
  | true => rfl
  | false =>
      refine decide_eq_false ?_
      cases parts with
      | nil => simp [glue]
      | cons part rest =>
          rcases each part List.mem_cons_self with ⟨filled, clear⟩
          cases part with
          | nil => exact absurd rfl filled
          | cons c cs =>
              have first : (glue '/' ((c :: cs) :: rest)).head? = some c := by
                cases rest <;> rfl
              intro slash
              have same : c = '/' := Option.some.inj (first.symm.trans slash)
              exact clear (same ▸ List.mem_cons_self)

end

/-! ## The normalized path -/

section

variable (p : LabelPath)

/-- Where the path leads. -/
def destination : Position :=
  Position.start.follow p.isAbsolute p.components

theorem destination_proper : p.destination.Proper p.isAbsolute :=
  Position.Proper.start.follow p.components

/-- Moving on adds no component that has not been there. -/
theorem destination_path_clear {component : List Char}
    (member : component ∈ p.destination.path) : component ≠ [] ∧ '/' ∉ component := by
  rcases List.mem_append.mp member with climb | name
  · rw [List.eq_of_mem_replicate climb]
    decide
  · rcases Position.mem_names_follow _ (List.mem_reverse.mp name) with none | among
    · exact absurd none List.not_mem_nil
    · exact components_clear among

theorem normalize_eq : p.normalize = ofComponents p.isAbsolute p.destination.path := by
  rw [normalize, Position.collapse_eq_path, destination]

theorem components_normalize : p.normalize.components = p.destination.path := by
  rw [normalize_eq]
  exact components_ofComponents p.isAbsolute fun _ => p.destination_path_clear

theorem isAbsolute_normalize : p.normalize.isAbsolute = p.isAbsolute := by
  rw [normalize_eq]
  exact isAbsolute_ofComponents p.isAbsolute fun _ => p.destination_path_clear

theorem destination_normalize : p.normalize.destination = p.destination := by
  rw [destination, isAbsolute_normalize, components_normalize]
  exact Position.follow_path p.destination_proper

theorem normalize_normalize : p.normalize.normalize = p.normalize := by
  rw [normalize_eq p.normalize, isAbsolute_normalize, destination_normalize, ← normalize_eq]

theorem walk_components (stack : List (List Char)) (begins : p.isAbsolute = true → stack = []) :
    walk stack p.components = p.destination.seenFrom stack := by
  have started : Position.start.seenFrom stack = stack := rfl
  have walked : walk (Position.start.seenFrom stack) p.components = p.destination.seenFrom stack :=
    Position.walk_seenFrom stack begins p.components
  rwa [started] at walked

/-- The normalized path leads where the path leads. -/
theorem walk_normalize (stack : List (List Char)) (begins : p.isAbsolute = true → stack = []) :
    walk stack p.normalize.components = walk stack p.components := by
  have likewise : p.normalize.isAbsolute = true → stack = [] := by
    rwa [isAbsolute_normalize]
  rw [walk_components p.normalize stack likewise, destination_normalize,
    walk_components p stack begins]

theorem destination_climbs_le_iff (relative : p.isAbsolute = false) (depth : Nat) :
    p.destination.climbs ≤ depth ↔ StaysWithin depth p.components := by
  have counted := Position.start.climbs_follow_le_iff depth p.components
  rwa [← relative, Position.start, Nat.zero_add] at counted

theorem climb_mem_normalize_iff :
    ['.', '.'] ∈ p.normalize.components ↔ p.destination.climbs ≠ 0 := by
  have unnamed : ['.', '.'] ∉ p.destination.names := by
    intro member
    exact (p.destination_proper.names _ member).2 rfl
  rw [components_normalize, Position.path, List.mem_append, List.mem_replicate, List.mem_reverse]
  simp [unnamed]

/-- A path is accepted as descending if it never climbs out of its start. It is rejected even if
it comes back. -/
theorem normalizeDescending_eq_ok_iff (q : LabelPath) :
    p.normalizeDescending = .ok q ↔
      q = p.normalize ∧ p.isAbsolute = false ∧ StaysWithin 0 p.components := by
  cases rooted : p.isAbsolute with
  | true => simp [normalizeDescending, rooted]
  | false =>
      have inside := destination_climbs_le_iff p rooted 0
      rw [Nat.le_zero] at inside
      by_cases climbs : p.destination.climbs = 0
      · have clear : ['.', '.'] ∉ p.normalize.components :=
          fun climb => p.climb_mem_normalize_iff.mp climb climbs
        have stays : StaysWithin 0 p.components := inside.mp climbs
        simp [normalizeDescending, rooted, clear, stays, eq_comm]
      · have climbing : ['.', '.'] ∈ p.normalize.components :=
          p.climb_mem_normalize_iff.mpr climbs
        have leaves : ¬ StaysWithin 0 p.components := mt inside.mpr climbs
        simp [normalizeDescending, rooted, climbing, leaves]

end

/-- Normalizing keeps what a path means and nothing that could be left out. A path has one
spelling then, which has no empty component, no `.`, and no `..` behind a name or in an absolute
path. It is as absolute as before and leads to the same directory. It is accepted as one that stays
beneath its root if it is relative and does so at each of its components, not only at its end. -/
theorem normalize_lexical (p : LabelPath) :
    (p.normalize = ofComponents p.isAbsolute p.normalize.components ∧
      ∃ climbs names, p.normalize.components = List.replicate climbs ['.', '.'] ++ names ∧
        (p.isAbsolute = true → climbs = 0) ∧
        ∀ name ∈ names, name ≠ [] ∧ name ≠ ['.'] ∧ name ≠ ['.', '.']) ∧
    p.normalize.isAbsolute = p.isAbsolute ∧
    p.normalize.normalize = p.normalize ∧
    (∀ stack, (p.isAbsolute = true → stack = []) →
      walk stack p.normalize.components = walk stack p.components) ∧
    ∀ q, p.normalizeDescending = .ok q ↔
      q = p.normalize ∧ p.isAbsolute = false ∧
        ∀ front, front <+: p.components →
          front.count ['.', '.'] ≤ front.countP fun component =>
            component ≠ ['.'] ∧ component ≠ ['.', '.'] := by
  refine ⟨⟨?_, p.destination.climbs, p.destination.names.reverse, ?_, ?_, ?_⟩, ?_, ?_, ?_, ?_⟩
  · rw [components_normalize]
    exact normalize_eq p
  · exact components_normalize p
  · exact p.destination_proper.rooted
  · intro name member
    have filled : name ≠ [] :=
      (p.destination_path_clear (List.mem_append_right _ member)).1
    exact ⟨filled, p.destination_proper.names name (List.mem_reverse.mp member)⟩
  · exact isAbsolute_normalize p
  · exact normalize_normalize p
  · exact walk_normalize p
  · intro q
    have accepted := normalizeDescending_eq_ok_iff p q
    simp only [StaysWithin, Nat.zero_add] at accepted
    exact accepted

-- A path that climbs out and comes back is rejected.
example : normalizeDescending ⟨"a/../../a/b"⟩ = .error (.escapesRoot "a/../../a/b") := by
  decide +kernel

end LabelPath
end RuleAnalysis
