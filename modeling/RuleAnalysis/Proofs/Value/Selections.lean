import RuleAnalysis.Config.Resolution
import RuleAnalysis.Proofs.Value.Parts

namespace RuleAnalysis
namespace Value

/-!
# What a configuration picks

Under a configuration a value comes to one in which every selection has given
way to a branch. This is said here without the function that does it: one rule
for a selection, rules that go through lists and maps, and one for the values
that the configuration does not reach. The function that resolves selections
yields the only value that the rules allow. What stands in other branches makes
no difference to it.
-/

/-- Neither a selection nor a list or map, in which one could stand. -/
def Leaf : Value → Prop
  | selection _ | list _ | map _ => False
  | _ => True

/-- The second value is the first with each selection replaced by the branch that the configuration
picks, in which selections have been replaced as well. -/
inductive Picks (c : BuildConfig) : Value → Value → Prop
  | selection {s : Selection} {v : Value} : Picks c (s.resolve c) v → Picks c (selection s) v
  | nil : Picks c (list []) (list [])
  | cons {item v : Value} {items vs : List Value} :
      Picks c item v → Picks c (list items) (list vs) →
      Picks c (list (item :: items)) (list (v :: vs))
  | noEntries : Picks c (map []) (map [])
  | entry (key : String) {value v : Value} {entries vs : List (String × Value)} :
      Picks c value v → Picks c (map entries) (map vs) →
      Picks c (map ((key, value) :: entries)) (map ((key, v) :: vs))
  | leaf {v : Value} : v.Leaf → Picks c v v

theorem Leaf.resolveSelections {v : Value} (leaf : v.Leaf) (c : BuildConfig) :
    v.resolveSelections c = v := by
  cases v with
  | selection _ | list _ | map _ => exact leaf.elim
  | _ => rw [Value.resolveSelections] <;> simp

theorem Leaf.isUnresolved {v : Value} (leaf : v.Leaf) : v.isUnresolved = false := by
  cases v with
  | selection _ | list _ | map _ => exact leaf.elim
  | _ => rw [Value.isUnresolved] <;> simp

/-- A list depends on the configuration exactly when an item does. -/
theorem isUnresolved_list_eq_false_iff {items : List Value} :
    (list items).isUnresolved = false ↔ ∀ item ∈ items, item.isUnresolved = false := by
  rw [isUnresolved]
  induction items with
  | nil => simp [anyUnresolved]
  | cons item rest ih => rw [anyUnresolved, Bool.or_eq_false_iff, ih, List.forall_mem_cons]

theorem isUnresolved_map_eq_false_iff {entries : List (String × Value)} :
    (map entries).isUnresolved = false ↔ ∀ entry ∈ entries, entry.2.isUnresolved = false := by
  rw [isUnresolved]
  induction entries with
  | nil => simp [anyEntryUnresolved]
  | cons head rest ih => rw [anyEntryUnresolved, Bool.or_eq_false_iff, ih, List.forall_mem_cons]

/-- The branch that a selection comes to is one of its parts. -/
theorem resolve_mem_parts (s : Selection) (c : BuildConfig) :
    s.resolve c ∈ (selection s).parts := by
  rw [Selection.resolve, parts]
  cases found : s.mapping.find? fun branch => c.isSelected branch.1 with
  | none => exact List.mem_cons_self
  | some branch =>
      exact List.mem_cons_of_mem _ (List.mem_map_of_mem (List.mem_of_find?_eq_some found))

/-- Resolving the selections of a value follows the rules. -/
theorem picks_resolveSelections (c : BuildConfig) (v : Value) :
    Picks c v (v.resolveSelections c) := by
  induction v using induction_on_parts with
  | step v ih =>
      cases v with
      | selection s =>
          rw [resolveSelections_selection]
          exact .selection (ih _ (resolve_mem_parts s c))
      | list items =>
          rw [resolveSelections]
          induction items with
          | nil => rw [resolveItems]; exact .nil
          | cons item rest restIH =>
              rw [resolveItems]
              exact .cons (ih item List.mem_cons_self)
                (restIH fun part member => ih part (List.mem_cons_of_mem _ member))
      | map entries =>
          rw [resolveSelections]
          induction entries with
          | nil => rw [resolveEntries]; exact .noEntries
          | cons head rest restIH =>
              obtain ⟨key, value⟩ := head
              rw [resolveEntries]
              exact .entry key (ih value List.mem_cons_self)
                (restIH fun part member => ih part (List.mem_cons_of_mem _ member))
      | _ => exact .leaf trivial

namespace Picks

variable {c : BuildConfig} {s v : Value}

theorem resolveSelections_eq (picks : Picks c s v) : s.resolveSelections c = v := by
  induction picks with
  | selection _ ih => rw [resolveSelections_selection, ih]
  | nil => rw [resolveSelections, resolveItems]
  | cons _ _ first rest =>
      rw [resolveSelections, list.injEq] at rest
      rw [resolveSelections, resolveItems, first, rest]
  | noEntries => rw [resolveSelections, resolveEntries]
  | entry key _ _ first rest =>
      rw [resolveSelections, map.injEq] at rest
      rw [resolveSelections, resolveEntries, first, rest]
  | leaf leaf => exact leaf.resolveSelections c

/-- Nothing in what has been picked depends on the configuration any more. -/
theorem isUnresolved_eq_false (picks : Picks c s v) : v.isUnresolved = false := by
  induction picks with
  | selection _ ih => exact ih
  | nil => exact isUnresolved_list_eq_false_iff.mpr (List.forall_mem_nil _)
  | cons _ _ first rest =>
      rw [isUnresolved_list_eq_false_iff] at rest ⊢
      exact List.forall_mem_cons.mpr ⟨first, rest⟩
  | noEntries => exact isUnresolved_map_eq_false_iff.mpr (List.forall_mem_nil _)
  | entry key _ _ first rest =>
      rw [isUnresolved_map_eq_false_iff] at rest ⊢
      exact List.forall_mem_cons.mpr ⟨first, rest⟩
  | leaf leaf => exact leaf.isUnresolved

end Picks

/-- A value that does not depend on the configuration stays as it is. -/
theorem picks_self {c : BuildConfig} {v : Value} (resolved : v.isUnresolved = false) :
    Picks c v v := by
  induction v using induction_on_parts with
  | step v ih =>
      cases v with
      | selection s => rw [isUnresolved] at resolved; cases resolved
      | list items =>
          rw [isUnresolved_list_eq_false_iff] at resolved
          induction items with
          | nil => exact .nil
          | cons item rest restIH =>
              rw [List.forall_mem_cons] at resolved
              exact .cons (ih item List.mem_cons_self resolved.1)
                (restIH (fun part member => ih part (List.mem_cons_of_mem _ member)) resolved.2)
      | map entries =>
          rw [isUnresolved_map_eq_false_iff] at resolved
          induction entries with
          | nil => exact .noEntries
          | cons head rest restIH =>
              obtain ⟨key, value⟩ := head
              rw [List.forall_mem_cons] at resolved
              exact .entry key (ih value List.mem_cons_self resolved.1)
                (restIH (fun part member => ih part (List.mem_cons_of_mem _ member)) resolved.2)
      | _ => exact .leaf trivial

theorem resolveSelections_of_resolved {c : BuildConfig} {v : Value}
    (resolved : v.isUnresolved = false) : v.resolveSelections c = v :=
  (picks_self resolved).resolveSelections_eq

/-! ## Lists and maps -/

theorem resolveSelections_list (c : BuildConfig) (items : List Value) :
    (list items).resolveSelections c = list (items.map (·.resolveSelections c)) := by
  rw [resolveSelections]
  induction items with
  | nil => rw [resolveItems, List.map_nil]
  | cons item rest ih =>
      rw [list.injEq] at ih
      rw [resolveItems, ih, List.map_cons]

theorem resolveSelections_map (c : BuildConfig) (entries : List (String × Value)) :
    (map entries).resolveSelections c =
      map (entries.map fun entry => (entry.1, entry.2.resolveSelections c)) := by
  rw [resolveSelections]
  induction entries with
  | nil => rw [resolveEntries, List.map_nil]
  | cons head rest ih =>
      rw [map.injEq] at ih
      rw [resolveEntries, ih, List.map_cons]

/-- One step of resolving, where the rest is left to another function. A list or map in which nothing
depends on the configuration is passed over as a whole. -/
def resolveOnce (c : BuildConfig) (resolve : Value → Value) (v : Value) : Value :=
  match v with
  | selection s => resolve (s.resolve c)
  | list items => if v.isUnresolved then list (items.map resolve) else v
  | map entries =>
      if v.isUnresolved then map (entries.map fun entry => (entry.1, resolve entry.2)) else v
  | v => v

theorem resolveSelections_eq_resolveOnce (c : BuildConfig) (v : Value) :
    v.resolveSelections c = resolveOnce c (·.resolveSelections c) v := by
  cases v with
  | selection s => exact resolveSelections_selection c s
  | list items =>
      rw [resolveOnce]
      split
      · exact resolveSelections_list c items
      · next resolved => exact resolveSelections_of_resolved (Bool.eq_false_iff.mpr resolved)
  | map entries =>
      rw [resolveOnce]
      split
      · exact resolveSelections_map c entries
      · next resolved => exact resolveSelections_of_resolved (Bool.eq_false_iff.mpr resolved)
  | _ => rw [Value.resolveSelections] <;> simp [resolveOnce]

/-- A step looks only at what the parts of the value come to. -/
theorem resolveOnce_congr {c : BuildConfig} {f g : Value → Value} {v : Value}
    (same : ∀ part ∈ v.parts, f part = g part) : resolveOnce c f v = resolveOnce c g v := by
  cases v with
  | selection s => exact same _ (resolve_mem_parts s c)
  | list items =>
      have each : ∀ item ∈ items, f item = g item := same
      rw [resolveOnce, resolveOnce, List.map_congr_left each]
  | map entries =>
      have each : ∀ entry ∈ entries, (entry.1, f entry.2) = (entry.1, g entry.2) :=
        fun entry member => congrArg (Prod.mk entry.1) (same _ (List.mem_map_of_mem member))
      rw [resolveOnce, resolveOnce, List.map_congr_left each]
  | _ => rfl

/-- Taking steps until none is left comes to an end in one way only. -/
theorem eq_resolveSelections {c : BuildConfig} {resolve : Value → Value}
    (steps : ∀ v, resolve v = resolveOnce c resolve v) (v : Value) :
    resolve v = v.resolveSelections c := by
  induction v using induction_on_parts with
  | step v ih => rw [steps, resolveSelections_eq_resolveOnce, resolveOnce_congr ih]

/-! ## Branches that are not picked -/

/-- The values differ at most in branches that the configuration does not pick. Two selections have
the same options in the same order. Only the branches that are picked have to be alike. -/
inductive Alike (c : BuildConfig) : Value → Value → Prop
  | selection {s t : Selection} : s.mapping.map Prod.fst = t.mapping.map Prod.fst →
      Alike c (s.resolve c) (t.resolve c) → Alike c (selection s) (selection t)
  | nil : Alike c (list []) (list [])
  | cons {item v : Value} {items vs : List Value} :
      Alike c item v → Alike c (list items) (list vs) →
      Alike c (list (item :: items)) (list (v :: vs))
  | noEntries : Alike c (map []) (map [])
  | entry (key : String) {value v : Value} {entries vs : List (String × Value)} :
      Alike c value v → Alike c (map entries) (map vs) →
      Alike c (map ((key, value) :: entries)) (map ((key, v) :: vs))
  | leaf {v : Value} : v.Leaf → Alike c v v

namespace Alike

variable {c : BuildConfig} {v w : Value}

theorem refl (c : BuildConfig) (v : Value) : Alike c v v := by
  induction v using induction_on_parts with
  | step v ih =>
      cases v with
      | selection s => exact .selection rfl (ih _ (resolve_mem_parts s c))
      | list items =>
          induction items with
          | nil => exact .nil
          | cons item rest restIH =>
              exact .cons (ih item List.mem_cons_self)
                (restIH fun part member => ih part (List.mem_cons_of_mem _ member))
      | map entries =>
          induction entries with
          | nil => exact .noEntries
          | cons head rest restIH =>
              obtain ⟨key, value⟩ := head
              exact .entry key (ih value List.mem_cons_self)
                (restIH fun part member => ih part (List.mem_cons_of_mem _ member))
      | _ => exact .leaf trivial

theorem exists_first {mapping : List (TypeRef × Value)} {branch : TypeRef × Value}
    (member : branch ∈ mapping) (selected : c.isSelected branch.1 = true) :
    ∃ first, (mapping.find? fun branch => c.isSelected branch.1) = some first := by
  apply Option.isSome_iff_exists.mp
  rw [List.find?_isSome]
  exact ⟨branch, member, selected⟩

/-- A branch may be exchanged if its option is not selected or one in front of it is. -/
theorem exchange_branch {before : List (TypeRef × Value)} {option : TypeRef}
    (unpicked : c.isSelected option = false ∨ ∃ branch ∈ before, c.isSelected branch.1 = true)
    (old new : Value) (after : List (TypeRef × Value)) (default : Value) :
    Alike c (.selection ⟨before ++ (option, old) :: after, default⟩)
      (.selection ⟨before ++ (option, new) :: after, default⟩) := by
  have same : (Selection.mk (before ++ (option, new) :: after) default).resolve c =
      (Selection.mk (before ++ (option, old) :: after) default).resolve c := by
    unfold Selection.resolve
    rw [List.find?_append, List.find?_append]
    rcases unpicked with unselected | ⟨branch, member, selected⟩
    · rw [List.find?_cons_of_neg (by simp [unselected]), List.find?_cons_of_neg (by simp [unselected])]
    · rcases exists_first member selected with ⟨first, found⟩
      rw [found]
      rfl
  apply selection
  · rw [List.map_append, List.map_append]
    rfl
  · rw [same]
    exact refl c _

/-- The default may be exchanged if an option is selected. -/
theorem exchange_default {mapping : List (TypeRef × Value)} {branch : TypeRef × Value}
    (member : branch ∈ mapping) (selected : c.isSelected branch.1 = true) (old new : Value) :
    Alike c (.selection ⟨mapping, old⟩) (.selection ⟨mapping, new⟩) := by
  rcases exists_first member selected with ⟨first, found⟩
  apply selection
  · rfl
  · rw [Selection.resolve, Selection.resolve, found]
    exact refl c _

/-- What is picked of alike values is the same. -/
theorem picks {u : Value} (alike : Alike c v w) (picks : Picks c v u) : Picks c w u := by
  induction alike generalizing u with
  | selection _ _ ih =>
      cases picks with
      | selection picked => exact .selection (ih picked)
      | leaf impossible => exact impossible.elim
  | nil => exact picks
  | cons _ _ first rest =>
      cases picks with
      | cons item items => exact .cons (first item) (rest items)
      | leaf impossible => exact impossible.elim
  | noEntries => exact picks
  | entry key _ _ first rest =>
      cases picks with
      | entry _ value entries => exact .entry key (first value) (rest entries)
      | leaf impossible => exact impossible.elim
  | leaf _ => exact picks

theorem resolveSelections_eq (alike : Alike c v w) :
    w.resolveSelections c = v.resolveSelections c :=
  (alike.picks (picks_resolveSelections c v)).resolveSelections_eq

end Alike

end Value
end RuleAnalysis
