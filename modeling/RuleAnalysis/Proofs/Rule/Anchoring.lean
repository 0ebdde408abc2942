import RuleAnalysis.Proofs.Label.Join
import RuleAnalysis.Proofs.Rule.Coercion

namespace RuleAnalysis

/-!
# Anchored labels

A package with a root puts its root in front of the labels that have none, so
a label that has been anchored to it stays where it is from then on. Coercion
reads labels first and anchors them afterwards; whether both is done at once or
the anchoring is left for later makes no difference.
-/

/-! ## Labels in a package with a root -/

namespace Label

variable {package : Label}

/-- All labels are in a workspace once they have been joined to a package that is. -/
theorem form_join_workspaceAbsolute (sound : package.WellFormed)
    (absolute : package.form = .workspaceAbsolute) (l : Label) :
    (package.join l).form = .workspaceAbsolute := by
  cases form : l.form with
  | workspaceAbsolute => rw [join_workspaceAbsolute form, form]
  | workspaceRelative =>
      rcases Option.isSome_iff_exists.mp (sound.rooted.workspaceName?_isSome_iff.mpr absolute)
        with ⟨name, named⟩
      rw [join, form, named, form_eq, chars, String.toList_append, String.toList_append]
      rfl
  | packageRelative => rw [(sound.form_join_packageRelative form).1, absolute]

theorem form_join_workspaceRelative (sound : package.WellFormed)
    (relative : package.form = .workspaceRelative) (l : Label) :
    (package.join l).form ≠ .packageRelative := by
  have unnamed : package.workspaceName? = none :=
    sound.workspaceName?_eq_none (relative ▸ nofun)
  cases form : l.form with
  | workspaceAbsolute => rw [join_workspaceAbsolute form, form]; exact nofun
  | workspaceRelative => rw [join_of_unnamed form unnamed, form]; exact nofun
  | packageRelative => rw [(sound.form_join_packageRelative form).1, relative]; exact nofun

/-- A label that has been joined to a package with a root stays there. -/
theorem join_stays (sound : package.WellFormed) (rooted : package.form ≠ .packageRelative)
    (l : Label) : (package.join l).Stays (some package) := by
  rw [Stays]
  cases form : package.form with
  | workspaceAbsolute =>
      rw [form_join_workspaceAbsolute sound form]
      trivial
  | workspaceRelative =>
      have unnamed := sound.workspaceName?_eq_none (form ▸ nofun)
      cases joined : (package.join l).form with
      | workspaceAbsolute => trivial
      | workspaceRelative => exact unnamed
      | packageRelative => exact absurd joined (form_join_workspaceRelative sound form l)
  | packageRelative => exact absurd form rooted

end Label

namespace Attribute

variable {a : Attribute} {package? : Option Label} {v w : Value} {R : Label → Prop}

theorem exists_join_of_anchor {package l l' : Label} (anchored : anchor (some package) l = .ok l') :
    ∃ file, package.join file = l' := by
  rw [anchor] at anchored
  split at anchored
  · rcases Success.map_eq_ok_iff.mp anchored with ⟨file, _, joined⟩
    exact ⟨file, joined⟩
  · exact ⟨l, Except.ok.inj anchored⟩

/-! ## Coerced again -/

/-- Labels that stay where they are make up a value that is stored as it is. -/
theorem coerceSource_eq_self_of_holds (resolved : w.isUnresolved = false)
    (other : a.kind ≠ .any ∧ a.kind ≠ .globSet) (holds : Holds a.kind (·.Stays package?) w) :
    a.coerceSource w package? = .ok w := by
  cases kind : a.kind with
  | label | file | provider | globalProvider =>
      rw [kind] at holds
      simp only [coerceSource, resolved, kind, Bool.false_eq_true, if_false]
      exact coerceLabel_map_eq_self_iff.mpr holds
  | labelList =>
      rw [kind] at holds
      simp only [coerceSource, resolved, kind, Bool.false_eq_true, if_false]
      exact coerceLabelList_eq_self_iff.mpr holds
  | labelMap =>
      rw [kind] at holds
      exact (coerceSource_eq_self_iff_of_labelMap kind resolved).mpr holds
  | any => exact absurd kind other.1
  | globSet => exact absurd kind other.2

/-- What has been coerced in a package that keeps its labels is not changed by being coerced there
again. -/
theorem coerceSource_idempotent (anchors : Anchors package? (·.Stays package?))
    (coerced : a.coerceSource v package? = .ok w) : a.coerceSource w package? = .ok w := by
  cases resolved : v.isUnresolved with
  | true =>
      rw [coerceSource_of_unresolved resolved] at coerced
      cases coerced
      exact coerceSource_of_unresolved resolved
  | false =>
      have done := isUnresolved_of_coerceSource resolved coerced
      by_cases other : a.kind ≠ .any ∧ a.kind ≠ .globSet
      · exact coerceSource_eq_self_of_holds done other
          (holds_of_coerceSource anchors resolved coerced)
      · have plain : a.kind = .any ∨ a.kind = .globSet := by
          simpa [or_iff_not_imp_left] using other
        rcases plain with kind | kind <;>
          simp only [coerceSource, resolved, done, kind, Bool.false_eq_true, if_false] at coerced ⊢ <;>
          exact coerceValue_idempotent coerced

/-! ## Anchored later -/

theorem coerceLabel_in_two_steps :
    (a.coerceLabel v package?).map .label = .ok w ↔
      ∃ u, (a.coerceLabel v none).map .label = .ok u ∧
        (a.coerceLabel u package?).map .label = .ok w := by
  simp only [coerceLabel_none, Success.map_eq_ok_iff]
  constructor
  · rintro ⟨l', coerced, rfl⟩
    rcases Success.bind_eq_ok_iff.mp coerced with ⟨l, read, anchored⟩
    exact ⟨.label l, ⟨l, read, rfl⟩, l', anchored, rfl⟩
  · rintro ⟨_, ⟨l, read, rfl⟩, l', anchored, rfl⟩
    exact ⟨l', Success.bind_eq_ok_iff.mpr ⟨l, read, anchored⟩, rfl⟩

theorem coerceLabels_in_two_steps {items ws : List Value} :
    (items.mapM fun item => (a.coerceLabel item package?).map .label) = .ok ws ↔
      ∃ us, (items.mapM fun item => (a.coerceLabel item none).map .label) = .ok us ∧
        (us.mapM fun item => (a.coerceLabel item package?).map .label) = .ok ws :=
  Success.mapM_eq_ok_iff_exists fun _ _ => coerceLabel_in_two_steps

theorem coerceLabelList_in_two_steps :
    a.coerceLabelList v package? = .ok w ↔
      ∃ u, a.coerceLabelList v none = .ok u ∧ a.coerceLabelList u package? = .ok w := by
  cases v with
  | list items =>
      rw [coerceLabelList, coerceLabelList, Success.map_eq_ok_iff]
      constructor
      · rintro ⟨ws, coerced, rfl⟩
        rcases coerceLabels_in_two_steps.mp coerced with ⟨us, first, second⟩
        exact ⟨.list us, Success.map_eq_ok_iff.mpr ⟨us, first, rfl⟩,
          Success.map_eq_ok_iff.mpr ⟨ws, second, rfl⟩⟩
      · rintro ⟨u, coerced, again⟩
        rcases Success.map_eq_ok_iff.mp coerced with ⟨us, first, rfl⟩
        rcases Success.map_eq_ok_iff.mp again with ⟨ws, second, rfl⟩
        exact ⟨ws, coerceLabels_in_two_steps.mpr ⟨us, first, second⟩, rfl⟩
  | _ =>
      constructor
      · intro impossible
        cases impossible
      · rintro ⟨_, impossible, _⟩
        cases impossible

theorem coerceBinding_of_not_list (single : ∀ items, v ≠ .list items) :
    a.coerceBinding package? v = (a.coerceLabel v package?).map .label := by
  rw [coerceBinding]
  exact single

theorem coerceBinding_in_two_steps :
    a.coerceBinding package? v = .ok w ↔
      ∃ u, a.coerceBinding none v = .ok u ∧ a.coerceBinding package? u = .ok w := by
  have anchors : Anchors none fun _ => True := fun _ _ _ => trivial
  by_cases single : ∀ items, v ≠ .list items
  · rw [coerceBinding_of_not_list single, coerceBinding_of_not_list single,
      coerceLabel_in_two_steps]
    refine exists_congr fun u => and_congr_right fun first => ?_
    rcases isLabel_of_coerceLabel anchors first with ⟨l, rfl, _⟩
    exact Iff.rfl
  · rcases not_forall_not.mp single with ⟨items, rfl⟩
    rw [coerceBinding, coerceBinding, coerceLabelList_in_two_steps]
    refine exists_congr fun u => and_congr_right fun first => ?_
    rcases isLabelList_of_coerceLabelList anchors first with ⟨labels, rfl, _⟩
    exact Iff.rfl

/-- The bindings of a label map, coerced one by one. -/
abbrev coerceEntries (a : Attribute) (package? : Option Label) (entries : List (String × Value)) :
    Except SchemaError (List (String × Value)) :=
  entries.mapM fun entry =>
    (a.coerceBinding package? entry.2).map fun value => (entry.1, value)

theorem coerceEntries_in_two_steps {entries ws : List (String × Value)} :
    a.coerceEntries package? entries = .ok ws ↔
      ∃ us, a.coerceEntries none entries = .ok us ∧ a.coerceEntries package? us = .ok ws := by
  refine Success.mapM_eq_ok_iff_exists fun entry bound => ?_
  rw [Success.map_eq_ok_iff]
  constructor
  · rintro ⟨w, coerced, rfl⟩
    rcases coerceBinding_in_two_steps.mp coerced with ⟨u, first, second⟩
    exact ⟨(entry.1, u), Success.map_eq_ok_iff.mpr ⟨u, first, rfl⟩,
      Success.map_eq_ok_iff.mpr ⟨w, second, rfl⟩⟩
  · rintro ⟨_, coerced, again⟩
    rcases Success.map_eq_ok_iff.mp coerced with ⟨u, first, rfl⟩
    rcases Success.map_eq_ok_iff.mp again with ⟨w, second, rfl⟩
    exact ⟨w, coerceBinding_in_two_steps.mpr ⟨u, first, second⟩, rfl⟩

theorem coerceValue_in_two_steps :
    a.coerceValue v = .ok w ↔ ∃ u, a.coerceValue v = .ok u ∧ a.coerceValue u = .ok w := by
  constructor
  · intro coerced
    exact ⟨w, coerced, coerceValue_idempotent coerced⟩
  · rintro ⟨u, coerced, again⟩
    rw [coerceValue_idempotent coerced] at again
    exact coerced.trans again

/-- Coercion is done in two steps if it is for values that no longer depend on the configuration,
since the first step yields such values. -/
theorem coerceSource_in_two_steps_of (read : Option Label → Value → Except SchemaError Value)
    (same : ∀ v package?, v.isUnresolved = false → a.coerceSource v package? = read package? v)
    (resolved : v.isUnresolved = false)
    (steps : read package? v = .ok w ↔ ∃ u, read none v = .ok u ∧ read package? u = .ok w) :
    a.coerceSource v package? = .ok w ↔
      ∃ u, a.coerceSource v none = .ok u ∧ a.coerceSource u package? = .ok w := by
  rw [same v package? resolved, same v none resolved, steps]
  refine exists_congr fun u => and_congr_right fun first => ?_
  have later : u.isUnresolved = false :=
    isUnresolved_of_coerceSource resolved ((same v none resolved).trans first)
  rw [same u package? later]

theorem coerceSource_map_of_labelMap (kind : a.kind = .labelMap) {entries : List (String × Value)}
    (resolved : (Value.map entries).isUnresolved = false) :
    a.coerceSource (.map entries) package? = (a.coerceEntries package? entries).map .map := by
  simp only [coerceSource, resolved, kind, Bool.false_eq_true, if_false]

theorem coerceSource_in_two_steps_of_labelMap (kind : a.kind = .labelMap)
    (resolved : v.isUnresolved = false) :
    a.coerceSource v package? = .ok w ↔
      ∃ u, a.coerceSource v none = .ok u ∧ a.coerceSource u package? = .ok w := by
  cases v with
  | map entries =>
      rw [coerceSource_map_of_labelMap kind resolved, Success.map_eq_ok_iff]
      constructor
      · rintro ⟨ws, coerced, rfl⟩
        rcases coerceEntries_in_two_steps.mp coerced with ⟨us, first, second⟩
        have stored : a.coerceSource (.map entries) none = .ok (.map us) := by
          rw [coerceSource_map_of_labelMap kind resolved, first]
          rfl
        refine ⟨.map us, stored, ?_⟩
        rw [coerceSource_map_of_labelMap kind (isUnresolved_of_coerceSource resolved stored), second]
        rfl
      · rintro ⟨u, stored, again⟩
        have later := isUnresolved_of_coerceSource resolved stored
        rw [coerceSource_map_of_labelMap kind resolved] at stored
        rcases Success.map_eq_ok_iff.mp stored with ⟨us, first, rfl⟩
        rw [coerceSource_map_of_labelMap kind later] at again
        rcases Success.map_eq_ok_iff.mp again with ⟨ws, second, rfl⟩
        exact ⟨ws, coerceEntries_in_two_steps.mpr ⟨us, first, second⟩, rfl⟩
  | _ =>
      simp only [coerceSource, resolved, kind, Bool.false_eq_true, if_false]
      constructor
      · intro impossible
        cases impossible
      · rintro ⟨_, impossible, _⟩
        cases impossible

/-- Labels may be read first and anchored later. -/
theorem coerceSource_in_two_steps :
    a.coerceSource v package? = .ok w ↔
      ∃ u, a.coerceSource v none = .ok u ∧ a.coerceSource u package? = .ok w := by
  cases resolved : v.isUnresolved with
  | true =>
      rw [coerceSource_of_unresolved resolved, coerceSource_of_unresolved resolved]
      constructor
      · intro same
        exact ⟨v, rfl, (coerceSource_of_unresolved resolved).trans same⟩
      · rintro ⟨u, same, second⟩
        cases same
        exact (coerceSource_of_unresolved resolved).symm.trans second
  | false =>
      cases kind : a.kind with
      | label | file | provider | globalProvider =>
          refine coerceSource_in_two_steps_of
            (fun package? v => (a.coerceLabel v package?).map .label)
            (fun v package? resolved => ?_) resolved coerceLabel_in_two_steps
          simp only [coerceSource, resolved, kind, Bool.false_eq_true, if_false]
      | labelList =>
          refine coerceSource_in_two_steps_of (fun package? v => a.coerceLabelList v package?)
            (fun v package? resolved => ?_) resolved coerceLabelList_in_two_steps
          simp only [coerceSource, resolved, kind, Bool.false_eq_true, if_false]
      | labelMap => exact coerceSource_in_two_steps_of_labelMap kind resolved
      | any | globSet =>
          refine coerceSource_in_two_steps_of (fun _ v => a.coerceValue v)
            (fun v package? resolved => ?_) resolved coerceValue_in_two_steps
          simp only [coerceSource, resolved, kind, Bool.false_eq_true, if_false]

/-! ## What stands in anchored values -/

/-- A label of a certain kind, or a list or map. -/
def LabelsOnly (R : Label → Prop) : Value → Prop
  | .label l => R l
  | .list _ | .map _ => True
  | _ => False

theorem IsLabel.every (holds : IsLabel R w) : w.Every (LabelsOnly R) := by
  rcases holds with ⟨l, rfl, stands⟩
  exact .leaf stands rfl

theorem IsLabelList.every (holds : IsLabelList R w) : w.Every (LabelsOnly R) := by
  rcases holds with ⟨items, rfl, each⟩
  exact .intro trivial fun item member => (each item member).every

theorem IsLabelMap.every (holds : IsLabelMap R w) : w.Every (LabelsOnly R) := by
  rcases holds with ⟨entries, rfl, each⟩
  refine .intro trivial fun value member => ?_
  rcases List.mem_map.mp member with ⟨entry, bound, rfl⟩
  exact (each entry bound).elim IsLabel.every IsLabelList.every

/-- An attribute for labels holds labels that have been anchored, in lists and maps, and nothing
else. -/
theorem every_of_coerceSource (other : a.kind ≠ .any ∧ a.kind ≠ .globSet)
    (anchors : Anchors package? R) (resolved : v.isUnresolved = false)
    (coerced : a.coerceSource v package? = .ok w) : w.Every (LabelsOnly R) := by
  have holds := holds_of_coerceSource anchors resolved coerced
  cases kind : a.kind with
  | label | file | provider | globalProvider =>
      rw [kind] at holds
      exact IsLabel.every holds
  | labelList =>
      rw [kind] at holds
      exact IsLabelList.every holds
  | labelMap =>
      rw [kind] at holds
      exact IsLabelMap.every holds
  | any => exact absurd kind other.1
  | globSet => exact absurd kind other.2

/-- A label is anchored by joining it, or the file it names, to the package. -/
theorem anchors_of_join {package : Label} (joined : ∀ l, R (package.join l)) :
    Anchors (some package) R := by
  intro l l' anchored
  rcases exists_join_of_anchor anchored with ⟨file, rfl⟩
  exact joined file

/-- Coercion anchors labels to the package. In a package with a root, or in none, a coerced value
stays as it is; the labels may be read first and anchored later, to whatever package; and what has
been anchored is in the package's workspace, or in some workspace or other if the package names
none. -/
theorem coercion_anchors (a : Attribute) (v w : Value) :
    (∀ package?, (∀ package ∈ package?, package.WellFormed ∧ package.form ≠ .packageRelative) →
      a.coerceSource v package? = .ok w → a.coerceSource w package? = .ok w) ∧
    (∀ package, a.coerceSource v (some package) = .ok w ↔
      ∃ u, a.coerceSource v none = .ok u ∧ a.coerceSource u (some package) = .ok w) ∧
    (∀ package : Label, package.WellFormed → a.kind ≠ .any ∧ a.kind ≠ .globSet →
      v.isUnresolved = false → a.coerceSource v (some package) = .ok w →
        (package.form = .workspaceAbsolute →
          w.Every (LabelsOnly fun l => l.form = .workspaceAbsolute)) ∧
        (package.form = .workspaceRelative →
          w.Every (LabelsOnly fun l => l.form ≠ .packageRelative))) := by
  refine ⟨fun package? rooted coerced => ?_, fun package => coerceSource_in_two_steps,
    fun package sound other resolved coerced => ⟨fun absolute => ?_, fun relative => ?_⟩⟩
  · refine coerceSource_idempotent ?_ coerced
    cases package? with
    | none => exact fun _ _ _ => trivial
    | some package =>
        rcases rooted package rfl with ⟨sound, rooted⟩
        exact anchors_of_join (Label.join_stays sound rooted)
  · exact every_of_coerceSource other
      (anchors_of_join (Label.form_join_workspaceAbsolute sound absolute)) resolved coerced
  · exact every_of_coerceSource other
      (anchors_of_join (Label.form_join_workspaceRelative sound relative)) resolved coerced

/-- A bare name is a file of the package and a workspace-relative label is in the package's
workspace, now or later. -/
theorem coercion_anchors_label_map :
    let a : Attribute := ⟨"deps", .labelMap, none⟩
    let package : Label := ⟨"@ws//pkg"⟩
    let v : Value := .map [("own", .string "lib.rs"), ("other", .list [.string "//base:core"])]
    let u : Value := .map [("own", .label ⟨"lib.rs"⟩), ("other", .list [.label ⟨"//base:core"⟩])]
    let w : Value :=
      .map [("own", .label ⟨"@ws//pkg:lib.rs"⟩), ("other", .list [.label ⟨"@ws//base:core"⟩])]
    a.coerceSource v (some package) = .ok w ∧ a.coerceSource v none = .ok u ∧
    a.coerceSource u (some package) = .ok w ∧ a.coerceSource w (some package) = .ok w ∧
    w.Every (LabelsOnly fun l => l.form = .workspaceAbsolute) := by
  intro a package v u w
  have coerced : a.coerceSource v (some package) = .ok w := by
    unfold a package v w
    rfl
  have read : a.coerceSource v none = .ok u := by rfl
  have sound : package.WellFormed := by decide
  rcases coercion_anchors a v w with ⟨again, later, anchored⟩
  rcases (later package).mp coerced with ⟨u', read', second⟩
  cases read.symm.trans read'
  refine ⟨coerced, read, second, again (some package) ?_ coerced, ?_⟩
  · rintro _ ⟨⟩
    exact ⟨sound, by decide⟩
  · exact (anchored package sound (by decide) (by rfl) coerced).1 (by decide)

end Attribute
end RuleAnalysis
