import RuleAnalysis.Proofs.Label.Anatomy
import RuleAnalysis.Proofs.Success
import RuleAnalysis.Proofs.Value.Selections
import RuleAnalysis.Rule.Attribute

namespace RuleAnalysis

/-!
# What coercion leaves alone

An invocation anchors the labels it is given to its package and refuses values
of the wrong shape. Here it is said which labels are in their place already,
which values an invocation stores as they have been given, and what an
attribute for labels can come to hold.
-/

/-! ## Labels that stay -/

namespace Label

/-- The labels that anchoring leaves where they are. A package-relative label is moved unless it
begins with a colon and the package has no text to go in front of it. -/
def Stays (package? : Option Label) (l : Label) : Prop :=
  match package? with
  | none => True
  | some package =>
      match l.form with
      | .workspaceAbsolute => True
      | .workspaceRelative => package.workspaceName? = none
      | .packageRelative => package.trimmed = [] ∧ l.chars.head? = some ':'

instance (package? : Option Label) (l : Label) : Decidable (l.Stays package?) :=
  match package? with
  | none => .isTrue trivial
  | some package =>
      match form : l.form with
      | .workspaceAbsolute => .isTrue (by rw [Stays, form]; trivial)
      | .workspaceRelative =>
          decidable_of_iff (package.workspaceName? = none) (by rw [Stays, form])
      | .packageRelative =>
          decidable_of_iff (package.trimmed = [] ∧ l.chars.head? = some ':') (by rw [Stays, form])

/-- Text in front of a label moves it. -/
theorem ofChars_append_eq_self_iff {cs : List Char} {l : Label} :
    ofChars (cs ++ l.chars) = l ↔ cs = [] := by
  rw [ofChars_eq_iff, List.append_left_eq_self]

theorem chars_colon (l : Label) : chars ⟨":" ++ l.text⟩ = ':' :: l.chars := by
  rw [chars, String.toList_append]
  rfl

theorem form_colon (l : Label) : form ⟨":" ++ l.text⟩ = .packageRelative := by
  rw [form, chars_colon, anatomy] <;> simp

/-- A label behind a colon is a file of the package, whatever it begins with. -/
theorem join_colon (package l : Label) :
    package.join ⟨":" ++ l.text⟩ = ofChars (package.trimmed ++ ':' :: l.chars) := by
  rw [join, form_colon]
  simp [chars_colon]

theorem join_eq_self_iff {package l : Label} : package.join l = l ↔ l.Stays (some package) := by
  rw [join, Stays]
  cases l.form with
  | workspaceAbsolute => simp
  | workspaceRelative =>
      cases package.workspaceName? with
      | none => simp
      | some workspace =>
          obtain ⟨text⟩ := l
          have longer : "@" ++ workspace ++ text ≠ text := by
            intro same
            have counted := congrArg String.length same
            simp at counted
          simp [longer]
  | packageRelative =>
      by_cases colon : l.chars.head? = some ':'
      · simp only [colon, if_true, and_true]
        exact ofChars_append_eq_self_iff
      · have slash : ofChars (package.chars ++ '/' :: l.chars) ≠ l := by
          rw [List.append_cons, Ne, ofChars_append_eq_self_iff]
          simp
        cases last : package.chars.getLast? with
        | none => simpa [colon, last] using slash
        | some c =>
            have spoken : package.chars ≠ [] := by
              intro silent
              rw [silent] at last
              cases last
            have behind : ofChars (package.chars ++ l.chars) ≠ l := by
              rw [Ne, ofChars_append_eq_self_iff]
              exact spoken
            by_cases separator : isSeparator c = true
            · simpa [colon, last, separator] using behind
            · simpa [colon, last, separator] using slash

/-- The bare name of a file never stays. -/
theorem not_stays_of_bare {package l : Label} (relative : l.form = .packageRelative)
    (bare : l.chars.contains ':' = false) : ¬ l.Stays (some package) := by
  rw [Stays, relative]
  rintro ⟨_, colon⟩
  rw [List.contains_eq_mem, decide_eq_false_iff_not] at bare
  exact bare (List.mem_of_head? colon)

end Label

namespace Attribute

variable {a : Attribute} {package? : Option Label} {v w : Value}

theorem anchor_eq_ok_self_iff {l : Label} : anchor package? l = .ok l ↔ l.Stays package? := by
  cases package? with
  | none => exact ⟨fun _ => trivial, fun _ => rfl⟩
  | some package =>
      by_cases bare : (l.form = .packageRelative && !l.chars.contains ':') = true
      · have moved : package.join ⟨":" ++ l.text⟩ ≠ l := by
          rw [Label.join_colon, List.append_cons, Ne, Label.ofChars_append_eq_self_iff]
          simp
        have relative : l.form = .packageRelative ∧ l.chars.contains ':' = false := by
          simpa using bare
        rw [anchor, if_pos bare, Success.map_eq_ok_iff]
        refine ⟨?_, fun stays => absurd stays (Label.not_stays_of_bare relative.1 relative.2)⟩
        rintro ⟨file, read, same⟩
        have parsed : Label.parse (":" ++ l.text) = .ok file := Success.mapError_eq_ok_iff.mp read
        rw [← (Label.parse_eq_ok_iff.mp parsed).2] at moved
        exact absurd same moved
      · rw [anchor, if_neg bare, Except.ok.injEq, Label.join_eq_self_iff]

/-! ## Values that are stored as they are -/

/-- A label that stays where it is. -/
def InPlace (package? : Option Label) (v : Value) : Prop :=
  ∃ l, v = .label l ∧ l.Stays package?

/-- A list of labels that all stay where they are. -/
def AllInPlace (package? : Option Label) (v : Value) : Prop :=
  ∃ items, v = .list items ∧ ∀ item ∈ items, InPlace package? item

/-- If the value is read as a label, that label stays where it is. -/
def NamesInPlace (a : Attribute) (package? : Option Label) (v : Value) : Prop :=
  ∀ l, a.readLabel v = .ok l → l.Stays package?

theorem coerceLabel_none : a.coerceLabel v none = a.readLabel v := by
  rw [coerceLabel]
  cases a.readLabel v <;> rfl

theorem coerceLabel_map_eq_self_iff :
    (a.coerceLabel v package?).map .label = .ok v ↔ InPlace package? v := by
  rw [Success.map_eq_ok_iff, InPlace]
  constructor
  · rintro ⟨l, coerced, rfl⟩
    exact ⟨l, rfl, anchor_eq_ok_self_iff.mp coerced⟩
  · rintro ⟨l, rfl, stays⟩
    exact ⟨l, anchor_eq_ok_self_iff.mpr stays, rfl⟩

theorem coerceLabelList_eq_self_iff :
    a.coerceLabelList v package? = .ok v ↔ AllInPlace package? v := by
  cases v with
  | list items =>
      have each : (items.mapM fun item => (a.coerceLabel item package?).map .label) = .ok items ↔
          ∀ item ∈ items, InPlace package? item :=
        Success.mapM_eq_ok_self_iff.trans (forall₂_congr fun _ _ => coerceLabel_map_eq_self_iff)
      simp only [coerceLabelList, Success.map_eq_ok_iff, Value.list.injEq, exists_eq_right, each,
        AllInPlace, exists_eq_left']
  | _ =>
      constructor
      · intro impossible
        cases impossible
      · rintro ⟨_, impossible, _⟩
        cases impossible

theorem coerceBinding_eq_self_iff :
    a.coerceBinding package? v = .ok v ↔ InPlace package? v ∨ AllInPlace package? v := by
  cases v with
  | list items =>
      have noLabel : ¬ InPlace package? (.list items) := by
        rintro ⟨_, impossible, _⟩
        cases impossible
      rw [coerceBinding, coerceLabelList_eq_self_iff, or_iff_right noLabel]
  | _ =>
      rw [coerceBinding, coerceLabel_map_eq_self_iff, or_iff_left]
      · rintro ⟨_, impossible, _⟩
        cases impossible
      · intro _ impossible
        cases impossible

/-- Anchoring makes no difference exactly to what names no label or one that stays. -/
theorem coerceLabel_eq_readLabel_iff :
    a.coerceLabel v package? = a.readLabel v ↔ a.NamesInPlace package? v := by
  rw [coerceLabel, NamesInPlace]
  cases a.readLabel v with
  | error e => exact ⟨nofun, fun _ => rfl⟩
  | ok l =>
      have anchored : ((Except.ok l : Except SchemaError Label) >>= anchor package?) = .ok l ↔
          l.Stays package? := anchor_eq_ok_self_iff
      rw [anchored]
      exact ⟨fun stays _ same => Except.ok.inj same ▸ stays, fun each => each l rfl⟩

/-- A label or a text is coerced by the invocation as it is in the analysis if it names no label or
one that stays; anything else is refused by the invocation alone. -/
theorem coerceLabel_map_eq_coerceValue_iff (kind : a.kind = .label ∨ a.kind = .file) :
    (a.coerceLabel v package?).map .label = a.coerceValue v ↔
      ((∃ l, v = .label l) ∨ ∃ text, v = .string text) ∧ a.NamesInPlace package? v := by
  cases v with
  | label l =>
      have kept : a.coerceValue (.label l) = .ok (.label l) := by
        rcases kind with kind | kind <;> simp only [coerceValue, kind]
      have named : a.readLabel (.label l) = .ok l := rfl
      have stays : InPlace package? (.label l) ↔ a.NamesInPlace package? (.label l) := by
        simp [InPlace, NamesInPlace, named]
      rw [kept, coerceLabel_map_eq_self_iff, stays]
      exact (and_iff_right (.inl ⟨l, rfl⟩)).symm
  | string text =>
      have read : a.coerceValue (.string text) = (a.readLabel (.string text)).map .label := by
        rcases kind with kind | kind <;> simp only [coerceValue, kind, coerceLabel_none]
      rw [read, Success.map_eq_map_iff (fun _ _ same => Value.label.inj same),
        coerceLabel_eq_readLabel_iff]
      exact (and_iff_right (.inr ⟨text, rfl⟩)).symm
  | _ =>
      refine iff_of_false ?_ (by simp)
      rcases kind with kind | kind <;> simp only [coerceValue, kind] <;> exact nofun

theorem coerceSource_eq_self_iff_of_labelMap (kind : a.kind = .labelMap)
    (resolved : v.isUnresolved = false) :
    a.coerceSource v package? = .ok v ↔
      ∃ entries, v = .map entries ∧
        ∀ entry ∈ entries, InPlace package? entry.2 ∨ AllInPlace package? entry.2 := by
  simp only [coerceSource, resolved, kind, Bool.false_eq_true, if_false]
  cases v with
  | map entries =>
      have bound (entry : String × Value) :
          ((a.coerceBinding package? entry.2).map fun value => (entry.1, value)) = .ok entry ↔
            InPlace package? entry.2 ∨ AllInPlace package? entry.2 := by
        rw [← coerceBinding_eq_self_iff, Success.map_eq_ok_iff]
        constructor
        · rintro ⟨value, coerced, same⟩
          rw [coerced, ← same]
        · intro coerced
          exact ⟨entry.2, coerced, rfl⟩
      simp only [Success.map_eq_ok_iff, Value.map.injEq, exists_eq_right,
        Success.mapM_eq_ok_self_iff, bound, exists_eq_left']
  | _ =>
      constructor
      · intro impossible
        cases impossible
      · rintro ⟨_, impossible, _⟩
        cases impossible

/-- The values that an invocation stores as they are, or that the analysis treats as the invocation
does. -/
def Settled (a : Attribute) (package? : Option Label) (v : Value) : Prop :=
  match a.kind with
  | .any | .globSet => True
  | .label | .file => ((∃ l, v = .label l) ∨ ∃ text, v = .string text) ∧ a.NamesInPlace package? v
  | .labelList => AllInPlace package? v
  | .labelMap =>
      ∃ entries, v = .map entries ∧
        ∀ entry ∈ entries, InPlace package? entry.2 ∨ AllInPlace package? entry.2
  | .provider .. => a.NamesInPlace package? v
  | .globalProvider .. => v ≠ .null ∧ (∀ p, v ≠ .provider p) ∧ a.NamesInPlace package? v

/-- A value that depends on the configuration is stored as it is. -/
theorem coerceSource_of_unresolved (unresolved : v.isUnresolved = true) :
    a.coerceSource v package? = .ok v := by
  unfold coerceSource
  rw [if_pos unresolved]

/-- All that the coercion of a value can do. -/
theorem coerceValue_cases (coerced : a.coerceValue v = .ok w) :
    w = v ∨ ((a.kind = .label ∨ a.kind = .file) ∧ ∃ l, w = .label l) ∨
      (a.kind = .globSet ∧ ∃ set, w = .globSet set) := by
  cases kind : a.kind with
  | globSet =>
      simp only [coerceValue, kind] at coerced
      split at coerced
      · exact .inl (Except.ok.inj coerced).symm
      · rcases Success.bind_eq_ok_iff.mp coerced with ⟨patterns, _, parsed⟩
        rcases Success.bind_eq_ok_iff.mp parsed with ⟨set, _, same⟩
        exact .inr (.inr ⟨rfl, set, (Except.ok.inj same).symm⟩)
      · cases coerced
  | label | file =>
      simp only [coerceValue, kind] at coerced
      split at coerced
      · rcases Success.map_eq_ok_iff.mp coerced with ⟨l, _, same⟩
        exact .inr (.inl ⟨by simp, l, same.symm⟩)
      · exact .inl (Except.ok.inj coerced).symm
  | _ =>
      simp only [coerceValue, kind] at coerced
      exact .inl (Except.ok.inj coerced).symm

/-- A value that has been coerced is not changed by being coerced again. -/
theorem coerceValue_idempotent (coerced : a.coerceValue v = .ok w) : a.coerceValue w = .ok w := by
  rcases coerceValue_cases coerced with rfl | ⟨kind | kind, l, rfl⟩ | ⟨kind, set, rfl⟩
  · exact coerced
  all_goals simp only [coerceValue, kind]

/-! ## What coercion yields -/

/-- A label of a certain kind. -/
def IsLabel (R : Label → Prop) (v : Value) : Prop :=
  ∃ l, v = .label l ∧ R l

/-- A list of labels of a certain kind. -/
def IsLabelList (R : Label → Prop) (v : Value) : Prop :=
  ∃ items, v = .list items ∧ ∀ item ∈ items, IsLabel R item

/-- A map to labels of a certain kind and to lists of them. -/
def IsLabelMap (R : Label → Prop) (v : Value) : Prop :=
  ∃ entries, v = .map entries ∧ ∀ entry ∈ entries, IsLabel R entry.2 ∨ IsLabelList R entry.2

/-- Anchoring yields labels of a certain kind only. -/
def Anchors (package? : Option Label) (R : Label → Prop) : Prop :=
  ∀ l l', anchor package? l = .ok l' → R l'

variable {R : Label → Prop}

theorem isLabel_of_coerceLabel (anchors : Anchors package? R)
    (coerced : (a.coerceLabel v package?).map .label = .ok w) : IsLabel R w := by
  rcases Success.map_eq_ok_iff.mp coerced with ⟨l', read, rfl⟩
  rcases Success.bind_eq_ok_iff.mp read with ⟨l, _, anchored⟩
  exact ⟨l', rfl, anchors l l' anchored⟩

theorem isLabelList_of_coerceLabelList (anchors : Anchors package? R)
    (coerced : a.coerceLabelList v package? = .ok w) : IsLabelList R w := by
  cases v with
  | list items =>
      rcases Success.map_eq_ok_iff.mp coerced with ⟨labels, each, rfl⟩
      refine ⟨labels, rfl, fun label member => ?_⟩
      rcases Success.exists_left_of_forall₂ (Success.mapM_eq_ok_iff.mp each) member
        with ⟨source, _, coerced⟩
      exact isLabel_of_coerceLabel anchors coerced
  | _ => cases coerced

theorem isLabel_or_isLabelList_of_coerceBinding (anchors : Anchors package? R)
    (coerced : a.coerceBinding package? v = .ok w) : IsLabel R w ∨ IsLabelList R w := by
  cases v with
  | list items =>
      rw [coerceBinding] at coerced
      exact .inr (isLabelList_of_coerceLabelList anchors coerced)
  | _ =>
      rw [coerceBinding] at coerced
      · exact .inl (isLabel_of_coerceLabel anchors coerced)
      · exact nofun

/-- What an attribute of a kind holds once its value has been coerced. Nothing is said of the kinds
that do not stand for labels. -/
def Holds (kind : AttributeKind) (R : Label → Prop) (w : Value) : Prop :=
  match kind with
  | .label | .file | .provider .. | .globalProvider .. => IsLabel R w
  | .labelList => IsLabelList R w
  | .labelMap => IsLabelMap R w
  | .any | .globSet => True

theorem holds_of_coerceSource (anchors : Anchors package? R) (resolved : v.isUnresolved = false)
    (coerced : a.coerceSource v package? = .ok w) : Holds a.kind R w := by
  cases kind : a.kind with
  | label | file | provider | globalProvider =>
      simp only [coerceSource, resolved, kind, Bool.false_eq_true, if_false] at coerced
      exact isLabel_of_coerceLabel anchors coerced
  | labelList =>
      simp only [coerceSource, resolved, kind, Bool.false_eq_true, if_false] at coerced
      exact isLabelList_of_coerceLabelList anchors coerced
  | labelMap =>
      simp only [coerceSource, resolved, kind, Bool.false_eq_true, if_false] at coerced
      split at coerced
      · rcases Success.map_eq_ok_iff.mp coerced with ⟨bindings, each, rfl⟩
        refine ⟨bindings, rfl, fun binding member => ?_⟩
        rcases Success.exists_left_of_forall₂ (Success.mapM_eq_ok_iff.mp each) member
          with ⟨source, _, bound⟩
        rcases Success.map_eq_ok_iff.mp bound with ⟨value, coerced, rfl⟩
        exact isLabel_or_isLabelList_of_coerceBinding anchors coerced
      · cases coerced
  | any | globSet => trivial

/-! ## Nothing is left to be resolved in what has been coerced -/

theorem IsLabel.isUnresolved (holds : IsLabel R w) : w.isUnresolved = false := by
  rcases holds with ⟨l, rfl, _⟩
  rfl

theorem IsLabelList.isUnresolved (holds : IsLabelList R w) : w.isUnresolved = false := by
  rcases holds with ⟨items, rfl, each⟩
  exact Value.isUnresolved_list_eq_false_iff.mpr fun item member =>
    (each item member).isUnresolved

theorem IsLabelMap.isUnresolved (holds : IsLabelMap R w) : w.isUnresolved = false := by
  rcases holds with ⟨entries, rfl, each⟩
  exact Value.isUnresolved_map_eq_false_iff.mpr fun entry member =>
    (each entry member).elim IsLabel.isUnresolved IsLabelList.isUnresolved

theorem isUnresolved_of_coerceValue (resolved : v.isUnresolved = false)
    (coerced : a.coerceValue v = .ok w) : w.isUnresolved = false := by
  rcases coerceValue_cases coerced with rfl | ⟨_, l, rfl⟩ | ⟨_, set, rfl⟩
  · exact resolved
  · rfl
  · rfl

theorem isUnresolved_of_coerceSource (resolved : v.isUnresolved = false)
    (coerced : a.coerceSource v package? = .ok w) : w.isUnresolved = false := by
  have holds : Holds a.kind (fun _ => True) w :=
    holds_of_coerceSource (fun _ _ _ => trivial) resolved coerced
  cases kind : a.kind with
  | label | file | provider | globalProvider =>
      rw [kind] at holds
      exact IsLabel.isUnresolved holds
  | labelList =>
      rw [kind] at holds
      exact IsLabelList.isUnresolved holds
  | labelMap =>
      rw [kind] at holds
      exact IsLabelMap.isUnresolved holds
  | any | globSet =>
      simp only [coerceSource, resolved, kind, Bool.false_eq_true, if_false] at coerced
      exact isUnresolved_of_coerceValue resolved coerced

end Attribute
end RuleAnalysis
