import RuleAnalysis.Proofs.Rule.Supply

namespace RuleAnalysis

/-!
# Defaults in the analysis

An attribute that the input of a target leaves out has its default in the
analysis. The default is taken as it is: no configuration has picked anything
of it. So a default without selections comes to the same whether it is left out
or given, and one with selections does so only if the attribute refuses it for
a reason that no configuration changes. Selections in the fields of a provider
are out of reach in either case.
-/

namespace Value

variable {v : Value} {c : BuildConfig}

/-- There is no selection in the value, not even in the fields of a provider. -/
def Free (v : Value) : Prop := v.Every fun w => ∀ s, w ≠ .selection s

theorem not_selection_of_resolved (resolved : v.isUnresolved = false) (s : Selection) :
    v ≠ .selection s := by
  rintro rfl
  rw [isUnresolved] at resolved
  cases resolved

theorem typeName_eq_selection_iff : v.typeName = "selection" ↔ ∃ s, v = .selection s := by
  cases v with
  | selection s => exact iff_of_true rfl ⟨s, rfl⟩
  | _ => simp [typeName]

theorem typeName_eq_string_iff : v.typeName = "string" ↔ ∃ s, v = .string s := by
  cases v with
  | string s => exact iff_of_true rfl ⟨s, rfl⟩
  | _ => simp [typeName]

/-- Only a selection comes to a value of another form. -/
theorem typeName_resolveSelections (other : ∀ s, v ≠ .selection s) (c : BuildConfig) :
    (v.resolveSelections c).typeName = v.typeName := by
  cases v with
  | selection s => exact absurd rfl (other s)
  | list items => rw [resolveSelections_list]; rfl
  | map entries => rw [resolveSelections_map]; rfl
  | _ => rw [resolveSelections] <;> simp

/-- What depends on the configuration is a selection, or a list or map. -/
theorem cases_of_isUnresolved (unresolved : v.isUnresolved = true) :
    (∃ s, v = .selection s) ∨ (∃ items, v = .list items) ∨ ∃ entries, v = .map entries := by
  cases v with
  | selection s => exact .inl ⟨s, rfl⟩
  | list items => exact .inr (.inl ⟨items, rfl⟩)
  | map entries => exact .inr (.inr ⟨entries, rfl⟩)
  | _ => simp [isUnresolved] at unresolved

/-- A list that depends on the configuration has an item that is no text. -/
theorem exists_first_other {items : List Value} (unresolved : (list items).isUnresolved = true) :
    ∃ front item back, items = front ++ item :: back ∧
      (∀ text ∈ front, ∃ s, text = .string s) ∧ ∀ s, item ≠ .string s := by
  induction items with
  | nil => simp [isUnresolved, anyUnresolved] at unresolved
  | cons first rest ih =>
      by_cases text : ∃ s, first = .string s
      · rcases text with ⟨s, rfl⟩
        have later : (list rest).isUnresolved = true := by
          simpa [isUnresolved, anyUnresolved] using unresolved
        rcases ih later with ⟨front, item, back, rfl, texts, other⟩
        exact ⟨.string s :: front, item, back, rfl, List.forall_mem_cons.mpr ⟨⟨s, rfl⟩, texts⟩,
          other⟩
      · exact ⟨[], first, rest, rfl, List.forall_mem_nil _, not_exists.mp text⟩

/-- The selections that a configuration leaves are those in the fields of providers. -/
theorem free_iff_of_resolved (resolved : v.isUnresolved = false) :
    v.Free ↔ v.Every fun w => ∀ p, w = .provider p → ∀ field ∈ p.data, field.2.Free := by
  constructor
  · clear resolved
    intro free
    induction v using induction_on_parts with
    | step v ih =>
        refine .intro ?_ fun part member => ih part member (Every.part free member)
        rintro p rfl field member
        exact Every.part free (List.mem_map_of_mem member)
  · intro fields
    induction v using induction_on_parts with
    | step v ih =>
        refine .intro (not_selection_of_resolved resolved) fun part member => ?_
        cases v with
        | provider p =>
            rcases List.mem_map.mp member with ⟨field, held, rfl⟩
            exact fields.here p rfl field held
        | list items =>
            rw [isUnresolved_list_eq_false_iff] at resolved
            exact ih part member (resolved part member) (fields.part member)
        | map entries =>
            rw [isUnresolved_map_eq_false_iff] at resolved
            have still : part.isUnresolved = false := by
              rcases List.mem_map.mp member with ⟨entry, held, rfl⟩
              exact resolved entry held
            exact ih part member still (fields.part member)
        | selection s => exact absurd rfl (not_selection_of_resolved resolved s)
        | _ => cases member

end Value

namespace Attribute

variable {ν : Type} {a : Attribute} {v : Value} {c : BuildConfig}

/-- How the host sees the attribute resolved on a desk. -/
def examine (a : Attribute) (desk : Desk ν) (deliveries : List Delivery) :
    Course Unit Outcome Request :=
  ((TaskOf.ofProgram a.resolve.routine.program).course desk
    (⟨[], id⟩ :: deliveries.map Delivery.visit)).seen (fun _ => ()) id

theorem examine_eq_shown (a : Attribute) (desk : Desk ν) (deliveries : List Delivery) :
    a.examine desk deliveries =
      Resolution.shown desk.context.config
        (a.resolution desk.context.config (desk.context.attributesInput.get? a.name)) desk
        deliveries := by
  rw [examine, TaskOf.course_ofProgram a.resolve.routine.live, id, settle_resolve]
  rfl

/-- The attribute refuses the value, for a reason that has nothing to do with the selections that
may stand in it. -/
inductive Unfit (a : Attribute) : Value → Prop
  | map (entries : List (String × Value)) :
      ¬ a.kind.AtHand ∨ a.kind = .globSet → Unfit a (.map entries)
  | list (items : List Value) : ¬ a.kind.AtHand → Unfit a (.list items)
  /-- The first item that is no text is no selection either. -/
  | pattern {front : List Value} {item : Value} (back : List Value) :
      a.kind = .globSet → (∀ text ∈ front, ∃ s, text = .string s) →
      (∀ s, item ≠ .string s) → (∀ s, item ≠ .selection s) →
      Unfit a (.list (front ++ item :: back))

/-! ## Refusals -/

theorem readPattern_eq_error_iff {e : SchemaError} :
    a.readPattern v = .error e ↔ (∀ s, v ≠ .string s) ∧ a.wrongShape "glob pattern" v = e := by
  cases v with
  | string s => exact iff_of_false nofun fun refused => refused.1 s rfl
  | _ => simp [readPattern]

/-- Nothing is taken for a selection that is none. -/
theorem wrongShape_ne (other : ∀ s, v ≠ .selection s) (expected expected' : String)
    (s : Selection) : a.wrongShape expected v ≠ a.wrongShape expected' (.selection s) := by
  intro same
  have names : v.typeName = "selection" := by
    rw [wrongShape, wrongShape, SchemaError.wrongShape.injEq] at same
    exact same.2.2
  rcases Value.typeName_eq_selection_iff.mp names with ⟨s', rfl⟩
  exact other s' rfl

theorem readLabel_ne (other : ∀ s, v ≠ .selection s) (s : Selection) :
    a.readLabel v ≠ .error (a.wrongShape "label" (.selection s)) := by
  have differs := fun expected => a.wrongShape_ne other expected "label" s
  cases v with
  | label l => exact nofun
  | string text =>
      rw [readLabel]
      cases Label.parse text <;> exact nofun
  | selection s' => exact absurd rfl (other s')
  | _ => exact fun same => differs "label" (Except.error.inj same)

/-- A value that depends on the configuration is not coerced in the analysis. -/
theorem coerceValue_of_unresolved (other : a.kind ≠ .globSet) (unresolved : v.isUnresolved = true) :
    a.coerceValue v = .ok v := by
  unfold coerceValue
  rcases Value.cases_of_isUnresolved unresolved with ⟨s, rfl⟩ | ⟨items, rfl⟩ | ⟨entries, rfl⟩ <;>
    cases kind : a.kind <;> simp_all

/-! ## Providers that are sought -/

section

variable (sought : ¬ a.kind.AtHand)
include sought

theorem resolution_left_out_of_sought {d : Value} (default : a.default? = some d)
    (unresolved : d.isUnresolved = true) (c : BuildConfig) :
    a.resolution c none = .error (a.wrongShape "label" d) := by
  rcases Value.cases_of_isUnresolved unresolved with ⟨s, rfl⟩ | ⟨items, rfl⟩ | ⟨entries, rfl⟩ <;>
  · cases kind : a.kind with
    | provider | globalProvider =>
        simp only [resolution, kind, default]
        rfl
    | _ => simp [kind, AttributeKind.AtHand] at sought

/-- A list or a map is no label, whatever the configuration picks in it. -/
theorem resolution_collection_of_sought
    (collection : (∃ items, v = .list items) ∨ ∃ entries, v = .map entries) (c : BuildConfig) :
    a.resolution c (some v) = .error (a.wrongShape "label" v) := by
  rcases collection with ⟨items, rfl⟩ | ⟨entries, rfl⟩ <;>
  · cases kind : a.kind with
    | provider | globalProvider =>
        simp only [resolution, kind, Value.resolveSelections_list, Value.resolveSelections_map]
        rfl
    | _ => simp [kind, AttributeKind.AtHand] at sought

/-- What has been supplied is never refused for being a selection. -/
theorem resolution_supplied_ne (v : Value) (c : BuildConfig) (s : Selection) :
    a.resolution c (some v) ≠ .error (a.wrongShape "label" (.selection s)) := by
  have other := Value.not_selection_of_resolved
    (Value.picks_resolveSelections c v).isUnresolved_eq_false
  have looked (type : TypeRef) (host : Bool) :
      a.lookUp type host (v.resolveSelections c) ≠
        .error (a.wrongShape "label" (.selection s)) := by
    have named := a.readLabel_ne other s
    rw [lookUp_eq_map]
    cases read : a.readLabel (v.resolveSelections c) with
    | ok l =>
        intro impossible
        cases impossible
    | error e =>
        rw [read] at named
        exact fun same => named (congrArg _ (Except.error.inj same))
  cases kind : a.kind with
  | provider type host =>
      simp only [resolution, kind]
      exact looked type host
  | globalProvider type host =>
      simp only [resolution, kind]
      intro refused
      split at refused
      · cases refused
      · cases refused
      · cases refused
      · next same =>
          cases same
          exact looked type host refused
  | _ => simp [kind, AttributeKind.AtHand] at sought

theorem resolution_left_out_eq_iff_of_sought {d : Value} (default : a.default? = some d)
    (unresolved : d.isUnresolved = true) (c : BuildConfig) :
    a.resolution c none = a.resolution c (some d) ↔ a.Unfit d := by
  rw [resolution_left_out_of_sought sought default unresolved]
  rcases Value.cases_of_isUnresolved unresolved with ⟨s, rfl⟩ | ⟨items, rfl⟩ | ⟨entries, rfl⟩
  · exact iff_of_false (resolution_supplied_ne sought _ c s).symm nofun
  · refine iff_of_true ?_ (.list items sought)
    exact (resolution_collection_of_sought sought (.inl ⟨items, rfl⟩) c).symm
  · refine iff_of_true ?_ (.map entries (.inl sought))
    exact (resolution_collection_of_sought sought (.inr ⟨entries, rfl⟩) c).symm

end

/-! ## Glob sets -/

section

variable (kind : a.kind = .globSet)
include kind

theorem coerceValue_list_eq_error_iff {items : List Value} {expected : String} {u : Value} :
    a.coerceValue (.list items) = .error (a.wrongShape expected u) ↔
      Success.FirstToFail (fun item e => (∀ s, item ≠ .string s) ∧ a.wrongShape "glob pattern" item = e)
        items (a.wrongShape expected u) := by
  have read : items.mapM a.readPattern = .error (a.wrongShape expected u) ↔ _ :=
    Success.mapM_eq_error_iff
  simp only [readPattern_eq_error_iff] at read
  rw [← read]
  simp only [coerceValue, kind]
  rw [Success.bind_eq_error_iff]
  constructor
  · rintro (failed | ⟨patterns, _, later⟩)
    · exact failed
    · rcases Success.bind_eq_error_iff.mp later with ill | ⟨_, _, impossible⟩
      · cases parsed : GlobSet.parse patterns with
        | ok set => rw [parsed] at ill; cases ill
        | error e => rw [parsed] at ill; cases ill
      · cases impossible
  · exact .inl

/-- What has been resolved is never refused for being or holding a selection. -/
theorem coerceValue_ne (resolved : v.isUnresolved = false) (expected : String) (s : Selection) :
    a.coerceValue v ≠ .error (a.wrongShape expected (.selection s)) := by
  cases v with
  | list items =>
      rw [Value.isUnresolved_list_eq_false_iff] at resolved
      rw [Ne, coerceValue_list_eq_error_iff kind]
      rintro ⟨front, item, back, rfl, _, _, same⟩
      have done := resolved item (List.mem_append_right _ List.mem_cons_self)
      exact wrongShape_ne (Value.not_selection_of_resolved done) _ _ s same
  | globSet set => simp [coerceValue, kind]
  | _ =>
      simp only [coerceValue, kind]
      intro same
      exact wrongShape_ne (Value.not_selection_of_resolved resolved) _ _ s (Except.error.inj same)

theorem coerceValue_list_of_first {front : List Value} {item : Value} {back : List Value}
    (texts : ∀ text ∈ front, ∃ s, text = .string s) (other : ∀ s, item ≠ .string s) :
    a.coerceValue (.list (front ++ item :: back)) = .error (a.wrongShape "glob pattern" item) := by
  rw [coerceValue_list_eq_error_iff kind]
  refine ⟨front, item, back, rfl, ?_, other, rfl⟩
  rintro text member e ⟨noText, _⟩
  rcases texts text member with ⟨s, rfl⟩
  exact noText s rfl

theorem exists_coerceValue_eq_error (unresolved : v.isUnresolved = true) :
    ∃ e, a.coerceValue v = .error e := by
  rcases Value.cases_of_isUnresolved unresolved with ⟨s, rfl⟩ | ⟨items, rfl⟩ | ⟨entries, rfl⟩
  · simp only [coerceValue, kind]
    exact ⟨_, rfl⟩
  · rcases Value.exists_first_other unresolved with ⟨front, item, back, rfl, texts, other⟩
    exact ⟨_, coerceValue_list_of_first kind texts other⟩
  · simp only [coerceValue, kind]
    exact ⟨_, rfl⟩

/-- A list that depends on the configuration is refused for its first item that is no text. If this
is a selection, then the list that it comes to is not refused for it. -/
theorem coerceValue_list_left_out_eq_iff {items : List Value}
    (unresolved : (Value.list items).isUnresolved = true) (c : BuildConfig) :
    a.coerceValue (.list items) = a.coerceValue ((Value.list items).resolveSelections c) ↔
      a.Unfit (.list items) := by
  have atHand : a.kind.AtHand := by
    rw [kind]
    trivial
  have resolved := (Value.picks_resolveSelections c (.list items)).isUnresolved_eq_false
  rcases Value.exists_first_other unresolved with ⟨front, item, back, rfl, texts, other⟩
  rw [coerceValue_list_of_first kind texts other]
  by_cases selects : ∃ s, item = .selection s
  · rcases selects with ⟨s, rfl⟩
    refine iff_of_false (coerceValue_ne kind resolved _ s).symm fun unfit => ?_
    generalize listed : Value.list (front ++ Value.selection s :: back) = d at unfit
    cases unfit with
    | map entries _ => cases listed
    | list items sought => exact sought atHand
    | pattern back' _ texts' other' apart =>
        have refused : a.coerceValue (.list (front ++ .selection s :: back)) = _ :=
          coerceValue_list_of_first kind texts other
        rw [listed, coerceValue_list_of_first kind texts' other'] at refused
        exact wrongShape_ne apart _ _ s (Except.error.inj refused)
  · have apart := not_exists.mp selects
    refine iff_of_true ?_ (.pattern back kind texts other apart)
    have named := Value.typeName_resolveSelections apart c
    have same : a.wrongShape "glob pattern" item =
        a.wrongShape "glob pattern" (item.resolveSelections c) := by
      rw [wrongShape, wrongShape, named]
    rw [Value.resolveSelections_list, List.map_append, List.map_cons, same]
    refine (coerceValue_list_of_first kind ?_ ?_).symm
    · intro text member
      rcases List.mem_map.mp member with ⟨earlier, listed, rfl⟩
      rcases texts earlier listed with ⟨s, rfl⟩
      exact ⟨s, (show (Value.string s).Leaf from trivial).resolveSelections c⟩
    · intro s impossible
      have text : item.typeName = "string" := by
        rw [← named, impossible]
        rfl
      rcases Value.typeName_eq_string_iff.mp text with ⟨s', rfl⟩
      exact other s' rfl

theorem coerceValue_left_out_eq_iff {d : Value} (unresolved : d.isUnresolved = true)
    (c : BuildConfig) :
    a.coerceValue d = a.coerceValue (d.resolveSelections c) ↔ a.Unfit d := by
  rcases Value.cases_of_isUnresolved unresolved with ⟨s, rfl⟩ | ⟨items, rfl⟩ | ⟨entries, rfl⟩
  · refine iff_of_false ?_ nofun
    have resolved := (Value.picks_resolveSelections c (.selection s)).isUnresolved_eq_false
    have refused : a.coerceValue (.selection s) =
        .error (a.wrongShape "glob set or list of patterns" (.selection s)) := by
      simp only [coerceValue, kind]
    rw [refused]
    exact (coerceValue_ne kind resolved _ s).symm
  · exact coerceValue_list_left_out_eq_iff kind unresolved c
  · refine iff_of_true ?_ (.map entries (.inr kind))
    rw [Value.resolveSelections_map]
    simp only [coerceValue, kind]
    rfl

end

/-! ## A default that is left out -/

theorem resolution_of_atHand_left_out (atHand : a.kind.AtHand) {d : Value}
    (default : a.default? = some d) (c : BuildConfig) :
    a.resolution c none = (a.coerceValue d).map .value := by
  cases kind : a.kind with
  | provider | globalProvider =>
      rw [kind] at atHand
      exact atHand.elim
  | _ => simp only [resolution, kind, default, Option.getD_some]

theorem resolution_of_atHand_supplied (atHand : a.kind.AtHand) (v : Value) (c : BuildConfig) :
    a.resolution c (some v) = (a.coerceValue (v.resolveSelections c)).map .value := by
  cases kind : a.kind with
  | provider | globalProvider =>
      rw [kind] at atHand
      exact atHand.elim
  | _ => simp only [resolution, kind, Option.getD_some]

/-- A default without selections comes to the same whether it is left out or not. -/
theorem resolution_left_out_of_resolved {d : Value} (default : a.default? = some d)
    (resolved : d.isUnresolved = false) (c : BuildConfig) :
    a.resolution c none = a.resolution c (some d) := by
  rw [resolution, resolution]
  simp only [default, Value.resolveSelections_of_resolved resolved]

theorem resolution_left_out_eq_iff {d : Value} (default : a.default? = some d) (c : BuildConfig) :
    a.resolution c none = a.resolution c (some d) ↔ d.isUnresolved = false ∨ a.Unfit d := by
  cases unresolved : d.isUnresolved with
  | false => exact iff_of_true (resolution_left_out_of_resolved default unresolved c) (.inl rfl)
  | true =>
      rw [or_iff_right nofun]
      by_cases atHand : a.kind.AtHand
      · rw [resolution_of_atHand_left_out atHand default, resolution_of_atHand_supplied atHand,
          Success.map_eq_map_iff fun _ _ same => Resolution.value.inj same]
        by_cases kind : a.kind = .globSet
        · exact coerceValue_left_out_eq_iff kind unresolved c
        · rw [coerceValue_of_unresolved kind unresolved]
          refine iff_of_false (fun same => ?_) fun unfit => ?_
          · have resolved := isUnresolved_of_coerceValue
              (Value.picks_resolveSelections c d).isUnresolved_eq_false same.symm
            cases unresolved.symm.trans resolved
          · cases unfit with
            | map _ refuses => exact refuses.elim (absurd atHand) kind
            | list _ sought => exact sought atHand
            | pattern _ globSet _ _ _ => exact kind globSet
      · exact resolution_left_out_eq_iff_of_sought atHand default unresolved c

/-- A default with selections that is left out comes to itself, with the selections in it, or is
refused. -/
theorem resolution_left_out_of_unresolved {d : Value} (default : a.default? = some d)
    (unresolved : d.isUnresolved = true) (c : BuildConfig) :
    a.resolution c none = .ok (.value d) ∨ ∃ e, a.resolution c none = .error e := by
  by_cases atHand : a.kind.AtHand
  · rw [resolution_of_atHand_left_out atHand default]
    by_cases kind : a.kind = .globSet
    · rcases exists_coerceValue_eq_error kind unresolved with ⟨e, refused⟩
      exact .inr ⟨e, by rw [refused]; rfl⟩
    · rw [coerceValue_of_unresolved kind unresolved]
      exact .inl rfl
  · exact .inr ⟨_, resolution_left_out_of_sought atHand default unresolved c⟩

/-- An attribute that the input leaves out is resolved as if its default had been put into the input
exactly if the default holds no selection, or the attribute refuses it whatever the configuration.
Otherwise the default comes to itself, with the selections in it, or is refused for them; put into
the input it comes to what the configuration picks of it, in which no selection is left but in the
fields of providers. -/
theorem default_left_out (a : Attribute) {d : Value} (default : a.default? = some d)
    (desk : Desk ν) (absent : desk.context.attributesInput.get? a.name = none) :
    ((∀ deliveries, a.examine desk deliveries = a.analyze d desk deliveries) ↔
      d.isUnresolved = false ∨ a.Unfit d) ∧
    (d.isUnresolved = true →
      (∀ deliveries, a.examine desk deliveries = ⟨[], some (.ok (.ok d)), ()⟩) ∨
        ∃ e, ∀ deliveries, a.examine desk deliveries = ⟨[], some (.ok (.error e)), ()⟩) ∧
    ∀ v, Value.Picks desk.context.config d v →
      (∀ deliveries, a.analyze d desk deliveries = a.analyze v desk deliveries) ∧
      (v.Free ↔ v.Every fun w => ∀ p, w = .provider p → ∀ field ∈ p.data, field.2.Free) := by
  have shown (deliveries : List Delivery) : a.examine desk deliveries =
      Resolution.shown desk.context.config (a.resolution desk.context.config none) desk
        deliveries := by
    rw [examine_eq_shown, absent]
  refine ⟨?_, fun unresolved => ?_, fun v picks => ⟨a.analyze_of_picks desk picks, ?_⟩⟩
  · rw [← resolution_left_out_eq_iff default desk.context.config]
    constructor
    · intro same
      have first := same []
      rw [shown, analyze_eq_shown] at first
      exact Resolution.shown_injective (fun _ => resolution_suits) (fun _ => resolution_suits) first
    · intro same deliveries
      rw [shown, analyze_eq_shown, same]
  · rcases resolution_left_out_of_unresolved default unresolved desk.context.config with
      kept | ⟨e, refused⟩
    · refine .inl fun deliveries => ?_
      rw [shown, kept, Resolution.shown_value]
    · refine .inr ⟨.schema e, fun deliveries => ?_⟩
      rw [shown, refused, Resolution.shown_error]
  · exact Value.free_iff_of_resolved picks.isUnresolved_eq_false

end Attribute

/-! ## A mode that depends on the platform

The target gives no mode; the rule's default is a selection, or a provider that holds one.
-/

namespace SelectedMode

def mode : Value := .selection ⟨[(OptionFamily.reference Os.linux, .string "fast")], .string "slow"⟩

def embedded : Value := .provider ⟨PlainTarget.reference, [("mode", mode)]⟩

end SelectedMode

open SelectedSources SelectedMode

/-- A list in the place of a provider's label is refused, whether it is left out or not. -/
theorem Attribute.default_left_out_refused :
    let a : Attribute := ⟨"tool", .provider PlainTarget.reference false, some (.list [mode])⟩
    desk.context.attributesInput.get? a.name = none ∧ (Value.list [mode]).isUnresolved = true ∧
      ∀ deliveries, a.examine desk deliveries = a.analyze (.list [mode]) desk deliveries := by
  intro a
  have absent : desk.context.attributesInput.get? a.name = none := rfl
  exact ⟨absent, rfl, (Attribute.default_left_out a rfl desk absent).1.mpr (.inr (.list _ id))⟩

/-- The mode that is left out stays a selection, where the mode that is given comes to its branch
for Linux; in the field of a provider it stays one in any case. -/
theorem Attribute.default_left_unresolved :
    let left : Attribute := ⟨"mode", .any, some mode⟩
    let info : Attribute := ⟨"info", .any, some embedded⟩
    desk.context.attributesInput.get? left.name = none ∧
    Value.Picks config mode (.string "fast") ∧
    left.examine desk [] = ⟨[], some (.ok (.ok mode)), ()⟩ ∧
    left.analyze mode desk [] = ⟨[], some (.ok (.ok (.string "fast"))), ()⟩ ∧
    left.examine desk [] ≠ left.analyze mode desk [] ∧
    (info.examine desk [] = ⟨[], some (.ok (.ok embedded)), ()⟩ ∧
      info.analyze embedded desk [] = ⟨[], some (.ok (.ok embedded)), ()⟩ ∧ ¬ embedded.Free) := by
  intro left info
  have picks : Value.Picks config mode (.string "fast") := .selection (.leaf trivial)
  have kept : left.examine desk [] = ⟨[], some (.ok (.ok mode)), ()⟩ := by
    rw [Attribute.examine_eq_shown]
    exact Resolution.shown_value ..
  have picked : left.analyze mode desk [] = ⟨[], some (.ok (.ok (.string "fast"))), ()⟩ := by
    rw [Attribute.analyze_of_picks left desk picks, Attribute.analyze_eq_shown]
    exact Resolution.shown_value ..
  have leftOut : info.examine desk [] = ⟨[], some (.ok (.ok embedded)), ()⟩ := by
    rw [Attribute.examine_eq_shown]
    exact Resolution.shown_value ..
  have held : info.analyze embedded desk [] = ⟨[], some (.ok (.ok embedded)), ()⟩ := by
    rw [Attribute.analyze_eq_shown]
    exact Resolution.shown_value ..
  refine ⟨rfl, picks, kept, picked, ?_, leftOut, held, fun free => ?_⟩
  · rw [kept, picked]
    simp [mode]
  · exact (free.part (List.mem_singleton_self mode)).here _ rfl

end RuleAnalysis
