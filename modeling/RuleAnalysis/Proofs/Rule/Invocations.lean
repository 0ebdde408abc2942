import RuleAnalysis.Proofs.Rule.Anchoring
import RuleAnalysis.Proofs.Rule.ProviderTypes
import RuleAnalysis.Proofs.Schema.Bindings

namespace RuleAnalysis

/-!
# Invocations of a rule

An invocation is determined by where each attribute takes its value from: from
what has been supplied for it last, or else from its default. The values are
taken in two rounds, the supplied ones in the order in which they are given and
the defaults in the order of declaration, and the first one that cannot be
taken is what the rule refuses.
-/

namespace Attribute

/-- The value that the attribute is to have: the last one supplied under its name, or its
default. -/
def source? (a : Attribute) (values : List (String × Value)) : Option Value :=
  (values.reverse.lookup a.name).or a.default?

theorem isOptional_of_default {a : Attribute} {v : Value} (default : a.default? = some v) :
    a.isOptional = true := by
  unfold isOptional
  split
  · rfl
  · rw [default]
    rfl

end Attribute

namespace RuleSchema

variable {schema : RuleSchema} {package? : Option Label} {name : String}
  {values : List (String × Value)}

theorem eq_of_name (distinct : (schema.attributes.map Attribute.name).Nodup) {a b : Attribute}
    (left : a ∈ schema.attributes) (right : b ∈ schema.attributes) (same : a.name = b.name) :
    a = b :=
  List.inj_on_of_nodup_map distinct left right same

theorem declared?_eq_some_iff (distinct : (schema.attributes.map Attribute.name).Nodup)
    {a : Attribute} :
    schema.declared? name = some a ↔ a ∈ schema.attributes ∧ a.name = name := by
  constructor
  · intro found
    exact ⟨List.mem_of_find?_eq_some found, by simpa using List.find?_some found⟩
  · rintro ⟨member, rfl⟩
    cases found : schema.declared? a.name with
    | none =>
        have unnamed := List.find?_eq_none.mp found a member
        simp at unnamed
    | some b =>
        have known := List.mem_of_find?_eq_some found
        have named : b.name = a.name := by simpa using List.find?_some found
        rw [eq_of_name distinct known member named]

theorem declared?_eq_none_iff :
    schema.declared? name = none ↔ ∀ a ∈ schema.attributes, a.name ≠ name := by
  rw [declared?, List.find?_eq_none]
  simp

/-! ## What is refused -/

/-- What is wrong with a supplied pair. -/
inductive Refuses (schema : RuleSchema) (package? : Option Label) :
    String × Value → SchemaError → Prop
  | unknown {name : String} (v : Value) : (∀ a ∈ schema.attributes, a.name ≠ name) →
      Refuses schema package? (name, v) (.unknownAttribute schema.reference.qualifiedName name)
  | unfit {a : Attribute} {v : Value} {e : SchemaError} : a ∈ schema.attributes →
      a.coerceSource v package? = .error e → Refuses schema package? (a.name, v) e

/-- What is wrong with leaving an attribute out. -/
inductive Misses (schema : RuleSchema) (package? : Option Label) : Attribute → SchemaError → Prop
  | required {a : Attribute} : a.isOptional = false →
      Misses schema package? a (.missingAttribute schema.reference.qualifiedName a.name)
  | unfit {a : Attribute} {v : Value} {e : SchemaError} : a.default? = some v →
      a.coerceSource v package? = .error e → Misses schema package? a e

/-- Nothing is wrong with what is supplied and with what is left out. -/
structure Accepts (schema : RuleSchema) (package? : Option Label)
    (values : List (String × Value)) : Prop where
  supplied : ∀ given ∈ values, ∃ a ∈ schema.attributes, a.name = given.1 ∧
    ∃ w, a.coerceSource given.2 package? = .ok w
  omitted : ∀ a ∈ schema.attributes, a.name ∉ values.map Prod.fst →
    a.isOptional = true ∧ ∀ v, a.default? = some v → ∃ w, a.coerceSource v package? = .ok w

/-- The attributes that are left out, in the order of declaration. -/
def omitted (schema : RuleSchema) (values : List (String × Value)) : List Attribute :=
  schema.attributes.filter fun a => decide (a.name ∉ values.map Prod.fst)

theorem mem_omitted_iff {a : Attribute} :
    a ∈ schema.omitted values ↔ a ∈ schema.attributes ∧ a.name ∉ values.map Prod.fst := by
  rw [omitted, List.mem_filter, decide_eq_true_iff]

/-! ## Two rounds -/

/-- What a supplied pair is taken as. -/
def taken (schema : RuleSchema) (package? : Option Label) (given : String × Value) :
    Except SchemaError (String × Value) :=
  match schema.declared? given.1 with
  | none => .error (.unknownAttribute schema.reference.qualifiedName given.1)
  | some a => (a.coerceSource given.2 package?).map fun w => (given.1, w)

/-- What is taken for an attribute that has been left out. -/
def fallback (rule : String) (package? : Option Label) (a : Attribute) :
    Except SchemaError (Option (String × Value)) :=
  if !a.isOptional then .error (.missingAttribute rule a.name)
  else
    match a.default? with
    | some v => (a.coerceSource v package?).map fun w => some (a.name, w)
    | none => .ok none

theorem taken_eq_ok_iff (distinct : (schema.attributes.map Attribute.name).Nodup)
    {given bound : String × Value} :
    schema.taken package? given = .ok bound ↔
      bound.1 = given.1 ∧ ∃ a ∈ schema.attributes, a.name = given.1 ∧
        a.coerceSource given.2 package? = .ok bound.2 := by
  rcases bound with ⟨key, w⟩
  unfold taken
  split
  · next unknown =>
      rw [declared?_eq_none_iff] at unknown
      refine iff_of_false nofun ?_
      rintro ⟨_, a, member, named, _⟩
      exact unknown a member named
  · next a found =>
      rcases (declared?_eq_some_iff distinct).mp found with ⟨member, named⟩
      rw [Success.map_eq_ok_iff]
      constructor
      · rintro ⟨w', coerced, same⟩
        cases same
        exact ⟨rfl, a, member, named, coerced⟩
      · rintro ⟨rfl, b, known, same, coerced⟩
        rw [eq_of_name distinct known member (same.trans named.symm)] at coerced
        exact ⟨w, coerced, rfl⟩

theorem refuses_iff_of_mem (distinct : (schema.attributes.map Attribute.name).Nodup)
    {a : Attribute} (member : a ∈ schema.attributes) {v : Value} {e : SchemaError} :
    schema.Refuses package? (a.name, v) e ↔ a.coerceSource v package? = .error e := by
  constructor
  · intro refuses
    generalize named : a.name = name at refuses
    cases refuses with
    | unknown _ unnamed => exact absurd named (unnamed a member)
    | unfit known failed => rwa [eq_of_name distinct member known named]
  · intro failed
    exact .unfit member failed

theorem taken_eq_error_iff (distinct : (schema.attributes.map Attribute.name).Nodup)
    {given : String × Value} {e : SchemaError} :
    schema.taken package? given = .error e ↔ schema.Refuses package? given e := by
  rcases given with ⟨name, v⟩
  cases found : schema.declared? name with
  | none =>
      have unnamed := declared?_eq_none_iff.mp found
      rw [taken, found]
      constructor
      · intro same
        cases same
        exact .unknown v unnamed
      · intro refuses
        cases refuses with
        | unknown => rfl
        | @unfit a _ _ member _ => exact absurd rfl (unnamed a member)
  | some a =>
      rcases (declared?_eq_some_iff distinct).mp found with ⟨member, rfl⟩
      rw [refuses_iff_of_mem distinct member, taken, found]
      cases coerced : a.coerceSource v package? <;> simp [coerced, Except.map]

theorem fallback_eq_ok_iff {rule : String} {a : Attribute} {bound : Option (String × Value)} :
    fallback rule package? a = .ok bound ↔
      a.isOptional = true ∧
        (a.default? = none ∧ bound = none ∨
          ∃ v w, a.default? = some v ∧ a.coerceSource v package? = .ok w ∧
            bound = some (a.name, w)) := by
  unfold fallback
  cases optional : a.isOptional with
  | false => simp
  | true =>
      cases default : a.default? with
      | none => simp [eq_comm]
      | some v =>
          simp only [Bool.not_true, Bool.false_eq_true, if_false, Success.map_eq_ok_iff]
          simp [eq_comm]

theorem fallback_eq_error_iff {a : Attribute} {e : SchemaError} :
    fallback schema.reference.qualifiedName package? a = .error e ↔
      schema.Misses package? a e := by
  unfold fallback
  constructor
  · intro failed
    split at failed
    · next required =>
        cases failed
        exact .required (by simpa using required)
    · split at failed
      · next v default =>
          cases coerced : a.coerceSource v package? with
          | ok w =>
              rw [coerced] at failed
              cases failed
          | error e' =>
              rw [coerced] at failed
              cases failed
              exact .unfit default coerced
      · cases failed
  · intro misses
    cases misses with
    | required required => simp [required]
    | unfit default failed =>
        simp [Attribute.isOptional_of_default default, default, failed, Except.map]

theorem collect_eq (d : Dictionary Value) :
    schema.collect package? values d =
      (values.mapM (schema.taken package?)).map d.override := by
  induction values generalizing d with
  | nil => rfl
  | cons given rest ih =>
      rcases given with ⟨name, v⟩
      rw [collect, List.mapM_cons]
      cases found : schema.declared? name with
      | none =>
          have refused : schema.taken package? (name, v) =
              .error (.unknownAttribute schema.reference.qualifiedName name) := by
            simp [taken, found]
          rw [refused]
          rfl
      | some a =>
          cases coerced : a.coerceSource v package? with
          | error e =>
              have refused : schema.taken package? (name, v) = .error e := by
                simp [taken, found, coerced, Except.map]
              simp only [refused, coerced]
              rfl
          | ok w =>
              have accepted : schema.taken package? (name, v) = .ok (name, w) := by
                simp [taken, found, coerced, Except.map]
              simp only [accepted, coerced]
              change schema.collect package? rest (d.insert name w) = _
              rw [ih]
              cases rest.mapM (schema.taken package?) <;> rfl

theorem complete_eq_fillIn {rule : String} (attributes : List Attribute) (d : Dictionary Value) :
    complete rule package? attributes d =
      Dictionary.fillIn Attribute.name (fallback rule package?) attributes d := by
  induction attributes generalizing d with
  | nil => rfl
  | cons a rest ih =>
      rw [complete, Dictionary.fillIn, fallback, ih]
      split
      · rfl
      · cases a.isOptional with
        | false => rfl
        | true =>
            rw [Bool.not_true, if_neg Bool.false_ne_true, if_neg Bool.false_ne_true]
            cases a.default? with
            | none => rfl
            | some v =>
                simp only [ih]
                cases a.coerceSource v package? <;> rfl

/-- Defaults are filled in for the attributes that have no value before the round begins: none of
them gets one from another's default. -/
theorem complete_eq {rule : String} {attributes : List Attribute}
    (distinct : (attributes.map Attribute.name).Nodup) (d : Dictionary Value) :
    complete rule package? attributes d =
      ((attributes.filter fun a => !d.contains a.name).mapM (fallback rule package?)).map
        fun bound => d.override (bound.filterMap id) := by
  have own : ∀ a bound, fallback rule package? a = .ok bound →
      ∀ binding ∈ bound, binding.1 = a.name := by
    rintro a bound filled binding ⟨⟩
    rcases fallback_eq_ok_iff.mp filled with ⟨_, ⟨_, impossible⟩ | ⟨v, w, _, _, same⟩⟩
    · cases impossible
    · cases same
      rfl
  rw [complete_eq_fillIn]
  exact Dictionary.fillIn_eq own distinct d

/-! ## What is accepted -/

/-- The invocation that is made of a name and values. Each name is bound to the coerced value that
its attribute is to have. -/
structure Instantiates (schema : RuleSchema) (package? : Option Label) (name : String)
    (values : List (String × Value)) (i : RuleInvocation) : Prop where
  name : i.name = name
  rule : i.rule = schema.reference
  outputMounts : i.outputMounts = []
  ordered : i.attributesInput.Ordered
  bound : ∀ key w, i.attributesInput.get? key = some w ↔
    ∃ a ∈ schema.attributes, a.name = key ∧
      ∃ v, a.source? values = some v ∧ a.coerceSource v package? = .ok w

theorem Instantiates.unique {i j : RuleInvocation}
    (left : schema.Instantiates package? name values i)
    (right : schema.Instantiates package? name values j) : i = j := by
  have input : i.attributesInput = j.attributesInput := by
    refine left.ordered.ext right.ordered fun key => Option.ext fun w => ?_
    rw [left.bound, right.bound]
  rcases i with ⟨_, _, _, _⟩
  rcases j with ⟨_, _, _, _⟩
  rw [RuleInvocation.mk.injEq]
  exact ⟨left.name.trans right.name.symm, left.rule.trans right.rule.symm, input,
    left.outputMounts.trans right.outputMounts.symm⟩

/-- The two rounds one after the other. -/
def invoked (schema : RuleSchema) (package? : Option Label) (name : String)
    (values : List (String × Value)) : Except SchemaError RuleInvocation := do
  let given ← values.mapM (schema.taken package?)
  let defaults ← (schema.omitted values).mapM
    (fallback schema.reference.qualifiedName package?)
  return ⟨name, schema.reference, (Dictionary.override [] given).override (defaults.filterMap id), []⟩

section

variable (distinct : (schema.attributes.map Attribute.name).Nodup)
include distinct

theorem keys_of_taken {given : List (String × Value)}
    (taken : List.Forall₂ (fun v b => schema.taken package? v = .ok b) values given) :
    given.map Prod.fst = values.map Prod.fst := by
  induction taken with
  | nil => rfl
  | cons first _ ih =>
      rw [List.map_cons, List.map_cons, ih, ((taken_eq_ok_iff distinct).mp first).1]

theorem invoke_eq (named : name ≠ "") :
    schema.invoke name values package? = schema.invoked package? name values := by
  rw [invoke, if_neg named, invoked]
  change (schema.collect package? values [] >>= _) = _
  rw [collect_eq]
  cases taken : values.mapM (schema.taken package?) with
  | error e => rfl
  | ok given =>
      have keys := keys_of_taken distinct (Success.mapM_eq_ok_iff.mp taken)
      have left : (schema.attributes.filter fun a => !(Dictionary.override [] given).contains a.name) =
          schema.omitted values := by
        apply List.filter_congr
        intro a _
        rw [Dictionary.contains_override_nil, keys, decide_not]
      change (complete schema.reference.qualifiedName package? schema.attributes
        (Dictionary.override [] given) >>= _) = _
      rw [complete_eq distinct, left]
      cases (schema.omitted values).mapM (fallback schema.reference.qualifiedName package?) <;> rfl

theorem lookup_taken {given : List (String × Value)}
    (taken : List.Forall₂ (fun v b => schema.taken package? v = .ok b) values given)
    (key : String) (w : Value) :
    given.reverse.lookup key = some w ↔
      ∃ v, values.reverse.lookup key = some v ∧
        ∃ a ∈ schema.attributes, a.name = key ∧ a.coerceSource v package? = .ok w := by
  have bound := taken.imp fun _ _ first => (taken_eq_ok_iff distinct).mp first
  have beside := Dictionary.lookup_forall₂
    (r := fun name v w =>
      ∃ a ∈ schema.attributes, a.name = name ∧ a.coerceSource v package? = .ok w)
    (List.forall₂_reverse_iff.mpr bound) key
  generalize given.reverse.lookup key = found at beside ⊢
  generalize values.reverse.lookup key = supplied at beside ⊢
  cases beside with
  | none => simp
  | @some v w' first =>
      rcases first with ⟨a, member, named, coerced⟩
      constructor
      · intro same
        cases same
        exact ⟨v, rfl, a, member, named, coerced⟩
      · rintro ⟨_, ⟨⟩, b, known, same, coerced'⟩
        rw [eq_of_name distinct known member (same.trans named.symm), coerced] at coerced'
        cases coerced'
        rfl

omit distinct in
theorem mem_defaults_iff {defaults : List (Option (String × Value))}
    (filled : List.Forall₂
      (fun a b => fallback schema.reference.qualifiedName package? a = .ok b)
      (schema.omitted values) defaults)
    {key : String} {w : Value} :
    (key, w) ∈ defaults.filterMap id ↔
      ∃ a ∈ schema.omitted values, a.name = key ∧
        ∃ v, a.default? = some v ∧ a.coerceSource v package? = .ok w := by
  rw [List.mem_filterMap]
  constructor
  · rintro ⟨_, member, rfl⟩
    rcases Success.exists_left_of_forall₂ filled member with ⟨a, left, kept⟩
    rcases fallback_eq_ok_iff.mp kept with ⟨_, ⟨_, impossible⟩ | ⟨v, w', default, coerced, same⟩⟩
    · cases impossible
    · cases same
      exact ⟨a, left, rfl, v, default, coerced⟩
  · rintro ⟨a, left, rfl, v, default, coerced⟩
    rcases Success.exists_right_of_forall₂ filled left with ⟨b, member, kept⟩
    have taken : fallback schema.reference.qualifiedName package? a = .ok (some (a.name, w)) :=
      fallback_eq_ok_iff.mpr
        ⟨Attribute.isOptional_of_default default, .inr ⟨v, w, default, coerced, rfl⟩⟩
    rw [kept] at taken
    cases taken
    exact ⟨_, member, rfl⟩

theorem lookup_defaults {defaults : List (Option (String × Value))}
    (filled : List.Forall₂
      (fun a b => fallback schema.reference.qualifiedName package? a = .ok b)
      (schema.omitted values) defaults)
    (key : String) (w : Value) :
    (defaults.filterMap id).reverse.lookup key = some w ↔
      ∃ a ∈ schema.omitted values, a.name = key ∧
        ∃ v, a.default? = some v ∧ a.coerceSource v package? = .ok w := by
  have origin : ∀ u, (defaults.filterMap id).reverse.lookup key = some u →
      ∃ a ∈ schema.omitted values, a.name = key ∧
        ∃ v, a.default? = some v ∧ a.coerceSource v package? = .ok u := by
    intro u found
    exact (mem_defaults_iff filled).mp (List.mem_reverse.mp (mem_of_lookup found))
  constructor
  · exact origin w
  · intro source
    have listed := List.mem_map_of_mem (f := Prod.fst)
      (List.mem_reverse.mpr ((mem_defaults_iff filled).mpr source))
    rcases Option.isSome_iff_exists.mp (isSome_lookup_iff.mpr listed) with ⟨u, found⟩
    rcases origin u found with ⟨b, left', named', v', default', coerced'⟩
    rcases source with ⟨a, left, named, v, default, coerced⟩
    -- The name is that of one attribute, which has one default.
    have same := eq_of_name distinct (mem_omitted_iff.mp left).1 (mem_omitted_iff.mp left').1
      (named.trans named'.symm)
    subst same
    cases default.symm.trans default'
    cases coerced.symm.trans coerced'
    exact found

theorem bound_iff {given : List (String × Value)} {defaults : List (Option (String × Value))}
    (taken : List.Forall₂ (fun v b => schema.taken package? v = .ok b) values given)
    (filled : List.Forall₂
      (fun a b => fallback schema.reference.qualifiedName package? a = .ok b)
      (schema.omitted values) defaults)
    (key : String) (w : Value) :
    ((Dictionary.override [] given).override (defaults.filterMap id)).get? key = some w ↔
      ∃ a ∈ schema.attributes, a.name = key ∧
        ∃ v, a.source? values = some v ∧ a.coerceSource v package? = .ok w := by
  have before : (Dictionary.override [] given).get? key = given.reverse.lookup key := by
    rw [Dictionary.get?_override]
    exact Option.or_none
  have late := lookup_defaults distinct filled key
  have early := lookup_taken distinct taken key
  have listed : key ∈ values.map Prod.fst ↔ (values.reverse.lookup key).isSome := by
    rw [isSome_lookup_iff, List.map_reverse, List.mem_reverse]
  rw [Dictionary.get?_override, before]
  cases supplied : values.reverse.lookup key with
  | some v =>
      have unfilled : (defaults.filterMap id).reverse.lookup key = none := by
        rw [Option.eq_none_iff_forall_ne_some]
        intro u found
        rcases (late u).mp found with ⟨a, left, rfl, _⟩
        exact (mem_omitted_iff.mp left).2 (listed.mpr (by rw [supplied]; rfl))
      rw [unfilled, Option.none_or, early]
      constructor
      · rintro ⟨_, same, a, member, rfl, coerced⟩
        refine ⟨a, member, rfl, v, ?_, ?_⟩
        · rw [Attribute.source?, supplied, Option.some_or]
        · cases supplied.symm.trans same
          exact coerced
      · rintro ⟨a, member, rfl, v', source, coerced⟩
        rw [Attribute.source?, supplied, Option.some_or] at source
        cases source
        exact ⟨v, supplied, a, member, rfl, coerced⟩
  | none =>
      have untaken : given.reverse.lookup key = none := by
        rw [Option.eq_none_iff_forall_ne_some]
        intro u found
        rcases (early u).mp found with ⟨v, impossible, _⟩
        cases supplied.symm.trans impossible
      rw [untaken, Option.or_none, late]
      constructor
      · rintro ⟨a, left, rfl, v, default, coerced⟩
        refine ⟨a, (mem_omitted_iff.mp left).1, rfl, v, ?_, coerced⟩
        rw [Attribute.source?, supplied, Option.none_or, default]
      · rintro ⟨a, member, rfl, v, source, coerced⟩
        rw [Attribute.source?, supplied, Option.none_or] at source
        refine ⟨a, mem_omitted_iff.mpr ⟨member, ?_⟩, rfl, v, source, coerced⟩
        rw [listed, supplied]
        exact Bool.false_ne_true

theorem exists_taken_iff {given : String × Value} :
    (∃ bound, schema.taken package? given = .ok bound) ↔
      ∃ a ∈ schema.attributes, a.name = given.1 ∧ ∃ w, a.coerceSource given.2 package? = .ok w := by
  simp only [taken_eq_ok_iff distinct]
  constructor
  · rintro ⟨bound, _, a, member, named, coerced⟩
    exact ⟨a, member, named, bound.2, coerced⟩
  · rintro ⟨a, member, named, w, coerced⟩
    exact ⟨(given.1, w), rfl, a, member, named, coerced⟩

omit distinct in
theorem exists_fallback_iff {rule : String} {a : Attribute} :
    (∃ bound, fallback rule package? a = .ok bound) ↔
      a.isOptional = true ∧
        ∀ v, a.default? = some v → ∃ w, a.coerceSource v package? = .ok w := by
  simp only [fallback_eq_ok_iff]
  constructor
  · rintro ⟨_, optional, ⟨none, _⟩ | ⟨v, w, default, coerced, _⟩⟩
    · exact ⟨optional, fun v some => nomatch none.symm.trans some⟩
    · refine ⟨optional, fun v' default' => ⟨w, ?_⟩⟩
      cases default.symm.trans default'
      exact coerced
  · rintro ⟨optional, coerces⟩
    cases default : a.default? with
    | none => exact ⟨none, optional, .inl ⟨rfl, rfl⟩⟩
    | some v =>
        rcases coerces v default with ⟨w, coerced⟩
        exact ⟨some (a.name, w), optional, .inr ⟨v, w, rfl, coerced, rfl⟩⟩

/-- A rule can be invoked exactly if it accepts the values and the target has a name. -/
theorem exists_invoke_iff :
    (∃ i, schema.invoke name values package? = .ok i) ↔
      name ≠ "" ∧ schema.Accepts package? values := by
  by_cases named : name = ""
  · refine iff_of_false ?_ fun accepted => accepted.1 named
    rintro ⟨i, impossible⟩
    rw [invoke, if_pos named] at impossible
    cases impossible
  · have rounds : (∃ i, schema.invoke name values package? = .ok i) ↔
        (∃ given, values.mapM (schema.taken package?) = .ok given) ∧
          ∃ defaults, (schema.omitted values).mapM
            (fallback schema.reference.qualifiedName package?) = .ok defaults := by
      rw [invoke_eq distinct named, invoked]
      simp only [Success.bind_eq_ok_iff]
      constructor
      · rintro ⟨i, given, taken, defaults, filled, _⟩
        exact ⟨⟨given, taken⟩, defaults, filled⟩
      · rintro ⟨⟨given, taken⟩, defaults, filled⟩
        exact ⟨_, given, taken, defaults, filled, rfl⟩
    rw [rounds, Success.exists_mapM_eq_ok_iff, Success.exists_mapM_eq_ok_iff]
    simp only [exists_taken_iff distinct, exists_fallback_iff, mem_omitted_iff]
    constructor
    · rintro ⟨supplied, omitted⟩
      exact ⟨named, supplied, fun a member left => omitted a ⟨member, left⟩⟩
    · rintro ⟨_, supplied, omitted⟩
      exact ⟨supplied, fun a left => omitted a left.1 left.2⟩

/-- The first thing that is wrong is what the rule refuses. -/
theorem invoke_eq_error_iff (named : name ≠ "") {e : SchemaError} :
    schema.invoke name values package? = .error e ↔
      Success.FirstToFail (schema.Refuses package?) values e ∨
        (∀ given ∈ values, ∀ e', ¬ schema.Refuses package? given e') ∧
          Success.FirstToFail (schema.Misses package?) (schema.omitted values) e := by
  rw [invoke_eq distinct named, invoked, Success.bind_eq_error_iff, Success.mapM_eq_error_iff]
  simp only [taken_eq_error_iff distinct]
  refine or_congr_right ?_
  have unrefused : (∀ given ∈ values, ∀ e', ¬ schema.Refuses package? given e') ↔
      ∃ given, values.mapM (schema.taken package?) = .ok given := by
    rw [Success.exists_mapM_eq_ok_iff]
    simp only [Success.exists_eq_ok_iff, Ne, taken_eq_error_iff distinct]
  rw [unrefused]
  have missing (e' : SchemaError) :
      (schema.omitted values).mapM (fallback schema.reference.qualifiedName package?) = .error e' ↔
        Success.FirstToFail (schema.Misses package?) (schema.omitted values) e' := by
    rw [Success.mapM_eq_error_iff]
    simp only [fallback_eq_error_iff]
  constructor
  · rintro ⟨given, taken, failed⟩
    rcases Success.bind_eq_error_iff.mp failed with failed | ⟨_, _, impossible⟩
    · exact ⟨⟨given, taken⟩, (missing e).mp failed⟩
    · cases impossible
  · rintro ⟨⟨given, taken⟩, missed⟩
    exact ⟨given, taken, Success.bind_eq_error_iff.mpr (.inl ((missing e).mpr missed))⟩

/-- An invocation that is made is the one that the values determine. -/
theorem instantiates_of_invoke {i : RuleInvocation}
    (made : schema.invoke name values package? = .ok i) :
    schema.Instantiates package? name values i := by
  have named : name ≠ "" := ((exists_invoke_iff distinct).mp ⟨i, made⟩).1
  rw [invoke_eq distinct named] at made
  rcases Success.bind_eq_ok_iff.mp made with ⟨given, taken, made⟩
  rcases Success.bind_eq_ok_iff.mp made with ⟨defaults, filled, same⟩
  cases same
  exact {
    name := rfl
    rule := rfl
    outputMounts := rfl
    ordered := (Dictionary.ordered_nil.override given).override (defaults.filterMap id)
    bound := bound_iff distinct (Success.mapM_eq_ok_iff.mp taken) (Success.mapM_eq_ok_iff.mp filled) }

theorem invoke_eq_ok_iff {i : RuleInvocation} :
    schema.invoke name values package? = .ok i ↔
      name ≠ "" ∧ schema.Accepts package? values ∧
        schema.Instantiates package? name values i := by
  constructor
  · intro made
    have accepted := (exists_invoke_iff distinct).mp ⟨i, made⟩
    exact ⟨accepted.1, accepted.2, instantiates_of_invoke distinct made⟩
  · rintro ⟨named, accepted, instantiates⟩
    rcases (exists_invoke_iff distinct).mpr ⟨named, accepted⟩ with ⟨j, made⟩
    rw [instantiates.unique (instantiates_of_invoke distinct made)]
    exact made

end

/-! ## A default that is supplied -/

section

variable (distinct : (schema.attributes.map Attribute.name).Nodup) {a : Attribute} {v : Value}
  {front back : List (String × Value)}
include distinct

/-- It makes no difference to any attribute whether a default is supplied or left to be filled
in. -/
theorem source?_of_supplied_default (member : a ∈ schema.attributes)
    (default : a.default? = some v) (left : a.name ∉ (front ++ back).map Prod.fst) {b : Attribute}
    (known : b ∈ schema.attributes) :
    b.source? (front ++ (a.name, v) :: back) = b.source? (front ++ back) := by
  rw [List.map_append, List.mem_append, not_or] at left
  unfold Attribute.source?
  rw [List.reverse_append, List.reverse_append, List.reverse_cons, List.lookup_append,
    List.lookup_append, List.lookup_append, Option.or_assoc]
  by_cases same : b.name = a.name
  · have itself : b = a := eq_of_name distinct known member same
    subst itself
    have behind : back.reverse.lookup b.name = none := by
      rw [lookup_eq_none_iff, List.map_reverse, List.mem_reverse]
      exact left.2
    have ahead : front.reverse.lookup b.name = none := by
      rw [lookup_eq_none_iff, List.map_reverse, List.mem_reverse]
      exact left.1
    rw [behind, ahead, List.lookup_cons_self, default]
    rfl
  · have apart : (b.name == a.name) = false := by simpa using same
    simp only [List.lookup_cons, apart, List.lookup_nil, Option.or_none, Option.or_assoc]

theorem accepts_supplied_default_iff (member : a ∈ schema.attributes)
    (default : a.default? = some v) (left : a.name ∉ (front ++ back).map Prod.fst) :
    schema.Accepts package? (front ++ (a.name, v) :: back) ↔
      schema.Accepts package? (front ++ back) := by
  have among {given : String × Value} :
      given ∈ front ++ (a.name, v) :: back ↔ given = (a.name, v) ∨ given ∈ front ++ back := by
    rw [List.perm_middle.mem_iff, List.mem_cons]
  have named {name : String} : name ∈ (front ++ (a.name, v) :: back).map Prod.fst ↔
      name = a.name ∨ name ∈ (front ++ back).map Prod.fst := by
    rw [(List.perm_middle.map Prod.fst).mem_iff, List.map_cons, List.mem_cons]
  constructor
  · intro accepts
    refine ⟨fun given supplied => accepts.supplied given (among.mpr (.inr supplied)), ?_⟩
    intro b known unnamed
    by_cases same : b.name = a.name
    · rcases accepts.supplied _ (among.mpr (.inl rfl)) with ⟨c, found, itself, coerces⟩
      have one : c = a := eq_of_name distinct found member itself
      have other : b = a := eq_of_name distinct known member same
      subst one other
      refine ⟨Attribute.isOptional_of_default default, fun v' default' => ?_⟩
      cases default.symm.trans default'
      exact coerces
    · exact accepts.omitted b known fun listed => (named.mp listed).elim same unnamed
  · intro accepts
    constructor
    · intro given supplied
      rcases among.mp supplied with rfl | before
      · exact ⟨a, member, rfl, (accepts.omitted a member left).2 v default⟩
      · exact accepts.supplied given before
    · intro b known unnamed
      exact accepts.omitted b known fun listed => unnamed (named.mpr (.inr listed))

theorem invoke_supplied_default_iff (member : a ∈ schema.attributes)
    (default : a.default? = some v) (left : a.name ∉ (front ++ back).map Prod.fst)
    {i : RuleInvocation} :
    schema.invoke name (front ++ (a.name, v) :: back) package? = .ok i ↔
      schema.invoke name (front ++ back) package? = .ok i := by
  have sources (key : String) (w : Value) :
      (∃ b ∈ schema.attributes, b.name = key ∧
        ∃ u, b.source? (front ++ (a.name, v) :: back) = some u ∧
          b.coerceSource u package? = .ok w) ↔
      ∃ b ∈ schema.attributes, b.name = key ∧
        ∃ u, b.source? (front ++ back) = some u ∧ b.coerceSource u package? = .ok w := by
    refine exists_congr fun b => and_congr_right fun known => ?_
    rw [source?_of_supplied_default distinct member default left known]
  rw [invoke_eq_ok_iff distinct, invoke_eq_ok_iff distinct,
    accepts_supplied_default_iff distinct member default left]
  refine and_congr_right fun _ => and_congr_right fun _ => ?_
  constructor
  · intro made
    exact { made with bound := fun key w => (made.bound key w).trans (sources key w) }
  · intro made
    exact { made with bound := fun key w => (made.bound key w).trans (sources key w).symm }

end

/-! ## Invoked again -/

section

variable {i : RuleInvocation}

theorem exists_source_of_supplied {a : Attribute} (listed : a.name ∈ values.map Prod.fst) :
    ∃ v, a.source? values = some v ∧ (a.name, v) ∈ values := by
  have reversed : a.name ∈ values.reverse.map Prod.fst := by
    rwa [List.map_reverse, List.mem_reverse]
  rcases Option.isSome_iff_exists.mp (isSome_lookup_iff.mpr reversed) with ⟨v, found⟩
  refine ⟨v, ?_, List.mem_reverse.mp (mem_of_lookup found)⟩
  rw [Attribute.source?, found, Option.some_or]

theorem source?_of_omitted {a : Attribute} (left : a.name ∉ values.map Prod.fst) :
    a.source? values = a.default? := by
  have unsupplied : values.reverse.lookup a.name = none := by
    rwa [lookup_eq_none_iff, List.map_reverse, List.mem_reverse]
  rw [Attribute.source?, unsupplied, Option.none_or]

variable (distinct : (schema.attributes.map Attribute.name).Nodup)
include distinct

/-- Whatever an attribute is to have can be coerced, if the values are accepted. -/
theorem exists_coerced_of_source (accepts : schema.Accepts package? values) {a : Attribute}
    (member : a ∈ schema.attributes) {v : Value} (source : a.source? values = some v) :
    ∃ w, a.coerceSource v package? = .ok w := by
  by_cases listed : a.name ∈ values.map Prod.fst
  · rcases exists_source_of_supplied listed with ⟨v', source', supplied⟩
    cases source.symm.trans source'
    rcases accepts.supplied _ supplied with ⟨b, known, same, coerces⟩
    rwa [eq_of_name distinct known member same] at coerces
  · rw [source?_of_omitted listed] at source
    exact (accepts.omitted a member listed).2 v source

/-- The names that are bound are those that have been supplied and those of defaults. -/
theorem mem_keys_iff_of_instantiates (accepts : schema.Accepts package? values)
    (made : schema.Instantiates package? name values i) (key : String) :
    key ∈ i.attributesInput.keys ↔
      key ∈ values.map Prod.fst ∨
        ∃ a ∈ schema.omitted values, a.name = key ∧ a.default?.isSome = true := by
  rw [Dictionary.mem_keys_iff]
  constructor
  · rintro ⟨w, found⟩
    rcases (made.bound key w).mp found with ⟨a, member, rfl, v, source, _⟩
    by_cases listed : a.name ∈ values.map Prod.fst
    · exact .inl listed
    · rw [source?_of_omitted listed] at source
      exact .inr ⟨a, mem_omitted_iff.mpr ⟨member, listed⟩, rfl, by rw [source]; rfl⟩
  · intro origin
    have sourced : ∃ a ∈ schema.attributes, a.name = key ∧ ∃ v, a.source? values = some v := by
      rcases origin with listed | ⟨a, left, named, default⟩
      · rcases List.mem_map.mp listed with ⟨given, supplied, rfl⟩
        rcases accepts.supplied given supplied with ⟨a, member, named, _⟩
        rw [← named] at listed
        rcases exists_source_of_supplied listed with ⟨v, source, _⟩
        exact ⟨a, member, named, v, source⟩
      · rcases mem_omitted_iff.mp left with ⟨member, unlisted⟩
        rcases Option.isSome_iff_exists.mp default with ⟨v, default⟩
        exact ⟨a, member, named, v, by rw [source?_of_omitted unlisted, default]⟩
    rcases sourced with ⟨a, member, named, v, source⟩
    rcases exists_coerced_of_source distinct accepts member source with ⟨w, coerced⟩
    exact ⟨w, (made.bound key w).mpr ⟨a, member, named, v, source, coerced⟩⟩

/-- An attribute that nothing is bound to has neither been supplied nor a default. -/
theorem omitted_of_unbound (accepts : schema.Accepts package? values)
    (made : schema.Instantiates package? name values i) {a : Attribute}
    (member : a ∈ schema.attributes) (absent : i.attributesInput.get? a.name = none) :
    a.name ∉ values.map Prod.fst ∧ a.default? = none := by
  have nothing : ∀ v, a.source? values ≠ some v := by
    intro v sourced
    rcases exists_coerced_of_source distinct accepts member sourced with ⟨w, coerced⟩
    have bound := (made.bound a.name w).mpr ⟨a, member, rfl, v, sourced, coerced⟩
    cases absent.symm.trans bound
  have left : a.name ∉ values.map Prod.fst := by
    intro listed
    rcases exists_source_of_supplied listed with ⟨v, sourced, _⟩
    exact nothing v sourced
  rw [source?_of_omitted left] at nothing
  exact ⟨left, Option.eq_none_iff_forall_ne_some.mpr nothing⟩

/-- What has been bound is bound again to itself: a stored value has been coerced already, and a
default that has been filled in need not be filled in again. -/
theorem invoke_again (anchors : Attribute.Anchors package? (·.Stays package?))
    (made : schema.invoke name values package? = .ok i) :
    schema.invoke name i.attributesInput package? = .ok i := by
  rcases (invoke_eq_ok_iff distinct).mp made with ⟨named, accepts, determined⟩
  have once := determined.ordered.nodup
  have stored {a : Attribute} (member : a ∈ schema.attributes) {w : Value}
      (found : i.attributesInput.get? a.name = some w) : a.coerceSource w package? = .ok w := by
    rcases (determined.bound a.name w).mp found with ⟨b, known, same, v, _, coerced⟩
    rw [eq_of_name distinct known member same] at coerced
    exact Attribute.coerceSource_idempotent anchors coerced
  have source (a : Attribute) :
      a.source? i.attributesInput = (i.attributesInput.get? a.name).or a.default? := by
    rw [Attribute.source?, Dictionary.lookup_reverse once]
  refine (invoke_eq_ok_iff distinct).mpr ⟨named, ⟨?_, ?_⟩, { determined with bound := ?_ }⟩
  · rintro ⟨key, w⟩ listed
    have found : i.attributesInput.get? key = some w := lookup_of_mem once listed
    rcases (determined.bound key w).mp found with ⟨a, member, rfl, _⟩
    exact ⟨a, member, rfl, w, stored member found⟩
  · intro a member left
    have absent : i.attributesInput.get? a.name = none :=
      lookup_eq_none_iff.mpr left
    rcases omitted_of_unbound distinct accepts determined member absent with ⟨unlisted, without⟩
    refine ⟨(accepts.omitted a member unlisted).1, fun v default => ?_⟩
    cases without.symm.trans default
  · intro key w
    constructor
    · intro found
      rcases (determined.bound key w).mp found with ⟨a, member, rfl, _⟩
      exact ⟨a, member, rfl, w, by rw [source, found, Option.some_or], stored member found⟩
    · rintro ⟨a, member, rfl, v, sourced, coerced⟩
      rw [source] at sourced
      cases found : i.attributesInput.get? a.name with
      | some u =>
          rw [found, Option.some_or] at sourced
          cases sourced
          rw [stored member found] at coerced
          cases coerced
          rfl
      | none =>
          rw [found, Option.none_or,
            (omitted_of_unbound distinct accepts determined member found).2] at sourced
          cases sourced

end

/-! ## The schema and nothing else -/

/-- A rule class is accepted if its attributes have different names, and its invocations are those
that its schema describes. One is made exactly if the target has a name and nothing is wrong with
what is supplied or left out. Then each attribute is bound to the coerced value that was supplied
for it last, or else to its coerced default; supplying the default oneself comes to the same. What
is refused is the first supplied pair that is wrong or else the first attribute that may not be left
out. In no package or in one with a root, the bindings of an invocation yield the invocation
again. -/
theorem invocations_are_those_of_the_schema (reference : TypeRef) (attributes : List Attribute) :
    ((∃ schema, declare reference attributes = .ok schema) ↔
      (attributes.map Attribute.name).Nodup) ∧
    ∀ schema, declare reference attributes = .ok schema →
      ∀ (name : String) (values : List (String × Value)) (package? : Option Label),
        let outcome := schema.invoke name values package?
        ((∃ i, outcome = .ok i) ↔ name ≠ "" ∧ schema.Accepts package? values) ∧
        (∀ i, outcome = .ok i →
          schema.Instantiates package? name values i ∧
          ∀ key, key ∈ i.attributesInput.keys ↔
            key ∈ values.map Prod.fst ∨
              ∃ a ∈ schema.omitted values, a.name = key ∧ a.default?.isSome = true) ∧
        (∀ a ∈ schema.omitted values, ∀ v, a.default? = some v →
          ∀ front back, values = front ++ back →
            ∀ i, schema.invoke name (front ++ (a.name, v) :: back) package? = .ok i ↔
              outcome = .ok i) ∧
        (name ≠ "" → ∀ e, outcome = .error e ↔
          Success.FirstToFail (schema.Refuses package?) values e ∨
            (∀ given ∈ values, ∀ e', ¬ schema.Refuses package? given e') ∧
              Success.FirstToFail (schema.Misses package?) (schema.omitted values) e) ∧
        (∀ i, outcome = .ok i →
          (∀ package ∈ package?, package.WellFormed ∧ package.form ≠ .packageRelative) →
            schema.invoke name i.attributesInput package? = .ok i) := by
  constructor
  · simp only [declare_eq_ok_iff]
    exact ⟨fun ⟨_, distinct, _⟩ => distinct, fun distinct => ⟨_, distinct, rfl⟩⟩
  · intro schema declared name values package? outcome
    have distinct := nodup_of_declare declared
    refine ⟨exists_invoke_iff distinct, ?_, ?_, fun named e => invoke_eq_error_iff distinct named,
      ?_⟩
    · intro i made
      rcases (invoke_eq_ok_iff distinct).mp made with ⟨_, accepts, instantiates⟩
      exact ⟨instantiates, mem_keys_iff_of_instantiates distinct accepts instantiates⟩
    · rintro a omitted v default front back rfl i
      rcases mem_omitted_iff.mp omitted with ⟨member, left⟩
      exact invoke_supplied_default_iff distinct member default left
    · intro i made rooted
      refine invoke_again distinct ?_ made
      cases package? with
      | none => exact fun _ _ _ => trivial
      | some package =>
          rcases rooted package rfl with ⟨sound, rooted⟩
          exact Attribute.anchors_of_join (Label.join_stays sound rooted)

/-- The second value for the source is the one that counts, and the flags are left to their
default. -/
theorem invocations_are_those_of_the_schema_twice :
    let attributes : List Attribute :=
      [⟨"src", .file, none⟩, ⟨"flags", .any, some (.string "-O2")⟩]
    let schema : RuleSchema := ⟨PlainTarget.reference, attributes⟩
    let package : Label := ⟨"@ws//lib"⟩
    let values : List (String × Value) := [("src", .string "a.c"), ("src", .string "b.c")]
    let i : RuleInvocation :=
      ⟨"lib", PlainTarget.reference,
        [("flags", .string "-O2"), ("src", .label ⟨"@ws//lib:b.c"⟩)], []⟩
    declare PlainTarget.reference attributes = .ok schema ∧
    schema.invoke "lib" values (some package) = .ok i ∧
    schema.invoke "lib" (("flags", .string "-O2") :: values) (some package) = .ok i ∧
    schema.invoke "lib" i.attributesInput (some package) = .ok i := by
  intro attributes schema package values i
  have declared : declare PlainTarget.reference attributes = .ok schema := by rfl
  have made : schema.invoke "lib" values (some package) = .ok i := by
    unfold schema package values i attributes
    rfl
  rcases (invocations_are_those_of_the_schema PlainTarget.reference attributes).2 schema declared
    "lib" values (some package) with ⟨_, _, supplied, _, again⟩
  refine ⟨declared, made, (supplied ⟨"flags", .any, some (.string "-O2")⟩ ?_ _ rfl [] values rfl
    i).mpr made, again i made ?_⟩
  · exact mem_omitted_iff.mpr ⟨by simp [schema, attributes], by decide⟩
  · rintro _ ⟨⟩
    exact ⟨by decide, by decide⟩

end RuleSchema

end RuleAnalysis
