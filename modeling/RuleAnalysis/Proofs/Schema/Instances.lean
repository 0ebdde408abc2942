import RuleAnalysis.Proofs.Schema.Bindings
import RuleAnalysis.Schema.Provider

namespace RuleAnalysis

/-!
# Instances of a provider schema

Whoever reads a provider relies on it that every declared field is there. An
instance is made in two rounds: the values that are given are taken in their
order, and then the fields that have none take their defaults in the order of
declaration. What comes out does not depend on either order. Only the fault
does: it is the first name that is not declared or else, when all given names
have been looked at, the first field that is missing.
-/

/-! ## Names that are all different -/

theorem firstRepeated?_search_eq_none_iff {before names : List String} :
    firstRepeated?.search before names = none ↔ names.Nodup ∧ ∀ name ∈ names, name ∉ before := by
  induction names generalizing before with
  | nil => simp [firstRepeated?.search]
  | cons name rest ih =>
      rw [firstRepeated?.search, List.nodup_cons, List.forall_mem_cons]
      by_cases seen : name ∈ before
      · simp [seen]
      · have unseen : before.contains name = false := by simpa using seen
        rw [unseen, if_neg Bool.false_ne_true, ih]
        simp only [List.mem_cons, not_or]
        constructor
        · rintro ⟨distinct, apart⟩
          have fresh : name ∉ rest := fun later => (apart name later).1 rfl
          exact ⟨⟨fresh, distinct⟩, seen, fun other later => (apart other later).2⟩
        · rintro ⟨⟨fresh, distinct⟩, _, apart⟩
          exact ⟨distinct, fun other later => ⟨ne_of_mem_of_not_mem later fresh, apart other later⟩⟩

/-- No name is repeated exactly if all are different. -/
theorem firstRepeated?_eq_none_iff {names : List String} :
    firstRepeated? names = none ↔ names.Nodup := by
  rw [firstRepeated?, firstRepeated?_search_eq_none_iff, and_iff_left]
  exact fun _ _ => List.not_mem_nil

namespace Field

/-- The value that the field is to have: the last one given under its name, or its default. -/
def source? (field : Field) (values : List (String × Value)) : Option Value :=
  (values.reverse.lookup field.name).or field.default?

end Field

namespace ProviderSchema

def names (schema : ProviderSchema) : List String :=
  schema.fields.map Field.name

/-- A schema is declared exactly if its fields have different names. -/
theorem declare_eq_ok_iff {reference : TypeRef} {fields : List Field} {schema : ProviderSchema} :
    declare reference fields = .ok schema ↔
      (fields.map Field.name).Nodup ∧ schema = ⟨reference, fields⟩ := by
  rw [← firstRepeated?_eq_none_iff, declare]
  cases firstRepeated? (fields.map Field.name) with
  | some name => exact iff_of_false nofun fun declared => nomatch declared.1
  | none => rw [Except.ok.injEq, eq_comm, and_iff_right rfl]

variable {schema : ProviderSchema} {values : List (String × Value)}

theorem declares_iff {name : String} : schema.declares name = true ↔ name ∈ schema.names := by
  rw [declares, List.any_eq_true, names, List.mem_map]
  simp only [decide_eq_true_eq]

/-! ## Two rounds -/

/-- What is wrong with a given pair: nothing declares its name. -/
def Refuses (schema : ProviderSchema) (given : String × Value) (e : SchemaError) : Prop :=
  given.1 ∉ schema.names ∧ e = .unknownField schema.reference.qualifiedName given.1

/-- What is wrong with leaving a field out: it has no default. -/
def Misses (schema : ProviderSchema) (field : Field) (e : SchemaError) : Prop :=
  field.default? = none ∧ e = .missingField schema.reference.qualifiedName field.name

/-- The fields that are left out, in the order of declaration. -/
def omitted (schema : ProviderSchema) (values : List (String × Value)) : List Field :=
  schema.fields.filter fun field => decide (field.name ∉ values.map Prod.fst)

theorem mem_omitted_iff {field : Field} :
    field ∈ schema.omitted values ↔ field ∈ schema.fields ∧ field.name ∉ values.map Prod.fst := by
  rw [omitted, List.mem_filter, decide_eq_true_iff]

/-- What a given pair is taken as. -/
def taken (schema : ProviderSchema) (given : String × Value) :
    Except SchemaError (String × Value) :=
  if schema.declares given.1 then .ok given
  else .error (.unknownField schema.reference.qualifiedName given.1)

/-- What is taken for a field that has been left out. -/
def fallback (provider : String) (field : Field) : Except SchemaError (Option (String × Value)) :=
  match field.default? with
  | some v => .ok (some (field.name, v))
  | none => .error (.missingField provider field.name)

theorem taken_eq_ok_iff {given bound : String × Value} :
    schema.taken given = .ok bound ↔ given.1 ∈ schema.names ∧ given = bound := by
  rw [taken, ← declares_iff]
  split
  · next declared => rw [Except.ok.injEq, and_iff_right declared]
  · next undeclared => exact iff_of_false nofun fun accepted => undeclared accepted.1

theorem taken_eq_error_iff {given : String × Value} {e : SchemaError} :
    schema.taken given = .error e ↔ schema.Refuses given e := by
  rw [taken, Refuses, ← declares_iff]
  split
  · next declared => exact iff_of_false nofun fun refused => refused.1 declared
  · next undeclared => rw [Except.error.injEq, and_iff_right undeclared, eq_comm]

theorem fallback_eq_ok_iff {provider : String} {field : Field} {bound : Option (String × Value)} :
    fallback provider field = .ok bound ↔
      ∃ v, field.default? = some v ∧ bound = some (field.name, v) := by
  unfold fallback
  cases field.default? with
  | none => exact iff_of_false nofun fun ⟨_, impossible, _⟩ => nomatch impossible
  | some v => simp [eq_comm]

theorem fallback_eq_error_iff {field : Field} {e : SchemaError} :
    fallback schema.reference.qualifiedName field = .error e ↔ schema.Misses field e := by
  unfold fallback Misses
  cases field.default? with
  | none => rw [Except.error.injEq, and_iff_right rfl, eq_comm]
  | some v => exact iff_of_false nofun fun missed => nomatch missed.1

theorem collect_eq (values : List (String × Value)) (d : Dictionary Value) :
    schema.collect values d = (values.mapM schema.taken).map d.override := by
  induction values generalizing d with
  | nil => rfl
  | cons given rest ih =>
      rcases given with ⟨name, v⟩
      rw [collect, List.mapM_cons, taken]
      cases schema.declares name with
      | false => rfl
      | true =>
          rw [if_pos rfl, if_pos rfl, ih]
          cases rest.mapM schema.taken <;> rfl

theorem complete_eq_fillIn (provider : String) (fields : List Field) (d : Dictionary Value) :
    complete provider fields d = Dictionary.fillIn Field.name (fallback provider) fields d := by
  induction fields generalizing d with
  | nil => rfl
  | cons field rest ih =>
      rw [complete, Dictionary.fillIn, fallback, ih]
      split
      · rfl
      · cases field.default? with
        | none => rfl
        | some v => exact ih (d.insert field.name v)

/-- The two rounds one after the other. -/
def instantiated (schema : ProviderSchema) (values : List (String × Value)) :
    Except SchemaError Provider := do
  let given ← values.mapM schema.taken
  let defaults ← (schema.omitted values).mapM (fallback schema.reference.qualifiedName)
  return ⟨schema.reference, (Dictionary.override [] given).override (defaults.filterMap id)⟩

/-- What has been taken is what has been given. -/
theorem eq_of_taken {given : List (String × Value)} (taken : values.mapM schema.taken = .ok given) :
    given = values := by
  rw [Success.mapM_eq_ok_iff] at taken
  rw [← List.forall₂_eq_eq_eq]
  exact (taken.imp fun _ _ same => (taken_eq_ok_iff.mp same).2).flip.imp fun _ _ same => same.symm

theorem instantiate_eq (distinct : schema.names.Nodup) :
    schema.instantiate values = schema.instantiated values := by
  have own : ∀ field bound, fallback schema.reference.qualifiedName field = .ok bound →
      ∀ binding ∈ bound, binding.1 = field.name := by
    rintro field bound filled binding ⟨⟩
    rcases fallback_eq_ok_iff.mp filled with ⟨v, _, same⟩
    cases same
    rfl
  rw [instantiate, instantiated, collect_eq]
  cases taken : values.mapM schema.taken with
  | error e => rfl
  | ok given =>
      have left : (schema.fields.filter fun field =>
          !(Dictionary.override [] given).contains field.name) = schema.omitted values := by
        apply List.filter_congr
        intro field _
        rw [Dictionary.contains_override_nil, eq_of_taken taken, decide_not]
      have completed := complete_eq_fillIn schema.reference.qualifiedName schema.fields
        (Dictionary.override [] given)
      rw [Dictionary.fillIn_eq own distinct, left] at completed
      change complete _ _ _ >>= _ = _
      rw [completed]
      cases (schema.omitted values).mapM (fallback schema.reference.qualifiedName) <;> rfl

/-! ## What is accepted -/

/-- All names are declared, and no field is left out that has no default. -/
structure Accepts (schema : ProviderSchema) (values : List (String × Value)) : Prop where
  given : ∀ given ∈ values, given.1 ∈ schema.names
  omitted : ∀ field ∈ schema.fields, field.default? = none → field.name ∈ values.map Prod.fst

/-- The instance that is made of values. Each field has the value that it is to have, and there is
nothing else in it. -/
structure Instantiates (schema : ProviderSchema) (values : List (String × Value)) (p : Provider) :
    Prop where
  reference : p.reference = schema.reference
  ordered : Dictionary.Ordered p.data
  bound : ∀ name v, p.get? name = some v ↔
    ∃ field ∈ schema.fields, field.name = name ∧ field.source? values = some v

/-- A provider of the type that has a value for each declared field, whatever it is, and for nothing
else. -/
structure Lists (schema : ProviderSchema) (p : Provider) : Prop where
  reference : p.reference = schema.reference
  ordered : Dictionary.Ordered p.data
  names : (Dictionary.keys p.data).Perm schema.names

theorem Lists.of_keys {p : Provider} (keys : List String) (listed : Dictionary.keys p.data = keys)
    (sorted : keys.Pairwise (· < ·)) (declared : keys.Perm schema.names)
    (reference : p.reference = schema.reference) : schema.Lists p := by
  subst listed
  exact ⟨reference, sorted, declared⟩

theorem Instantiates.unique {p q : Provider} (left : schema.Instantiates values p)
    (right : schema.Instantiates values q) : p = q := by
  have data : p.data = q.data := by
    apply left.ordered.ext right.ordered
    intro name
    apply Option.ext
    intro v
    exact (left.bound name v).trans (right.bound name v).symm
  rcases p with ⟨_, _⟩
  rcases q with ⟨_, _⟩
  rw [Provider.mk.injEq]
  exact ⟨left.reference.trans right.reference.symm, data⟩

theorem exists_taken_iff :
    (∃ given, values.mapM schema.taken = .ok given) ↔
      ∀ given ∈ values, given.1 ∈ schema.names := by
  rw [Success.exists_mapM_eq_ok_iff]
  simp only [taken_eq_ok_iff, exists_and_left, exists_eq', and_true]

theorem exists_defaults_iff :
    (∃ defaults, (schema.omitted values).mapM (fallback schema.reference.qualifiedName) =
        .ok defaults) ↔
      ∀ field ∈ schema.fields, field.default? = none → field.name ∈ values.map Prod.fst := by
  rw [Success.exists_mapM_eq_ok_iff]
  constructor
  · intro filled field member required
    by_contra left
    rcases filled field (mem_omitted_iff.mpr ⟨member, left⟩) with ⟨bound, taken⟩
    rcases fallback_eq_ok_iff.mp taken with ⟨v, default, _⟩
    cases required.symm.trans default
  · intro given field omitted
    rcases mem_omitted_iff.mp omitted with ⟨member, left⟩
    cases default : field.default? with
    | none => exact absurd (given field member default) left
    | some v => exact ⟨_, fallback_eq_ok_iff.mpr ⟨v, default, rfl⟩⟩

/-- One binding is filled in for each field that has been left out. -/
theorem keys_of_defaults {provider : String} {fields : List Field}
    {defaults : List (Option (String × Value))}
    (filled : List.Forall₂ (fun field bound => fallback provider field = .ok bound) fields defaults) :
    Dictionary.keys (defaults.filterMap id) = fields.map Field.name := by
  induction filled with
  | nil => rfl
  | cons first _ ih =>
      rcases fallback_eq_ok_iff.mp first with ⟨v, _, rfl⟩
      change _ :: Dictionary.keys _ = _
      rw [ih, List.map_cons]

/-- Every field of an instance has a value that it is to have. -/
theorem Accepts.exists_source (accepts : schema.Accepts values) {field : Field}
    (declared : field ∈ schema.fields) : ∃ v, field.source? values = some v := by
  rw [← Option.isSome_iff_exists, Field.source?, Option.isSome_or, Bool.or_eq_true,
    isSome_lookup_iff, List.map_reverse, List.mem_reverse]
  cases default : field.default? with
  | none => exact .inl (accepts.omitted field declared default)
  | some v => exact .inr rfl

section

variable (distinct : schema.names.Nodup)
include distinct

theorem eq_of_name {field other : Field} (left : field ∈ schema.fields)
    (right : other ∈ schema.fields) (same : field.name = other.name) : field = other :=
  List.inj_on_of_nodup_map distinct left right same

/-- An instance is made exactly of what the schema accepts. -/
theorem exists_instantiate_iff :
    (∃ p, schema.instantiate values = .ok p) ↔ schema.Accepts values := by
  rw [instantiate_eq distinct, instantiated]
  simp only [Success.bind_eq_ok_iff]
  constructor
  · rintro ⟨p, given, taken, defaults, filled, _⟩
    exact ⟨exists_taken_iff.mp ⟨given, taken⟩, exists_defaults_iff.mp ⟨defaults, filled⟩⟩
  · intro accepts
    rcases exists_taken_iff.mpr accepts.given with ⟨given, taken⟩
    rcases exists_defaults_iff.mpr accepts.omitted with ⟨defaults, filled⟩
    exact ⟨_, given, taken, defaults, filled, rfl⟩

/-- The first thing that is wrong is what the schema refuses. -/
theorem instantiate_eq_error_iff {e : SchemaError} :
    schema.instantiate values = .error e ↔
      Success.FirstToFail schema.Refuses values e ∨
        (∀ given ∈ values, given.1 ∈ schema.names) ∧
          Success.FirstToFail schema.Misses (schema.omitted values) e := by
  have missing (e' : SchemaError) :
      (schema.omitted values).mapM (fallback schema.reference.qualifiedName) = .error e' ↔
        Success.FirstToFail schema.Misses (schema.omitted values) e' := by
    rw [Success.mapM_eq_error_iff]
    simp only [fallback_eq_error_iff]
  rw [instantiate_eq distinct, instantiated, Success.bind_eq_error_iff, Success.mapM_eq_error_iff,
    ← exists_taken_iff]
  simp only [taken_eq_error_iff]
  refine or_congr_right ?_
  constructor
  · rintro ⟨given, taken, failed⟩
    rcases Success.bind_eq_error_iff.mp failed with failed | ⟨_, _, impossible⟩
    · exact ⟨⟨given, taken⟩, (missing e).mp failed⟩
    · cases impossible
  · rintro ⟨⟨given, taken⟩, missed⟩
    exact ⟨given, taken, Success.bind_eq_error_iff.mpr (.inl ((missing e).mpr missed))⟩

/-- A default that has been filled in is that of a field that has been left out. -/
theorem lookup_defaults {defaults : List (Option (String × Value))}
    (filled : (schema.omitted values).mapM (fallback schema.reference.qualifiedName) =
      .ok defaults) (name : String) (v : Value) :
    (defaults.filterMap id).reverse.lookup name = some v ↔
      ∃ field ∈ schema.omitted values, field.name = name ∧ field.default? = some v := by
  rw [Success.mapM_eq_ok_iff] at filled
  have once : (Dictionary.keys (defaults.filterMap id)).Nodup := by
    rw [keys_of_defaults filled]
    exact distinct.sublist (List.filter_sublist.map Field.name)
  rw [Dictionary.lookup_reverse once, Dictionary.get?, lookup_eq_some_iff once,
    List.mem_filterMap]
  constructor
  · rintro ⟨_, member, rfl⟩
    rcases Success.exists_left_of_forall₂ filled member with ⟨field, left, kept⟩
    rcases fallback_eq_ok_iff.mp kept with ⟨w, default, same⟩
    cases same
    exact ⟨field, left, rfl, default⟩
  · rintro ⟨field, left, rfl, default⟩
    rcases Success.exists_right_of_forall₂ filled left with ⟨bound, member, kept⟩
    rcases fallback_eq_ok_iff.mp kept with ⟨w, default', rfl⟩
    cases default.symm.trans default'
    exact ⟨_, member, rfl⟩

/-- An instance that is made is the one that the values determine. -/
theorem instantiates_of_instantiate {p : Provider} (made : schema.instantiate values = .ok p) :
    schema.Instantiates values p := by
  have accepts := (exists_instantiate_iff distinct).mp ⟨p, made⟩
  rw [instantiate_eq distinct] at made
  rcases Success.bind_eq_ok_iff.mp made with ⟨given, taken, made⟩
  rcases Success.bind_eq_ok_iff.mp made with ⟨defaults, filled, same⟩
  cases same
  cases eq_of_taken taken
  have before (name : String) :
      (Dictionary.override [] values).get? name = values.reverse.lookup name := by
    rw [Dictionary.get?_override]
    exact Option.or_none
  refine ⟨rfl, (Dictionary.ordered_nil.override values).override _, fun name v => ?_⟩
  have listed : (values.reverse.lookup name).isSome ↔ name ∈ values.map Prod.fst := by
    rw [isSome_lookup_iff, List.map_reverse, List.mem_reverse]
  change ((Dictionary.override [] values).override _).get? name = some v ↔ _
  rw [Dictionary.get?_override, before]
  cases supplied : values.reverse.lookup name with
  | some w =>
      have known := listed.mp (by rw [supplied]; rfl)
      have unfilled : (defaults.filterMap id).reverse.lookup name = none := by
        rw [Option.eq_none_iff_forall_ne_some]
        intro u found
        rcases (lookup_defaults distinct filled name u).mp found with ⟨field, left, rfl, _⟩
        exact (mem_omitted_iff.mp left).2 known
      rw [unfilled, Option.none_or]
      constructor
      · intro same
        rcases List.mem_map.mp known with ⟨binding, member, rfl⟩
        rcases List.mem_map.mp (accepts.given binding member) with ⟨field, declared, named⟩
        refine ⟨field, declared, named, ?_⟩
        rw [Field.source?, named, supplied, Option.some_or, same]
      · rintro ⟨field, _, rfl, source⟩
        rwa [Field.source?, supplied, Option.some_or] at source
  | none =>
      have left : name ∉ values.map Prod.fst := by
        rw [← listed, supplied]
        exact Bool.false_ne_true
      rw [Option.or_none, lookup_defaults distinct filled]
      constructor
      · rintro ⟨field, omitted, rfl, default⟩
        refine ⟨field, (mem_omitted_iff.mp omitted).1, rfl, ?_⟩
        rw [Field.source?, supplied, Option.none_or, default]
      · rintro ⟨field, declared, rfl, source⟩
        rw [Field.source?, supplied, Option.none_or] at source
        exact ⟨field, mem_omitted_iff.mpr ⟨declared, left⟩, rfl, source⟩

theorem instantiate_eq_ok_iff {p : Provider} :
    schema.instantiate values = .ok p ↔ schema.Accepts values ∧ schema.Instantiates values p := by
  constructor
  · intro made
    exact ⟨(exists_instantiate_iff distinct).mp ⟨p, made⟩, instantiates_of_instantiate distinct made⟩
  · rintro ⟨accepts, instantiates⟩
    rcases (exists_instantiate_iff distinct).mpr accepts with ⟨q, made⟩
    rw [instantiates.unique (instantiates_of_instantiate distinct made)]
    exact made

/-- Each field is bound to the value that it is to have. -/
theorem Instantiates.get?_eq {p : Provider} (made : schema.Instantiates values p) {field : Field}
    (declared : field ∈ schema.fields) : p.get? field.name = field.source? values := by
  apply Option.ext
  intro v
  rw [made.bound]
  constructor
  · rintro ⟨other, known, same, source⟩
    rwa [eq_of_name distinct known declared same] at source
  · exact fun source => ⟨field, declared, rfl, source⟩

/-- A provider that lists the declared fields is the instance that is made of what is in it. -/
theorem instantiate_data {p : Provider} (lists : schema.Lists p) :
    schema.instantiate p.data = .ok p := by
  have source (field : Field) (known : field ∈ schema.fields) :
      field.source? p.data = p.get? field.name := by
    have listed := lists.names.mem_iff.mpr (List.mem_map_of_mem known)
    rcases Dictionary.mem_keys_iff.mp listed with ⟨v, held⟩
    have found : p.get? field.name = some v := held
    rw [Field.source?, Dictionary.lookup_reverse lists.ordered.nodup, held, found, Option.some_or]
  rw [instantiate_eq_ok_iff distinct]
  refine ⟨⟨?_, ?_⟩, ⟨lists.reference, lists.ordered, fun name v => ⟨?_, ?_⟩⟩⟩
  · intro given member
    exact lists.names.mem_iff.mp (List.mem_map_of_mem member)
  · intro field known _
    exact lists.names.mem_iff.mpr (List.mem_map_of_mem known)
  · intro held
    have listed := Dictionary.mem_keys_iff.mpr ⟨v, held⟩
    rcases List.mem_map.mp (lists.names.mem_iff.mp listed) with ⟨field, known, rfl⟩
    exact ⟨field, known, rfl, (source field known).trans held⟩
  · rintro ⟨field, known, rfl, given⟩
    exact (source field known).symm.trans given

omit distinct in
/-- The names in an instance are those that the schema declares. -/
theorem Instantiates.mem_keys_iff {p : Provider} (made : schema.Instantiates values p)
    (accepts : schema.Accepts values) (name : String) :
    name ∈ Dictionary.keys p.data ↔ name ∈ schema.names := by
  rw [Dictionary.mem_keys_iff, names, List.mem_map]
  constructor
  · rintro ⟨v, found⟩
    rcases (made.bound name v).mp found with ⟨field, declared, named, _⟩
    exact ⟨field, declared, named⟩
  · rintro ⟨field, declared, named⟩
    rcases accepts.exists_source declared with ⟨v, source⟩
    exact ⟨v, (made.bound name v).mpr ⟨field, declared, named, source⟩⟩

end

/-! ## The schema and nothing else -/

/-- A provider type is accepted if its fields have different names, and its instances are those that
its schema describes. One is made exactly if every given name is declared and every field without a
default is given. It is an instance of the type and has the declared fields and no others, each with
the value that was given for it last, or else with its default. Otherwise the fault is that of the
first given name that is not declared or, if all are, of the first field that is missing. -/
theorem instances_are_those_of_the_schema (reference : TypeRef) (fields : List Field) :
    ((∃ schema, declare reference fields = .ok schema) ↔ (fields.map Field.name).Nodup) ∧
    ∀ schema, declare reference fields = .ok schema →
      schema.reference = reference ∧ schema.fields = fields ∧
      ∀ values : List (String × Value),
        let outcome := schema.instantiate values
        ((∃ p, outcome = .ok p) ↔
          (∀ given ∈ values, given.1 ∈ fields.map Field.name) ∧
          ∀ field ∈ fields, field.default? = none → field.name ∈ values.map Prod.fst) ∧
        (∀ p, outcome = .ok p →
          p.isInstanceOf reference = true ∧ Dictionary.Ordered p.data ∧
          (∀ name, name ∈ Dictionary.keys p.data ↔ name ∈ fields.map Field.name) ∧
          ∀ field ∈ fields,
            p.get? field.name = (values.reverse.lookup field.name).or field.default?) ∧
        ∀ e, outcome = .error e ↔
          Success.FirstToFail schema.Refuses values e ∨
            (∀ given ∈ values, given.1 ∈ fields.map Field.name) ∧
              Success.FirstToFail schema.Misses (schema.omitted values) e := by
  constructor
  · simp only [declare_eq_ok_iff]
    exact ⟨fun ⟨_, distinct, _⟩ => distinct, fun distinct => ⟨_, distinct, rfl⟩⟩
  · intro schema declared
    rcases declare_eq_ok_iff.mp declared with ⟨different, same⟩
    subst same
    have distinct : (names ⟨reference, fields⟩).Nodup := different
    refine ⟨rfl, rfl, fun values => ⟨?_, ?_, fun e => instantiate_eq_error_iff distinct⟩⟩
    · rw [exists_instantiate_iff distinct]
      exact ⟨fun accepts => ⟨accepts.given, accepts.omitted⟩, fun accepts => ⟨accepts.1, accepts.2⟩⟩
    · intro p made
      rcases (instantiate_eq_ok_iff distinct).mp made with ⟨accepts, instantiates⟩
      refine ⟨?_, instantiates.ordered, instantiates.mem_keys_iff accepts, ?_⟩
      · rw [Provider.isInstanceOf, decide_eq_true_iff]
        exact instantiates.reference
      · exact fun field known => instantiates.get?_eq distinct known

/-- The second value for the headers is the one that counts, and a name that is not declared is
refused before a field is missed. -/
theorem instances_are_those_of_the_schema_twice :
    let reference : TypeRef := .builtin "cc" "CcInfo"
    let fields : List Field := [⟨"headers", none⟩, ⟨"defines", some (.list [])⟩]
    let schema : ProviderSchema := ⟨reference, fields⟩
    let p : Provider := ⟨reference, [("defines", .list []), ("headers", .string "b.h")]⟩
    declare reference fields = .ok schema ∧
    schema.instantiate [("headers", .string "a.h"), ("headers", .string "b.h")] = .ok p ∧
    p.get? "headers" = some (.string "b.h") ∧
    schema.instantiate [("defines", .null), ("flags", .null)] =
      .error (.unknownField "CcInfo" "flags") := by
  intro reference fields schema p
  have declared : declare reference fields = .ok schema := rfl
  have made : schema.instantiate [("headers", .string "a.h"), ("headers", .string "b.h")] = .ok p :=
    rfl
  rcases (instances_are_those_of_the_schema reference fields).2 schema declared with ⟨_, _, each⟩
  refine ⟨declared, made, ((each _).2.1 p made).2.2.2 ⟨"headers", none⟩ List.mem_cons_self, ?_⟩
  apply ((each _).2.2 _).mpr
  refine .inl ⟨[("defines", .null)], ("flags", .null), [], rfl, ?_, by decide, rfl⟩
  rw [List.forall_mem_singleton]
  exact fun e refused => refused.1 (by decide)

end ProviderSchema
end RuleAnalysis
