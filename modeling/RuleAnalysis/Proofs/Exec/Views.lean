import RuleAnalysis.Exec.Platform
import RuleAnalysis.Proofs.Schema.Instances
import RuleAnalysis.Proofs.Value.Shapes
import RuleAnalysis.Proofs.Wire.Work

namespace RuleAnalysis

/-!
# Typed views of builtin providers

An executable or an execution platform travels as a provider. Its schema, the
function that writes it and the one that reads it list the fields three times.
They agree if the three lists have the same names, the defaults have the shapes
that are read, and what is written is read back. All else follows from this: an
instance of the schema can be read if its values have the right shapes, whoever
made it.
-/

/-- A type whose values are written as providers of a schema and read from them. -/
structure View (α : Type) where
  schema : ProviderSchema
  /-- What the value of each field has to look like. -/
  shapes : List (String × Shape)
  /-- The values that there are. The numbers of some types have a bound. -/
  Sound : α → Prop
  toProvider : α → Provider
  ofProvider : Provider → Except SchemaError α

namespace View

variable {α : Type} {view : View α}

/-- The fields of a provider are all there and have the right shapes. -/
def Shows (view : View α) (p : Provider) : Prop :=
  ∀ entry ∈ view.shapes, ∃ v, p.get? entry.1 = some v ∧ entry.2.Admits v

/-- Where a value is given for a field, the last one has the right shape. -/
def Fits (view : View α) (values : List (String × Value)) : Prop :=
  ∀ entry ∈ view.shapes, ∀ v, values.reverse.lookup entry.1 = some v → entry.2.Admits v

/-- What a provider of another type is refused with. -/
def wrongType (p : Provider) : SchemaError :=
  .wrongShape ("provider " ++ p.reference.display) "provider of a builtin execution type" "provider"

/-- The schema, the writer and the reader list the same fields. -/
structure Laws (view : View α) : Prop where
  distinct : view.schema.names.Nodup
  /-- A default stands in for a value, so it has the shape that is read. -/
  shaped : List.Forall₂ (fun field entry => entry.1 = field.name ∧
    ∀ v, field.default? = some v → entry.2.Admits v) view.schema.fields view.shapes
  written : ∀ x, view.schema.Lists (view.toProvider x)
  back : ∀ x, view.Sound x → view.ofProvider (view.toProvider x) = .ok x
  sound : ∀ p x, view.ofProvider p = .ok x → view.Sound x
  readable : ∀ p, (∃ x, view.ofProvider p = .ok x) ↔
    p.reference = view.schema.reference ∧ view.Shows p
  foreign : ∀ p, p.reference ≠ view.schema.reference → view.ofProvider p = .error (wrongType p)

/-- The providers that are written and those that can be read are the instances of the schema. -/
structure Agrees (view : View α) : Prop where
  /-- The schema is one that can be declared. -/
  declared :
    ProviderSchema.declare view.schema.reference view.schema.fields = .ok view.schema
  /-- What is written is read back. -/
  back : ∀ x, view.Sound x → view.ofProvider (view.toProvider x) = .ok x
  /-- What is written has the fields of the schema and no others. -/
  fields : ∀ x name,
    name ∈ Dictionary.keys (view.toProvider x).data ↔ name ∈ view.schema.names
  /-- What is written is the instance that the schema makes of its data. -/
  remade : ∀ x, view.schema.instantiate (view.toProvider x).data = .ok (view.toProvider x)
  /-- Instances that are made of fitting values can be read, and what is read from them can be
  written and is read back. -/
  read : ∀ values p, view.schema.instantiate values = .ok p → view.Fits values →
    ∃ x, view.ofProvider p = .ok x ∧ view.ofProvider (view.toProvider x) = .ok x
  /-- Nothing else can be read than providers of the type with fields of the right shapes. -/
  readable : ∀ p, (∃ x, view.ofProvider p = .ok x) ↔
    p.reference = view.schema.reference ∧ view.Shows p
  /-- A provider of another type is refused for its type. -/
  foreign : ∀ p, p.reference ≠ view.schema.reference → view.ofProvider p = .error (wrongType p)

namespace Laws

/-- An instance has every field in the right shape if the values do that were given for it: the
others are defaults. -/
theorem shows_of_instantiate (laws : view.Laws) {values : List (String × Value)} {p : Provider}
    (made : view.schema.instantiate values = .ok p) (fits : view.Fits values) : view.Shows p := by
  rcases (ProviderSchema.instantiate_eq_ok_iff laws.distinct).mp made with ⟨accepts, instantiates⟩
  rintro ⟨name, shape⟩ listed
  rcases Success.exists_left_of_forall₂ laws.shaped listed with ⟨field, declared, same, default⟩
  cases same
  rcases accepts.exists_source declared with ⟨v, source⟩
  refine ⟨v, (instantiates.get?_eq laws.distinct declared).trans source, ?_⟩
  rcases Option.or_eq_some_iff.mp source with given | ⟨_, left⟩
  · exact fits _ listed v given
  · exact default v left

theorem agrees (laws : view.Laws) : view.Agrees where
  declared := ProviderSchema.declare_eq_ok_iff.mpr ⟨laws.distinct, rfl⟩
  back := laws.back
  fields x name := (laws.written x).names.mem_iff
  remade x := ProviderSchema.instantiate_data laws.distinct (laws.written x)
  read values p made fits := by
    have type := ((ProviderSchema.instantiate_eq_ok_iff laws.distinct).mp made).2.reference
    rcases (laws.readable p).mpr ⟨type, laws.shows_of_instantiate made fits⟩ with ⟨x, read⟩
    exact ⟨x, read, laws.back x (laws.sound p x read)⟩
  readable := laws.readable
  foreign := laws.foreign

end Laws
end View

/-! ## The check of the type -/

theorem checkType_eq_ok_iff {p : Provider} {expected : TypeRef} :
    (∃ done, checkType p expected = .ok done) ↔ p.reference = expected := by
  rw [checkType, Provider.isInstanceOf]
  constructor
  · rintro ⟨_, done⟩
    by_contra differs
    rw [if_neg (by simpa using differs)] at done
    cases done
  · intro same
    exact ⟨(), if_pos (decide_eq_true same)⟩

/-- Whatever is done after the check, a provider of another type is refused for its type. -/
theorem checkType_bind_of_ne {α : Type} {p : Provider} {expected : TypeRef}
    (differs : p.reference ≠ expected) (next : Unit → Except SchemaError α) :
    (checkType p expected >>= next) = .error (View.wrongType p) := by
  rw [checkType, Provider.isInstanceOf, if_neg (by simpa using differs)]
  rfl

/-! ## The three types -/

namespace Executable

def view : View Executable where
  schema := schema
  shapes :=
    [("name", .optional .text), ("context", .optional .label), ("executable_path", .text),
      ("search_paths", .optional (.list .text)), ("library_search_paths", .optional (.list .text))]
  Sound _ := True
  toProvider := toProvider
  ofProvider := ofProvider

theorem exists_ofProvider_iff (p : Provider) :
    (∃ e, ofProvider p = .ok e) ↔ p.reference = reference ∧ view.Shows p := by
  simp only [ofProvider, Success.exists_bind_eq_ok_iff, Success.exists_pure_eq_ok_iff, and_true,
    exists_and_right, checkType_eq_ok_iff, Provider.exists_field_iff Reader.string_reads,
    Provider.exists_field_iff Reader.string_reads.optional,
    Provider.exists_field_iff Reader.label_reads.optional,
    Provider.exists_field_iff Reader.string_reads.list.optional, View.Shows, view,
    List.forall_mem_cons, List.not_mem_nil, false_imp_iff, implies_true]

theorem view_laws : view.Laws where
  distinct := by decide
  shaped := by simp [view, schema, Shape.Admits]
  written _ := .of_keys
    ["context", "executable_path", "library_search_paths", "name", "search_paths"]
    rfl (by decide) (by decide) rfl
  back e _ := ofProvider_toProvider e
  sound _ _ _ := trivial
  readable := exists_ofProvider_iff
  foreign _ differs := checkType_bind_of_ne differs _

end Executable

namespace LinuxExecutePlatform

def view : View LinuxExecutePlatform where
  schema := schema
  shapes :=
    [("execution_sysroot", .label), ("execution_sysroot_input_dest", .text),
      ("execution_sysroot_output_dest", .text), ("execution_sysroot_exec_context_dest", .text),
      ("uid", .natural), ("gid", .natural), ("standard_environment_variables", .dictionary .text),
      ("use_fuse", .optional .flag), ("use_interceptor", .optional .flag)]
  Sound l := l.uid < UInt32.size ∧ l.gid < UInt32.size
  toProvider := toProvider
  ofProvider := ofProvider

theorem ofProvider_toProvider {l : LinuxExecutePlatform} (sound : view.Sound l) :
    ofProvider l.toProvider = .ok l := by
  have type : checkType l.toProvider reference = .ok () := if_pos (decide_eq_true rfl)
  simp only [ofProvider, Success.bind_eq_ok_iff, Provider.field_eq_ok_iff]
  exact ⟨(), type, l.executionSysroot, ⟨_, rfl, rfl⟩, l.inputDestination, ⟨_, rfl, rfl⟩,
    l.outputDestination, ⟨_, rfl, rfl⟩, l.execContextDestination, ⟨_, rfl, rfl⟩,
    l.uid, ⟨_, rfl, Reader.natural_read?_eq_some_iff.mpr ⟨sound.1, rfl⟩⟩,
    l.gid, ⟨_, rfl, Reader.natural_read?_eq_some_iff.mpr ⟨sound.2, rfl⟩⟩,
    l.environment, ⟨_, rfl, Reader.dictionary_read?_map (fun _ => rfl) _⟩,
    some l.useFuse, ⟨_, rfl, rfl⟩, some l.useInterceptor, ⟨_, rfl, rfl⟩, rfl⟩

theorem sound_of_ofProvider {p : Provider} {l : LinuxExecutePlatform}
    (read : ofProvider p = .ok l) : view.Sound l := by
  simp only [ofProvider, Success.bind_eq_ok_iff, Provider.field_eq_ok_iff,
    Reader.natural_read?_eq_some_iff] at read
  rcases read with ⟨_, _, _, _, _, _, _, _, _, _, uid, ⟨_, _, small, _⟩, gid, ⟨_, _, small', _⟩,
    _, _, _, _, _, _, same⟩
  cases same
  exact ⟨small, small'⟩

theorem exists_ofProvider_iff (p : Provider) :
    (∃ l, ofProvider p = .ok l) ↔ p.reference = reference ∧ view.Shows p := by
  simp only [ofProvider, Success.exists_bind_eq_ok_iff, Success.exists_pure_eq_ok_iff, and_true,
    exists_and_right, checkType_eq_ok_iff, Provider.exists_field_iff Reader.label_reads,
    Provider.exists_field_iff Reader.string_reads, Provider.exists_field_iff Reader.natural_reads,
    Provider.exists_field_iff Reader.string_reads.dictionary,
    Provider.exists_field_iff Reader.bool_reads.optional, View.Shows, view,
    List.forall_mem_cons, List.not_mem_nil, false_imp_iff, implies_true]

theorem view_laws : view.Laws where
  distinct := by decide
  shaped := by simp [view, schema, Shape.Admits]
  written _ := .of_keys
    ["execution_sysroot", "execution_sysroot_exec_context_dest", "execution_sysroot_input_dest",
      "execution_sysroot_output_dest", "gid", "standard_environment_variables", "uid", "use_fuse",
      "use_interceptor"]
    rfl (by decide) (by decide) rfl
  back _ := ofProvider_toProvider
  sound _ _ := sound_of_ofProvider
  readable := exists_ofProvider_iff
  foreign _ differs := checkType_bind_of_ne differs _

end LinuxExecutePlatform

namespace MacOsExecutePlatform

def view : View MacOsExecutePlatform where
  schema := schema
  shapes := [("execution_sysroot_extra", .label)]
  Sound _ := True
  toProvider := toProvider
  ofProvider := ofProvider

theorem ofProvider_toProvider (m : MacOsExecutePlatform) : ofProvider m.toProvider = .ok m := by
  have type : checkType m.toProvider reference = .ok () := if_pos (decide_eq_true rfl)
  simp only [ofProvider, Success.bind_eq_ok_iff, Provider.field_eq_ok_iff]
  exact ⟨(), type, m.executionSysrootExtra, ⟨_, rfl, rfl⟩, rfl⟩

theorem exists_ofProvider_iff (p : Provider) :
    (∃ m, ofProvider p = .ok m) ↔ p.reference = reference ∧ view.Shows p := by
  simp only [ofProvider, Success.exists_bind_eq_ok_iff, Success.exists_pure_eq_ok_iff, and_true,
    exists_and_right, checkType_eq_ok_iff, Provider.exists_field_iff Reader.label_reads,
    View.Shows, view, List.forall_mem_cons, List.not_mem_nil, false_imp_iff, implies_true]

theorem view_laws : view.Laws where
  distinct := by decide
  shaped := by simp [view, schema]
  written _ := .of_keys ["execution_sysroot_extra"] rfl (by decide) (by decide) rfl
  back m _ := ofProvider_toProvider m
  sound _ _ _ := trivial
  readable := exists_ofProvider_iff
  foreign _ differs := checkType_bind_of_ne differs _

end MacOsExecutePlatform

namespace View

/-- Executables and the platforms of both systems agree with their schemas. -/
theorem builtin_views_agree : Executable.view.Agrees ∧ LinuxExecutePlatform.view.Agrees ∧
    MacOsExecutePlatform.view.Agrees :=
  ⟨Executable.view_laws.agrees, LinuxExecutePlatform.view_laws.agrees,
    MacOsExecutePlatform.view_laws.agrees⟩

/-- The first path of the program is no text, but it is not the one that counts. One list of paths
is given as null, the other is left out. -/
theorem builtin_views_agree_given_twice :
    let view := Executable.view
    let values : List (String × Value) :=
      [("executable_path", .null), ("search_paths", .null), ("executable_path", .string "bin/cc")]
    ∃ p, view.schema.instantiate values = .ok p ∧ view.Fits values ∧
      ∃ e, view.ofProvider p = .ok e ∧ view.ofProvider (view.toProvider e) = .ok e := by
  intro view values
  have fits : view.Fits values := by
    simp [view, values, Fits, Executable.view, List.lookup_cons, Shape.Admits]
  exact ⟨_, rfl, fits, builtin_views_agree.1.read values _ rfl fits⟩

end View
end RuleAnalysis
