import RuleAnalysis.Config.Family
import RuleAnalysis.Exec.Executable
import RuleAnalysis.Text.Replace

namespace RuleAnalysis

/-!
# Execution platforms

How actions are executed on a host: the layout of the sandbox on Linux, and
what is laid over the system elsewhere. Both travel as providers of builtin
types.
-/

structure LinuxExecutePlatform where
  executionSysroot : Label
  inputDestination : String
  outputDestination : String
  execContextDestination : String
  uid : Nat
  gid : Nat
  environment : Dictionary String
  useFuse : Bool
  useInterceptor : Bool
  deriving DecidableEq, Repr

namespace LinuxExecutePlatform

def reference : TypeRef := .builtin execSource "LinuxExecutePlatform"

def schema : ProviderSchema where
  reference := reference
  fields :=
    [⟨"execution_sysroot", none⟩, ⟨"execution_sysroot_input_dest", none⟩,
      ⟨"execution_sysroot_output_dest", none⟩, ⟨"execution_sysroot_exec_context_dest", none⟩,
      ⟨"uid", none⟩, ⟨"gid", none⟩, ⟨"standard_environment_variables", none⟩,
      ⟨"use_fuse", some (.bool true)⟩, ⟨"use_interceptor", some (.bool true)⟩]

def ofProvider (p : Provider) : Except SchemaError LinuxExecutePlatform := do
  checkType p reference
  let executionSysroot ← p.field Reader.label "execution_sysroot"
  let inputDestination ← p.field Reader.string "execution_sysroot_input_dest"
  let outputDestination ← p.field Reader.string "execution_sysroot_output_dest"
  let execContextDestination ← p.field Reader.string "execution_sysroot_exec_context_dest"
  let uid ← p.field Reader.natural "uid"
  let gid ← p.field Reader.natural "gid"
  let environment ← p.field Reader.string.dictionary "standard_environment_variables"
  let useFuse ← p.field Reader.bool.optional "use_fuse"
  let useInterceptor ← p.field Reader.bool.optional "use_interceptor"
  return {
    executionSysroot, inputDestination, outputDestination, execContextDestination, uid, gid,
    environment
    useFuse := useFuse.getD true
    useInterceptor := useInterceptor.getD true }

def toProvider (l : LinuxExecutePlatform) : Provider where
  reference := reference
  data :=
    [("execution_sysroot", .label l.executionSysroot),
      ("execution_sysroot_exec_context_dest", .string l.execContextDestination),
      ("execution_sysroot_input_dest", .string l.inputDestination),
      ("execution_sysroot_output_dest", .string l.outputDestination),
      ("gid", .number (.integer l.gid)),
      ("standard_environment_variables",
        .map (l.environment.map fun entry => (entry.1, .string entry.2))),
      ("uid", .number (.integer l.uid)),
      ("use_fuse", .bool l.useFuse),
      ("use_interceptor", .bool l.useInterceptor)]

/-- The marker of the directory in which a sandboxed action finds its input. -/
def sourceMarker : String := "%[srcdir]"

/-- The marker of the directory in which a sandboxed action finds its program's tree. -/
def execMarker : String := "%[execdir]"

/-- Puts the directories of the sandbox in the place of their markers, one marker after the
other. -/
def substitute (l : LinuxExecutePlatform) (text : String) : String :=
  Text.replaceAll (Text.replaceAll text sourceMarker l.inputDestination) execMarker
    l.execContextDestination

end LinuxExecutePlatform

/-- On macOS actions run without a sandbox of their own. -/
structure MacOsExecutePlatform where
  /-- The tree that is laid over the system for every action. -/
  executionSysrootExtra : Label
  deriving DecidableEq, Repr

namespace MacOsExecutePlatform

def reference : TypeRef := .builtin execSource "MacOSExecutePlatform"

def schema : ProviderSchema where
  reference := reference
  fields := [⟨"execution_sysroot_extra", none⟩]

def ofProvider (p : Provider) : Except SchemaError MacOsExecutePlatform := do
  checkType p reference
  return ⟨← p.field Reader.label "execution_sysroot_extra"⟩

def toProvider (m : MacOsExecutePlatform) : Provider where
  reference := reference
  data := [("execution_sysroot_extra", .label m.executionSysrootExtra)]

end MacOsExecutePlatform

namespace Os

/-- The provider type that describes execution on a system, if there is one. -/
def executePlatform? : Os → Option TypeRef
  | linux => some LinuxExecutePlatform.reference
  | macOs => some MacOsExecutePlatform.reference
  | windows => none
  | wasi => none
  | unknown => none

end Os

end RuleAnalysis
