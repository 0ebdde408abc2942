import RuleAnalysis.Config.Basic

namespace RuleAnalysis

/-!
# Builtin option families

The families of options that the engine itself knows: compilation modes,
operating systems and processor architectures.
-/

inductive CompilationMode where
  | fastbuild
  | optimized
  | debug
  deriving DecidableEq, Repr

inductive Os where
  | linux
  | macOs
  | windows
  | wasi
  | unknown
  deriving DecidableEq, Repr

inductive Arch where
  | x86_64
  | aarch64
  | wasm32
  deriving DecidableEq, Repr

/-- A closed set of options: the file and the name that define it, its options in their order, and
their names. -/
class OptionFamily (α : Type) where
  source : String
  familyName : String
  all : List α
  qualifiedName : α → String

namespace OptionFamily

variable {α : Type} [OptionFamily α]

def family (α : Type) [OptionFamily α] : TypeRef :=
  .builtin (source α) (familyName α)

def reference (o : α) : TypeRef :=
  .builtin (source α) (qualifiedName o)

def option (o : α) : ConfigOption :=
  ⟨family α, reference o⟩

def ofReference? (r : TypeRef) : Option α :=
  all.find? fun o => reference o = r

def ofName? (name : String) : Option α :=
  all.find? fun o => qualifiedName o = name

end OptionFamily

instance : OptionFamily CompilationMode where
  source := "config"
  familyName := "CompilationMode"
  all := [.fastbuild, .optimized, .debug]
  qualifiedName
    | .fastbuild => "Fastbuild"
    | .optimized => "Optimized"
    | .debug => "Debug"

instance : OptionFamily Os where
  source := "platform"
  familyName := "Os"
  all := [.linux, .macOs, .windows, .wasi, .unknown]
  qualifiedName
    | .linux => "Linux"
    | .macOs => "MacOs"
    | .windows => "Windows"
    | .wasi => "Wasi"
    | .unknown => "UnknownOs"

instance : OptionFamily Arch where
  source := "platform"
  familyName := "Arch"
  all := [.x86_64, .aarch64, .wasm32]
  qualifiedName
    | .x86_64 => "X86_64"
    | .aarch64 => "Aarch64"
    | .wasm32 => "Wasm32"

namespace Os

def text : Os → String
  | linux => "linux"
  | macOs => "darwin"
  | windows => "windows"
  | wasi => "wasi"
  | unknown => "unknown"

end Os

namespace Arch

def text : Arch → String
  | x86_64 => "x86_64"
  | aarch64 => "aarch64"
  | wasm32 => "wasm32"

end Arch

/-- What a program is built for. -/
structure Platform where
  arch : Arch
  os : Os
  deriving DecidableEq, Repr

namespace Platform

def triple (p : Platform) : String :=
  p.arch.text ++ "-" ++ p.os.text

/-- The options that describe a platform. -/
def options (p : Platform) : List ConfigOption :=
  [OptionFamily.option p.os, OptionFamily.option p.arch]

end Platform

end RuleAnalysis
