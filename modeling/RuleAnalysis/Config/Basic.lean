import RuleAnalysis.Value.Codec

namespace RuleAnalysis

/-!
# Build configurations

An option family is a set of options that exclude each other. A configuration
selects one option of each of some families, once for the target that is
built and once for the host on which tools run.
-/

structure ConfigOption where
  family : TypeRef
  option : TypeRef
  deriving DecidableEq, Repr

structure BuildConfig where
  options : List (TypeRef × TypeRef)
  hostOptions : List (TypeRef × TypeRef)
  deriving DecidableEq, Repr

namespace BuildConfig

/-- Selects an option: in the place of its family, or behind all others. -/
def select : List (TypeRef × TypeRef) → ConfigOption → List (TypeRef × TypeRef)
  | [], o => [(o.family, o.option)]
  | (family, option) :: rest, o =>
      if family = o.family then (family, o.option) :: rest
      else (family, option) :: select rest o

def ofOptions (options hostOptions : List ConfigOption) : BuildConfig :=
  ⟨options.foldl select [], hostOptions.foldl select []⟩

def get? (c : BuildConfig) (family : TypeRef) : Option TypeRef :=
  c.options.lookup family

def getHost? (c : BuildConfig) (family : TypeRef) : Option TypeRef :=
  c.hostOptions.lookup family

/-- Whether an option is selected for some family. -/
def isSelected (c : BuildConfig) (option : TypeRef) : Bool :=
  c.options.any fun entry => entry.2 = option

def set (c : BuildConfig) (o : ConfigOption) : BuildConfig :=
  { c with options := select c.options o }

/-- The configuration under which tools are analyzed. -/
def transitionToHost (c : BuildConfig) : BuildConfig :=
  ⟨c.hostOptions, c.hostOptions⟩

/-- The configuration that accompanies a request. -/
def forRequest (c : BuildConfig) (host : Bool) : BuildConfig :=
  if host then c.transitionToHost else c

def encodeOptions (options : List (TypeRef × TypeRef)) : Json :=
  .array (options.map fun entry => .array [entry.1.encode, entry.2.encode])

def encode (c : BuildConfig) : Json :=
  .object [("host_options", encodeOptions c.hostOptions), ("options", encodeOptions c.options)]

def decodeOptions : Decoder (List (TypeRef × TypeRef)) :=
  Decoder.list (Decoder.pair TypeRef.decode TypeRef.decode)

def decode : Decoder BuildConfig :=
  Decoder.record
    (.cons "options" .required decodeOptions
      (.cons "host_options" .required decodeOptions .nil))
    BuildConfig.mk

end BuildConfig

namespace Selection

/-- The value of the first option that is selected, or the default. -/
def resolve (s : Selection) (c : BuildConfig) : Value :=
  ((s.mapping.find? fun branch => c.isSelected branch.1).map Prod.snd).getD s.default

end Selection

end RuleAnalysis
