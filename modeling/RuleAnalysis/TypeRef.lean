import RuleAnalysis.Json.Decoder
import RuleAnalysis.Label.Basic

namespace RuleAnalysis

/-!
# Type references

Rules, providers and options are identified by the source file that defines
them and by their name in it. Types are compared by reference, so definitions
that were loaded apart from each other still agree.
-/

structure TypeRef where
  sourceLabel : Label
  qualifiedName : String
  deriving DecidableEq, Repr

/-! ## Labels on the wire -/

namespace Label

def sentinel : String := "$trellis_label"

def encode (l : Label) : Json :=
  .object [(sentinel, .string l.text)]

def decode : Decoder Label := fun d => do
  let text ← Decoder.sentinel sentinel Decoder.string d
  Decoder.refusing LabelError.message (parse text)

end Label

namespace TypeRef

/-- A type that a file of the builtin workspace defines. -/
def builtin (file qualifiedName : String) : TypeRef :=
  ⟨Label.builtinFile file, qualifiedName⟩

def display (r : TypeRef) : String :=
  r.qualifiedName ++ " in " ++ r.sourceLabel.text

def encode (r : TypeRef) : Json :=
  .object [("qualname", .string r.qualifiedName), ("source_label", r.sourceLabel.encode)]

def decode : Decoder TypeRef :=
  Decoder.record
    (.cons "source_label" .required Label.decode
      (.cons "qualname" .required Decoder.string .nil))
    TypeRef.mk

end TypeRef

end RuleAnalysis
