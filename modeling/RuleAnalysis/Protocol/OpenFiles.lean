import RuleAnalysis.Analysis.Error

namespace RuleAnalysis

/-!
# Files that the host hands over

The host answers a request for a file by the number of a descriptor that it
has opened. What is behind the descriptor is text in UTF-8.
-/

/-- The contents behind the descriptors that have been handed over. -/
structure OpenFiles where
  contents : List (Int × List UInt8)

namespace OpenFiles

def empty : OpenFiles := ⟨[]⟩

/-- Hands over one more descriptor. -/
def insert (files : OpenFiles) (fileno : Int) (bytes : List UInt8) : OpenFiles :=
  ⟨(fileno, bytes) :: files.contents⟩

/-- The whole text behind a descriptor. -/
def text (files : OpenFiles) (fileno : Int) : Except ProtocolError String :=
  match files.contents.lookup fileno with
  | some bytes =>
      match String.fromUTF8? ⟨bytes.toArray⟩ with
      | some text => .ok text
      | none => .error (.fileHandle fileno "stream did not contain valid UTF-8")
  | none => .error (.fileHandle fileno "Bad file descriptor (os error 9)")

end OpenFiles

end RuleAnalysis
