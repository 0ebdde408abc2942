import RuleAnalysis.Glob.Matching
import RuleAnalysis.Label.Error

namespace RuleAnalysis

/-!
# Glob sets

A glob set matches a filename if one of its patterns does. It is kept as the
texts of its patterns, each of which can be read.
-/

structure GlobSet where
  patterns : List String
  deriving DecidableEq, Repr

namespace GlobSet

/-- The set of the given patterns; the first malformed one is the fault. -/
def parse (patterns : List String) : Except LabelError GlobSet :=
  match patterns.find? fun pattern => (Glob.parse? pattern).isNone with
  | some pattern => .error (.invalidGlob pattern)
  | none => .ok ⟨patterns⟩

def isMatch (set : GlobSet) (item : String) : Bool :=
  set.patterns.any fun pattern =>
    (Glob.parse? pattern).any fun tokens => Glob.isMatch tokens item.toList

end GlobSet

end RuleAnalysis
