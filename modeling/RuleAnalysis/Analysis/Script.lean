import RuleAnalysis.Analysis.Work

namespace RuleAnalysis

/-!
# Scripts

A script runs programs on a working tree. Behind every step the working tree
is the one before it with the step's outputs laid over it.
-/

/-- Programs that run one after another, each on the tree that the one before has left. -/
structure Script where
  environment : Dictionary String
  /-- The tree in which the next program works. -/
  tree : Option Label

namespace Script

/-- Records a program as the next step and yields its place. The tree it works in and what it puts
out make up the tree of the next step. -/
def run {ν : Type} (s : Script) (r : Run) : Work ν (Nat × Script) := do
  let r := { r with
    environment := Dictionary.override s.environment r.environment
    input := s.tree }
  let place ← Work.record (.ofData (.run r))
  let outputs ← Work.files place
  let trees := s.tree.toList ++ [outputs]
  let tree ← Work.build (trees.foldl Depmap.mergeTree (.empty none))
  return (place, { s with tree := some tree })

end Script

end RuleAnalysis
