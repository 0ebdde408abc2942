import RuleAnalysis.Analysis.Work

namespace RuleAnalysis

/-!
# Programs with dependencies

A program may run other programs. Their trees are merged with its own into one
depmap, so that it finds them beside itself.
-/

namespace Executable

/-- The program with dependencies at hand: their trees are merged into its own, and their search
paths follow its own. -/
def withDependencies {ν : Type} (e : Executable) (dependencies : List Executable)
    (id : Option String) : Work ν Executable := do
  let trees := (e :: dependencies).filterMap Executable.context
  let context ← Work.build (trees.foldl Depmap.mergeTree (.empty id))
  return {
    name := none
    context := some context
    path := e.path
    searchPaths := e.searchPaths ++ dependencies.flatMap Executable.searchPaths
    librarySearchPaths := e.librarySearchPaths ++ dependencies.flatMap Executable.librarySearchPaths }

end Executable

end RuleAnalysis
