import RuleAnalysis.Analysis.Routine
import RuleAnalysis.Rule.Resolution

namespace RuleAnalysis

/-!
# Work on a context

Routines are written in terms of work that yields a result or fails. Work is a
function of what is to be done with the result or the failure; work that
follows other work is done only if that has succeeded.
-/

def Work (ν α : Type) : Type :=
  (Except AnalysisError α → Routine ν) → Routine ν

namespace Work

variable {ν α β : Type}

instance : Monad (Work ν) where
  pure a := fun next => next (.ok a)
  bind work more := fun next =>
    work fun
      | .ok a => more a next
      | .error e => next (.error e)

/-- The routine that does the work and ends with its value. -/
def routine (work : Work ν Value) : Routine ν := work .finish

def ofExcept (result : Except AnalysisError α) : Work ν α := fun next => next result

def fail (e : AnalysisError) : Work ν α := ofExcept (.error e)

/-- Goes on in another way if the work fails. -/
def orElse (work : Work ν α) (otherwise : AnalysisError → Work ν α) : Work ν α := fun next =>
  work fun
    | .ok a => next (.ok a)
    | .error e => otherwise e next

/-! ## What is at hand -/

def desk : Work ν (Desk ν) := fun next => .inspect fun d => next (.ok d)

def context : Work ν Context := fun next => .inspect fun d => next (.ok d.context)

/-- Changes the notes of the routine. -/
def note (change : ν → ν) : Work ν Unit := fun next =>
  .inspect fun d => .note (change d.notes) (next (.ok ()))

/-- The text behind a descriptor that the host has handed over. -/
def fileText (fileno : Int) : Work ν String := do
  ofExcept (((← desk).files.text fileno).mapError .protocol)

/-! ## Asking the host -/

def ask (q : Query) (read : Answer α) : Work ν α := fun next =>
  .ask q fun response => next (read response)

/-- Opens a source file; a relative label is resolved against the package of the target. -/
def openSource (l : Label) : Work ν Int := do
  let l := (← context).package.join l
  let q := Query.labelOpen l
  ask q (Answer.file q (.fileNotFound l.text))

def sourceText (l : Label) : Work ν String := do
  fileText (← openSource l)

def loadProviders (target : Label) (host : Bool) : Work ν (List Provider) := do
  let q := Query.loadProviders target ((← context).config.forRequest host)
  ask q (Answer.providers q)

/-- The one provider of a type that a target yields. -/
def resolveProvider (type : TypeRef) (target : Label) (host : Bool) : Work ν Provider := do
  ofExcept (singleProvider type target (← loadProviders target host))

/-- The first executable of a name. Executables ahead of it must be well formed. -/
def firstExecutable (target : Label) (name : String) :
    List Provider → Except AnalysisError Executable
  | [] => .error (.resolve (.noMatchingExecutable target.text name))
  | p :: rest =>
      if p.isInstanceOf Executable.reference then
        match Executable.ofProvider p with
        | .error e => .error (.schema e)
        | .ok e => if e.name = some name then .ok e else firstExecutable target name rest
      else firstExecutable target name rest

def resolveExecutable (target : Label) (name : String) (host : Bool) : Work ν Executable := do
  ofExcept (firstExecutable target name (← loadProviders target host))

/-- The provider that is registered globally for a type. -/
def resolveGlobalProvider (type : TypeRef) (host : Bool) : Work ν Provider := do
  let q := Query.loadGlobalProvider type ((← context).config.forRequest host)
  ask q (Answer.globalProvider q type)

/-- A question that is answered by yes or no. -/
def probe (q : Query) : Work ν Bool := ask q (Answer.truth q)

/-- Puts the directories of the host's sandbox in the place of their markers. -/
def substituteForExecution (text : String) : Work ν String := do
  let p ← resolveGlobalProvider LinuxExecutePlatform.reference true
  let platform ← ofExcept ((LinuxExecutePlatform.ofProvider p).mapError .schema)
  return platform.substitute text

def openDepmapFile (depmap : String) (path : LabelPath) : Work ν Int :=
  let q := Query.depmapFileOpen depmap path
  ask q (Answer.file q (.depmapFileNotFound depmap path.text))

def readDepmapFile (depmap : String) (path : LabelPath) : Work ν String := do
  fileText (← openDepmapFile depmap path)

def listDepmapDirectory (depmap : String) (path : LabelPath) : Work ν (List LabelPath) :=
  let q := Query.depmapDirectoryList depmap path
  ask q (Answer.filenames q (.depmapDirectoryNotFound depmap path.text))

/-- Opens what a program has written, if it was captured. -/
def openContent : Option String → Work ν (Option Int)
  | none => pure none
  | some hash => do
      let q := Query.contentRefOpen hash
      return some (← ask q (Answer.content q))

/-! ## Actions -/

/-- Records an action and yields its place. -/
def record (a : Action) : Work ν Nat := fun next =>
  .record a fun place => next (.ok place)

def identify (place : Nat) : Work ν String := fun next => .identify place next

/-- The address of the tree that an action puts out. -/
def files (place : Nat) : Work ν Label := fun next => .locate place next

def await (place : Nat) : Work ν ActionOutput := fun next => .await place next

/-- Records a depmap and yields the address of its tree. -/
def build (depmap : Depmap) : Work ν Label := fun next =>
  .build depmap fun tree => next (.ok tree)

/-- Records that a label is to be analyzed under other options, on top of this target's
configuration or of the host's. -/
def transition (l : Label) (changed : List ConfigOption) (host : Bool) : Work ν Nat := do
  let c ← context
  let base := if host then c.config.hostOptions else []
  record (.ofData (.transition ⟨l, base ++ changed.map fun o => (o.family, o.option)⟩))

/-! ## Results -/

/-- Declares a target that the analysis has come upon, and yields its label. -/
def declareTarget (rule : RuleSchema) (name : String) (values : List (String × Value)) :
    Work ν Label := do
  let invocation ← ofExcept ((rule.invoke name values none).mapError .schema)
  let target ← ofExcept (((← context).label.joinText name).mapError .label)
  fun next => .declare invocation (next (.ok target))

def provide (p : Provider) : Work ν Unit := fun next => .provide p (next (.ok ()))

/-! ## Groups -/

/-- Does work together. Every member comes to its end; then the first failure in the order of
submission is the failure of all. -/
def gather (members : List (Work ν Value)) : Work ν (List Value) := fun next =>
  .gather (members.map routine) fun outcomes => next (gathered outcomes)

/-- Does work together that has names. The names are kept. -/
def gatherMap (members : List (String × Work ν Value)) : Work ν (List (String × Value)) := do
  return (members.map Prod.fst).zip (← gather (members.map Prod.snd))

end Work

end RuleAnalysis
