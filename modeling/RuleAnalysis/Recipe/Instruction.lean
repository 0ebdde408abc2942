import RuleAnalysis.Analysis.Dependencies
import RuleAnalysis.Analysis.Script
import RuleAnalysis.Recipe.Spec

namespace RuleAnalysis
namespace Recipe

/-!
# Instructions

An instruction is one thing that a recipe does to the context of a target. It
yields a value that tells what has come of it. Actions are named when they are
recorded and referred to by their names.
-/

/-- The places of the actions that have been named. -/
abbrev Notes := Dictionary Nat

inductive Instruction where
  | readAttribute (name : String)
  | readAttributeAs (name : String) (reader : Reader Value)
  | info
  | options (host : Bool)
  | sourceText (label : String)
  | openSource (label : String)
  | loadProviders (target : String) (host : Bool)
  | resolveProvider (type : TypeSpec) (target : String) (host : Bool)
  | resolveExecutable (target name : String) (host : Bool)
  | globalProvider (type : TypeSpec) (host : Bool)
  | fileExists (label : String)
  | isFile (label : String)
  | targetExists (label : String)
  | substitute (text : String)
  /-- Records an action with a name, id and message of its own, under a name. -/
  | action (name : String) (a : ActionSpec)
  /-- Records an action that does some work, under a name. -/
  | record (name : String) (data : DataSpec)
  | transition (name label : String) (changedOptions : List OptionSpec) (host : Bool)
  | identify (name : String)
  | files (name : String)
  /-- Looks at an action as it is, without preparing it. -/
  | peek (name : String)
  | output (name : String) (read : Bool)
  /-- Builds a depmap of entries, some of which have a path. -/
  | depmap (id : Option String) (entries : List (Option String × EntrySpec))
  | readDepmap (hash path : String)
  | listDepmap (hash path : String)
  | script (input : Option String) (environment : Dictionary String) (steps : List RunSpec)
  | addDependencies (executable : ExecutableSpec) (dependencies : List ExecutableSpec)
      (id : Option String)
  | declareTarget (rule : RuleSpec) (name : String) (values : List (String × Json))
  | provide (p : Json)
  | fail (message : String)

abbrev Doing := Work Notes

open Work (ofExcept)

/-- Records an action under a name; the value is its kind. -/
def recordAs (name : String) (a : Action) : Doing Value := do
  let place ← Work.record a
  Work.note (·.insert name place)
  return .string a.data.kind

/-- The place of the action that bears a name. -/
def named (name : String) : Doing Nat := do
  match (← Work.desk).notes.get? name with
  | some place => return place
  | none => Work.fail (.rule "no such action")

def natural (n : Nat) : Value := .number (.integer n)

def readOptional : Option Int → Doing Value
  | some fileno => do return .string (← Work.fileText fileno)
  | none => return .null

/-- Adds entries to a depmap in their order. -/
def addEntries : List (Option String × EntrySpec) → Depmap → Reading Depmap
  | [], d => .ok d
  | (path, entry) :: rest, d => do
      let entry ← entry.read
      match path with
      | some path =>
          addEntries rest (← (d.insert (.parse path) entry).mapError .label)
      | none => addEntries rest (d.merge entry)

/-- Runs the steps of a script; the values are the addresses of what each step puts out and of the
tree behind it. -/
def runSteps : List RunSpec → Script → Doing (List Value)
  | [], _ => return []
  | step :: rest, s => do
      let (place, s) ← s.run (← ofExcept step.read)
      let outputs ← Work.files place
      return .label outputs :: (s.tree.map .label).getD .null :: (← runSteps rest s)

namespace Instruction

open Work in
def work : Instruction → Doing Value
  | readAttribute name => do ofExcept ((← context).attributeValue name)
  | readAttributeAs name reader => do
      let v ← ofExcept ((← context).attributeValue name)
      ofExcept ((v.extract reader ("attribute " ++ Text.quote name)).mapError .schema)
  | info => do
      let c ← context
      return .list
        [.string c.name, .label c.label, .label c.package, .string c.phase.text,
          .string c.rule.reference.display, natural c.actions.length]
  | options host => do
      ofExcept (value (BuildConfig.encodeOptions ((← context).config.forRequest host).options))
  | sourceText text => do return .string (← Work.sourceText (← ofExcept (label text)))
  | openSource text => do
      return .number (.integer (← Work.openSource (← ofExcept (label text))))
  | loadProviders target host => do
      let target ← ofExcept (label target)
      return .list ((← Work.loadProviders target host).map .provider)
  | resolveProvider type target host => do
      let type ← ofExcept type.read
      let target ← ofExcept (label target)
      return .provider (← Work.resolveProvider type target host)
  | resolveExecutable target name host => do
      let target ← ofExcept (label target)
      return .provider (← Work.resolveExecutable target name host).toProvider
  | globalProvider type host => do
      return .provider (← resolveGlobalProvider (← ofExcept type.read) host)
  | fileExists text => do return .bool (← probe (.fileExists (← ofExcept (label text))))
  | isFile text => do return .bool (← probe (.isFile (← ofExcept (label text))))
  | targetExists text => do return .bool (← probe (.targetExists (← ofExcept (label text))))
  | substitute text => do return .string (← substituteForExecution text)
  | action name a => do recordAs name (← ofExcept a.read)
  | record name data => do recordAs name (.ofData (← ofExcept data.read))
  | transition name text changedOptions host => do
      let target ← ofExcept (label text)
      let options ← ofExcept (changedOptions.mapM OptionSpec.read)
      let place ← Work.transition target options host
      note (·.insert name place)
      return .string "transition"
  | identify name => do return .string (← Work.identify (← named name))
  | files name => do return .label (← Work.files (← named name))
  | peek name => do
      let place ← named name
      match (← context).actions[place]? with
      | some a =>
          return .list
            [.string a.data.kind, .string a.mnemonic, .string a.progressMessage, .string a.id]
      | none => return .null
  | output name read => do
      let o ← await (← named name)
      if read then
        let stdout ← openContent o.stdout
        let stderr ← openContent o.stderr
        let stdoutText ← readOptional stdout
        let stderrText ← readOptional stderr
        return .list [.string o.files, stdoutText, stderrText]
      else return .list [.string o.files]
  | depmap id entries => do
      let d ← ofExcept (addEntries entries (.empty id))
      return .list [.bool d.isEmpty, .label (← build d)]
  | readDepmap hash path => do return .string (← readDepmapFile hash (.parse path))
  | listDepmap hash path => do
      return .list ((← listDepmapDirectory hash (.parse path)).map .labelPath)
  | script input environment steps => do
      let tree ← ofExcept (optional label input)
      return .list (← runSteps steps ⟨environment, tree⟩)
  | addDependencies executable dependencies id => do
      let dependencies ← ofExcept (dependencies.mapM ExecutableSpec.read)
      let executable ← ofExcept executable.read
      return .provider (← executable.withDependencies dependencies id).toProvider
  | declareTarget rule name values => do
      let rule ← ofExcept rule.read
      let values ← ofExcept (bindings values)
      return .label (← Work.declareTarget rule name values)
  | provide p => do
      Work.provide (← ofExcept (provider p))
      return .null
  | fail message => Work.fail (.rule message)

end Instruction

end Recipe
end RuleAnalysis
