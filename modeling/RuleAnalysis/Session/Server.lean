import RuleAnalysis.Schedule.Task
import RuleAnalysis.Session.Error
import RuleAnalysis.Session.Registry
import RuleAnalysis.Workspace.Layout

namespace RuleAnalysis

/-!
# Sessions

A server analyzes one target at a time for a host. A session is started for
the target and then advanced step by step, each step bringing the answers to
the requests of the one before. The session ends when the analysis is done or
has failed.

A session that cannot be started leaves the one in progress as it is, and so
does an event that cannot be decoded.
-/

/-- What a target is analyzed from. -/
structure TargetText where
  name : String
  label : String
  /-- A map of attribute values. -/
  attributes : String
  /-- A build configuration. -/
  config : String

/-- An analysis in progress. -/
structure Session (ν : Type) where
  task : Task (Desk ν) Outcome
  desk : Desk ν

namespace Session

variable {ν : Type}

/-- The session that analyzes a target of a rule. Nothing runs before its first step. -/
def ofTarget (rule : Rule ν) (target : TargetText) : Except SessionError (Session ν) := do
  let l ← (Label.parse target.label).mapError .label
  let attributes ← (Decoder.text (Decoder.dictionary Value.decode) target.attributes).mapError
    (.protocol ∘ .codec)
  let config ← (Decoder.text BuildConfig.decode target.config).mapError (.protocol ∘ .codec)
  let invocation ← (rule.schema.invoke target.name attributes l.package?).mapError .schema
  let context := Context.ofTarget rule.schema invocation.name l invocation.attributesInput config
  return ⟨.ofProgram rule.analysis, ⟨context, rule.notes, .empty⟩⟩

/-- Advances the analysis by one step. The session is over unless it waits for answers. -/
def advance (session : Session ν) (event : SessionEvent) (files : OpenFiles) :
    Except SessionError SessionOutcome × Option (Session ν) :=
  match session.task.resume event.answers { session.desk with files := files } with
  | (.ok (.pending requests), task, desk) => (.ok (.requests requests), some ⟨task, desk⟩)
  | (.ok (.done (.ok _)), _, desk) => (.ok (.done desk.context.analysis), none)
  | (.ok (.done (.error e)), _, _) => (.error (.analysis e), none)
  | (.error e, _, _) => (.error (.protocol e), none)

end Session

structure Server (ν : Type) where
  registry : Registry ν
  layout : Layout
  session : Option (Session ν)
  files : OpenFiles

namespace Server

variable {ν : Type}

def ofRegistry (registry : Registry ν) (layout : Layout) : Server ν :=
  ⟨registry, layout, none, .empty⟩

/-- The label of a source file, which is given by label or by an absolute path. -/
def sourceLabel (server : Server ν) (source : String) : Except LabelError Label :=
  if source.toList.head? = some '/' then server.layout.labelForPath ⟨source⟩
  else Label.parse source

/-- Looks up a rule by the file that defines it and its name there. -/
def findRule (server : Server ν) (source name : String) : Except SessionError (Rule ν) := do
  let l ← (server.sourceLabel source).mapError .label
  let reference : TypeRef := ⟨l, name⟩
  match server.registry.get? reference with
  | some rule => return rule
  | none => throw (.unknownRule reference.display)

/-- Starts the analysis of a target, in the place of an analysis in progress. -/
def start (server : Server ν) (source rule : String) (target : TargetText) :
    Except SessionError Unit × Server ν :=
  match server.findRule source rule >>= fun rule => Session.ofTarget rule target with
  | .ok session => (.ok (), { server with session := some session })
  | .error e => (.error e, server)

/-- The phase of the analysis in progress. -/
def phase? (server : Server ν) : Option Phase :=
  server.session.map fun session => session.desk.context.phase

/-- Takes over a descriptor that the host has opened. -/
def handOver (server : Server ν) (fileno : Int) (bytes : List UInt8) : Server ν :=
  { server with files := server.files.insert fileno bytes }

/-- Advances the analysis in progress by one step. -/
def advance (server : Server ν) (event : SessionEvent) :
    Except SessionError SessionOutcome × Server ν :=
  match server.session with
  | none => (.error .noActiveSession, server)
  | some session =>
      let (outcome, session) := session.advance event server.files
      (outcome, { server with session := session })

/-- Advances the analysis in progress on the wire. -/
def advanceText (server : Server ν) (event : String) : Except SessionError String × Server ν :=
  match Decoder.text SessionEvent.decode event with
  | .error fault => (.error (.protocol (.codec fault)), server)
  | .ok event =>
      let (outcome, server) := server.advance event
      (outcome.map fun o => o.encode.render, server)

end Server

end RuleAnalysis
