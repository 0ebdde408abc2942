import RuleAnalysis.Json.Decoder
import RuleAnalysis.Schema.Error

namespace RuleAnalysis

/-!
# Failures of an analysis

Every failure is final: nothing is tried again, and the first failure ends
the analysis of a target. Failures are told apart by where they come from:
a look-up that found nothing fitting, a host that does not keep to the
protocol, an address or declaration at fault, or the rule itself.
-/

/-- What a failure is reported as: its kind and, unless it is a fault of form in a message, a text. -/
structure Report where
  kind : String
  message : Option String
  deriving DecidableEq, Repr

namespace Report

def encode (r : Report) : Json :=
  .object
    (("error", .string r.kind) :: (r.message.map fun text => ("message", Json.string text)).toList)

end Report

inductive ResolveError where
  | noMatchingProvider (provider target : String)
  | ambiguousProvider (provider target : String)
  | globalProviderNotFound (provider : String)
  | noMatchingExecutable (target name : String)
  | noExecutePlatform (os : String)
  | fileNotFound (label : String)
  | depmapFileNotFound (depmap path : String)
  | depmapDirectoryNotFound (depmap path : String)
  | unresolvedAttribute (name : String)
  deriving DecidableEq, Repr

inductive ProtocolError where
  | unexpectedResponse (request response : String)
  | responseCount (expected actual : Nat)
  | stalled
  | outsideTask
  | finished
  | codec (fault : Fault)
  | fileHandle (fileno : Int) (reason : String)
  deriving DecidableEq, Repr

inductive AnalysisError where
  | schema (e : SchemaError)
  | label (e : LabelError)
  | resolve (e : ResolveError)
  | protocol (e : ProtocolError)
  | rule (message : String)
  deriving DecidableEq, Repr

open Text (quote)

namespace LabelError

def report (e : LabelError) : Report := ⟨e.kind, some e.message⟩

end LabelError

namespace SchemaError

def report (e : SchemaError) : Report := ⟨e.kind, some e.message⟩

end SchemaError

namespace ResolveError

def message : ResolveError → String
  | noMatchingProvider provider target =>
      "no provider of type " ++ provider ++ " found for " ++ target
  | ambiguousProvider provider target =>
      "more than one provider of type " ++ provider ++ " found for " ++ target
  | globalProviderNotFound provider => "failed to find global provider for " ++ provider
  | noMatchingExecutable target name =>
      "no executable named " ++ quote name ++ " provided by " ++ target
  | noExecutePlatform os => "no execution platform is known for host os " ++ os
  | fileNotFound label => "no file with label " ++ label
  | depmapFileNotFound depmap path => "depmap " ++ depmap ++ " has no file " ++ quote path
  | depmapDirectoryNotFound depmap path =>
      "depmap " ++ depmap ++ " has no directory " ++ quote path
  | unresolvedAttribute name => "attribute " ++ quote name ++ " has not been resolved"

def kind : ResolveError → String
  | noMatchingProvider .. => "Resolve.NoMatchingProvider"
  | ambiguousProvider .. => "Resolve.AmbiguousProvider"
  | globalProviderNotFound _ => "Resolve.GlobalProviderNotFound"
  | noMatchingExecutable .. => "Resolve.NoMatchingExecutable"
  | noExecutePlatform _ => "Resolve.NoExecutePlatform"
  | fileNotFound _ => "Resolve.FileNotFound"
  | depmapFileNotFound .. => "Resolve.DepmapFileNotFound"
  | depmapDirectoryNotFound .. => "Resolve.DepmapDirectoryNotFound"
  | unresolvedAttribute _ => "Resolve.UnresolvedAttribute"

def report (e : ResolveError) : Report := ⟨e.kind, some e.message⟩

end ResolveError

namespace Fault

/-- The text of a refusal; a fault of form has none. -/
def text? : Fault → Option String
  | malformed => none
  | refused text => some text

end Fault

namespace ProtocolError

def message : ProtocolError → String
  | unexpectedResponse request response =>
      "invalid response to " ++ request ++ " request: got " ++ response
  | responseCount expected actual =>
      "expected " ++ toString expected ++ " responses, got " ++ toString actual
  | stalled => "task suspended without issuing a host request"
  | outsideTask => "host request issued outside of a running task"
  | finished => "task resumed after completion"
  | codec fault => "codec error: " ++ fault.text?.getD ""
  | fileHandle fileno reason =>
      "failed to read host file descriptor " ++ toString fileno ++ ": " ++ reason

def kind : ProtocolError → String
  | unexpectedResponse .. => "Protocol.UnexpectedResponse"
  | responseCount .. => "Protocol.ResponseCount"
  | stalled => "Protocol.Stalled"
  | outsideTask => "Protocol.OutsideTask"
  | finished => "Protocol.Finished"
  | codec _ => "Protocol.Codec"
  | fileHandle .. => "Protocol.FileHandle"

/-- The report behind a heading. A message that could not be decoded is reported by the refusal's
own text alone, wherever it comes from. -/
def reportUnder (heading : String) : ProtocolError → Report
  | codec fault => ⟨(codec fault).kind, fault.text?⟩
  | e => ⟨e.kind, some (heading ++ e.message)⟩

def report : ProtocolError → Report := reportUnder ""

end ProtocolError

namespace AnalysisError

/-- The report of the failure itself, without the heading that tells where it comes from. -/
def cause : AnalysisError → Report
  | schema e => e.report
  | label e => e.report
  | resolve e => e.report
  | protocol e => e.report
  | rule message => ⟨"Rule", some message⟩

/-- The report behind a heading. -/
def reportUnder (heading : String) : AnalysisError → Report
  | schema e => ⟨e.kind, some (heading ++ "schema error: " ++ e.message)⟩
  | label e => ⟨e.kind, some (heading ++ "address error: " ++ e.message)⟩
  | resolve e => ⟨e.kind, some (heading ++ "resolution error: " ++ e.message)⟩
  | protocol e => e.reportUnder (heading ++ "protocol error: ")
  | rule message => ⟨"Rule", some (heading ++ message)⟩

def report : AnalysisError → Report := reportUnder ""

end AnalysisError

end RuleAnalysis
