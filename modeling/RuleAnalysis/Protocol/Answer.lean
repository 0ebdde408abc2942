import RuleAnalysis.Analysis.Error
import RuleAnalysis.Protocol.Message

namespace RuleAnalysis

/-!
# Answers

What a response means depends on the request that it answers. An answer of
another form is a fault of the host; `none` says that what was asked for does
not exist, where that can be.
-/

/-- What a response is read as in answer to a request. -/
abbrev Answer (α : Type) := Response → Except AnalysisError α

namespace Response

/-- The fault of answering a request of the given kind by this response. -/
def unexpected (r : Response) (request : String) : AnalysisError :=
  .protocol (.unexpectedResponse request r.kind)

end Response

namespace Answer

/-- A file that the host has opened: the number of its descriptor. -/
def file (q : Query) (missing : ResolveError) : Answer Int
  | .fileHandle fileno => .ok fileno
  | .none => .error (.resolve missing)
  | r => .error (r.unexpected q.kind)

/-- Content that a reference names is there. -/
def content (q : Query) : Answer Int
  | .fileHandle fileno => .ok fileno
  | r => .error (r.unexpected q.kind)

def filenames (q : Query) (missing : ResolveError) : Answer (List LabelPath)
  | .filenameList filenames => .ok filenames
  | .none => .error (.resolve missing)
  | r => .error (r.unexpected q.kind)

def truth (q : Query) : Answer Bool
  | .boolean value => .ok value
  | r => .error (r.unexpected q.kind)

def providers (q : Query) : Answer (List Provider)
  | .providers ps => .ok ps
  | r => .error (r.unexpected q.kind)

/-- The provider that is registered for a type. -/
def globalProvider (q : Query) (type : TypeRef) : Answer Provider
  | .provider p => .ok p
  | .none => .error (.resolve (.globalProviderNotFound type.display))
  | r => .error (r.unexpected q.kind)

/-- What an action has put out. -/
def output : Answer ActionOutput
  | .actionOutput output => .ok output
  | r => .error (r.unexpected "action_output")

end Answer

end RuleAnalysis
