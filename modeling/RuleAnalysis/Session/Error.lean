import RuleAnalysis.Analysis.Error

namespace RuleAnalysis

/-!
# Failures of a session

What the host is told when it cannot start an analysis or advance it, or when
the analysis itself has failed.
-/

inductive SessionError where
  | unknownRule (rule : String)
  | label (e : LabelError)
  | schema (e : SchemaError)
  | noActiveSession
  | protocol (e : ProtocolError)
  | analysis (e : AnalysisError)
  deriving DecidableEq, Repr

namespace Report

/-- The report under a longer kind. -/
def within (area : String) (r : Report) : Report :=
  { r with kind := area ++ r.kind }

end Report

namespace SessionError

def report : SessionError → Report
  | unknownRule rule => ⟨"Driver.UnknownRule", some ("no rule " ++ rule ++ " is registered")⟩
  | label e => ⟨"Driver." ++ e.kind, some ("invalid address: " ++ e.message)⟩
  | schema e => ⟨"Driver." ++ e.kind, some ("invalid invocation: " ++ e.message)⟩
  | noActiveSession => ⟨"Driver.NoActiveSession", some "no analysis in progress"⟩
  | protocol e => (e.reportUnder "protocol error: ").within "Driver."
  | analysis e => (e.reportUnder "analysis failed: ").within "Driver.Analysis."

end SessionError

end RuleAnalysis
