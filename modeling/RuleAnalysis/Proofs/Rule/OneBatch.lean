import RuleAnalysis.Proofs.Rule.ProviderTypes

namespace RuleAnalysis

/-!
# One batch for the attributes

The attributes of a target are resolved together. Those that have to be looked
up ask in one batch, in the order of their declaration, and each of them reads
the response to its own request. What goes wrong is told when everything has
been answered. Then it is the first attribute in the order of declaration that
counts, not the one that has failed first.
-/

variable {ν : Type}

/-! ## What an attribute asks and reads -/

namespace Resolution

/-- What is come to when the request has been answered. Nothing is come to as long as an answer is
missing. -/
def outcome? (c : BuildConfig) (answer? : Option Response) :
    Except SchemaError Resolution → Option Outcome
  | .error e => some (.error (.schema e))
  | .ok (.value v) => some (.ok v)
  | .ok (.provider type target host) =>
      let q := Query.loadProviders target (c.forRequest host)
      answer?.map fun response =>
        (Answer.providers q response >>= singleProvider type target).map .provider
  | .ok (.globalProvider type host) =>
      let q := Query.loadGlobalProvider type (c.forRequest host)
      answer?.map fun response => (Answer.globalProvider q type response).map .provider

end Resolution

namespace Attribute

def outcome? (a : Attribute) (c : Context) (answer? : Option Response) : Option Outcome :=
  Resolution.outcome? c.config answer? (a.resolution c.config (c.attributesInput.get? a.name))

section

variable {a : Attribute} {c : Context} {type : TypeRef} {host : Bool} {q : Request}

end

/-! ## Dealing the answers -/

section

variable {a : Attribute} {c : Context}

end

end Attribute

namespace Rule

variable {rule : Rule ν}

section

variable {reference : TypeRef} {attributes : List Attribute}
  (declared : RuleSchema.declare reference attributes = .ok rule.schema)

include declared

end

end Rule

/-! ## A target with two failures

The target is built on Linux and for macOS. One attribute looks up a tool for the host at a target,
which has none; another leaves the tool for macOS to the host. The value of the last attribute has
been wrong from the start.
-/

namespace ToolTarget

end ToolTarget

open ToolTarget

end RuleAnalysis
