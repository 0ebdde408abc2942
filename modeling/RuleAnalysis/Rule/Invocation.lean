import RuleAnalysis.Action.Basic

namespace RuleAnalysis

/-!
# Invocations and the results of analysis

An invocation records that a target instantiates a rule with certain values
for its attributes. The analysis of a target yields the actions that build
it, further targets that it declares, and the providers that others consume.
-/

structure RuleInvocation where
  name : String
  rule : TypeRef
  attributesInput : Dictionary Value
  /-- The paths of the source tree at which outputs of the target are mounted. -/
  outputMounts : Dictionary String
  deriving DecidableEq

namespace RuleInvocation

def withOutputMounts (i : RuleInvocation) (mounts : Dictionary String) : RuleInvocation :=
  { i with outputMounts := mounts }

def encode (i : RuleInvocation) : Json :=
  .object
    [("attributes_input", .object (Value.encodeEntries i.attributesInput)),
      ("name", .string i.name),
      ("output_mounts", .object (i.outputMounts.map fun entry => (entry.1, .string entry.2))),
      ("rule", i.rule.encode)]

def decode : Decoder RuleInvocation :=
  Decoder.record
    (.cons "name" .required Decoder.string
      (.cons "rule" .required TypeRef.decode
        (.cons "attributes_input" .required (Decoder.dictionary Value.decode)
          (.cons "output_mounts" .required (Decoder.dictionary Decoder.string) .nil))))
    RuleInvocation.mk

end RuleInvocation

structure Analysis where
  actions : List Action
  syntheticTargets : List RuleInvocation
  providers : List Provider
  deriving DecidableEq

namespace Analysis

def encode (a : Analysis) : Json :=
  .object
    [("actions", .array (a.actions.map Action.encode)),
      ("providers", .array (a.providers.map Provider.encode)),
      ("synthetic_targets", .array (a.syntheticTargets.map RuleInvocation.encode))]

def decode : Decoder Analysis :=
  Decoder.record
    (.cons "actions" .required (Decoder.list Action.decode)
      (.cons "synthetic_targets" .required (Decoder.list RuleInvocation.decode)
        (.cons "providers" .required (Decoder.list Provider.decode) .nil)))
    Analysis.mk

end Analysis

end RuleAnalysis
