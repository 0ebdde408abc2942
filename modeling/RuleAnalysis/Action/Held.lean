import RuleAnalysis.Action.Basic

namespace RuleAnalysis

/-!
# Actions that remember their ids

The hash of an action is worked out when the action is first asked for its id
and then remembered until its texts or its work change. A copy remembers what
the original has remembered; an action that has been read remembers nothing.
-/

structure HeldAction where
  action : Action
  /-- The derived id, if it has been worked out. -/
  computedId : Option String
  deriving DecidableEq

namespace HeldAction

def ofAction (a : Action) : HeldAction := ⟨a, none⟩

/-- The action that does the work, named and described as usual for its kind. -/
def ofData (data : ActionData) : HeldAction := ofAction (.ofData data)

/-- What has been worked out before is kept beside the given id. -/
def withId (h : HeldAction) (id : String) : HeldAction := { h with action := h.action.withId id }

def withMnemonic (h : HeldAction) (mnemonic : String) : HeldAction :=
  ofAction (h.action.withMnemonic mnemonic)

def withProgressMessage (h : HeldAction) (message : String) : HeldAction :=
  ofAction (h.action.withProgressMessage message)

/-- The platform belongs to the work, so the id is forgotten if one is filled in. -/
def fillPlatform (h : HeldAction) (platform : Provider) : HeldAction :=
  if h.action.needsPlatform then ofAction (h.action.fillPlatform platform) else h

/-- The id, and the action that remembers it. -/
def id (h : HeldAction) : String × HeldAction :=
  match h.action.explicitId, h.computedId with
  | some id, _ => (id, h)
  | none, some id => (id, h)
  | none, none => (h.action.derivedId, { h with computedId := some h.action.derivedId })

/-- The tree of the action, which bears the id, and the action that remembers it. -/
def encode (h : HeldAction) : Json × HeldAction := (h.action.encodeWith h.id.1, h.id.2)

def decode : Decoder HeldAction := fun d => (Action.decode d).map ofAction

end HeldAction

end RuleAnalysis
