import RuleAnalysis.Value.Basic

namespace RuleAnalysis

/-!
# Values on the wire

Plain data are themselves on the wire. Every other value is an object with
one key, the sentinel that names its form; a plain map therefore never has a
sentinel among its keys. Which sentinel an object has decides what it is read
as, and it must then have no other key.
-/

/-! ## Paths and glob sets -/

namespace LabelPath

def sentinel : String := "$trellis_label_path"

def encode (p : LabelPath) : Json :=
  .object [(sentinel, .string p.text)]

def decode : Decoder LabelPath := fun d =>
  (Decoder.sentinel sentinel Decoder.string d).map parse

end LabelPath

namespace GlobSet

def sentinel : String := "$trellis_globset"

def encode (set : GlobSet) : Json :=
  .object [(sentinel, .array (set.patterns.map .string))]

def decode : Decoder GlobSet := fun d => do
  let patterns ← Decoder.sentinel sentinel (Decoder.list Decoder.string) d
  Decoder.refusing LabelError.message (parse patterns)

end GlobSet

/-! ## Options -/

namespace TypeRef

def optionSentinel : String := "$trellis_option"

/-- The wrapped form in which an option stands for a value. -/
def encodeOption (r : TypeRef) : Json :=
  .object [(optionSentinel, r.encode)]

def decodeOption : Decoder TypeRef :=
  Decoder.sentinel optionSentinel decode

end TypeRef

/-! ## Encoding -/

namespace Provider

def sentinel : String := "$trellis_provider"

end Provider

namespace Selection

def sentinel : String := "$trellis_selection"

end Selection

mutual

def Value.encode : Value → Json
  | .null => .null
  | .bool b => .bool b
  | .number n => .number n
  | .string s => .string s
  | .list items => .array (Value.encodeItems items)
  | .map entries => .object (Value.encodeEntries entries)
  | .label l => l.encode
  | .labelPath p => p.encode
  | .provider p => p.encode
  | .option reference => reference.encodeOption
  | .selection s => s.encode
  | .globSet set => set.encode

def Value.encodeItems : List Value → List Json
  | [] => []
  | item :: rest => item.encode :: Value.encodeItems rest

def Value.encodeEntries : List (String × Value) → List (String × Json)
  | [] => []
  | (key, value) :: rest => (key, value.encode) :: Value.encodeEntries rest

def Value.encodeBranches : List (TypeRef × Value) → List Json
  | [] => []
  | (option, value) :: rest =>
      .array [option.encodeOption, value.encode] :: Value.encodeBranches rest

def Provider.encode : Provider → Json
  | ⟨reference, data⟩ =>
      .object [(Provider.sentinel, .object
        [("data", .object (Value.encodeEntries data)),
          ("qualname", .string reference.qualifiedName),
          ("source_label", reference.sourceLabel.encode)])]

def Selection.encode : Selection → Json
  | ⟨mapping, default⟩ =>
      .object [(Selection.sentinel, .object
        [("default", default.encode), ("mapping", .array (Value.encodeBranches mapping))])]

end

/-! ## Decoding -/

namespace Json

mutual

/-- How deep a tree is nested; a tree without parts has depth one. -/
def depth : Json → Nat
  | array items => depthItems items + 1
  | object members => depthMembers members + 1
  | _ => 1

def depthItems : List Json → Nat
  | [] => 0
  | item :: rest => max item.depth (depthItems rest)

def depthMembers : List (String × Json) → Nat
  | [] => 0
  | (_, value) :: rest => max value.depth (depthMembers rest)

end

end Json

namespace Value

/-- The sentinel of actions, which are never values. -/
def actionSentinel : String := "$trellis_action"

/-- The forms that an object can have, with their sentinels in the order in which they are tried. -/
inductive Wrapping where
  | label
  | labelPath
  | provider
  | globSet
  | option
  | selection
  | action
  deriving DecidableEq, Repr

namespace Wrapping

def all : List Wrapping := [label, labelPath, provider, globSet, option, selection, action]

def sentinel : Wrapping → String
  | label => Label.sentinel
  | labelPath => LabelPath.sentinel
  | provider => Provider.sentinel
  | globSet => GlobSet.sentinel
  | option => TypeRef.optionSentinel
  | selection => Selection.sentinel
  | action => actionSentinel

/-- The form that an object's keys decide. -/
def of? (members : List (String × Json)) : Option Wrapping :=
  all.find? fun w => members.any fun member => member.1 = w.sentinel

end Wrapping

end Value

/-- Decodes the tree of a document that is read to its end first. -/
def Decoder.tree {α : Type} (read : Json → Except Fault α) : Decoder α := fun d =>
  match d.tree? with
  | some tree => read tree
  | none => .error .malformed

/-- A provider whose field values are decoded as given. -/
def Provider.decodeWith (value : Decoder Value) : Decoder Provider :=
  Decoder.sentinel sentinel <|
    Decoder.record
      (.cons "source_label" .required Label.decode
        (.cons "qualname" .required Decoder.string
          (.cons "data" (.defaulted []) (Decoder.dictionary value) .nil)))
      fun sourceLabel qualifiedName data => ⟨⟨sourceLabel, qualifiedName⟩, data⟩

/-- A selection whose branches are decoded as given. -/
def Selection.decodeWith (value : Decoder Value) : Decoder Selection :=
  Decoder.sentinel sentinel <|
    Decoder.record
      (.cons "mapping" .required (Decoder.list (Decoder.pair TypeRef.decodeOption value))
        (.cons "default" .required value .nil))
      Selection.mk

namespace Value

/-- Decodes a tree that is nested at most as deep as given. -/
def ofTreeWithin : Nat → Json → Except Fault Value
  | 0, _ => .error .malformed
  | _ + 1, .null => .ok .null
  | _ + 1, .bool b => .ok (.bool b)
  | _ + 1, .number n => .ok (.number n)
  | _ + 1, .string s => .ok (.string s)
  | depth + 1, .array items => (items.mapM (ofTreeWithin depth)).map .list
  | depth + 1, .object members =>
      let wrapped := Document.ofTree (.object members)
      let inner := Decoder.tree (ofTreeWithin depth)
      match Wrapping.of? members with
      | some .label => (Label.decode wrapped).map .label
      | some .labelPath => (LabelPath.decode wrapped).map .labelPath
      | some .provider => (Provider.decodeWith inner wrapped).map .provider
      | some .globSet => (GlobSet.decode wrapped).map .globSet
      | some .option => (TypeRef.decodeOption wrapped).map .option
      | some .selection => (Selection.decodeWith inner wrapped).map .selection
      | some .action => .error (.refused "actions cannot be used as values")
      | none =>
          (members.mapM fun member =>
            (ofTreeWithin depth member.2).map fun value => (member.1, value)).map .map

/-- The value of a tree. -/
def ofTree (tree : Json) : Except Fault Value :=
  ofTreeWithin tree.depth tree

def decode : Decoder Value :=
  Decoder.tree ofTree

end Value

namespace Provider

def decode : Decoder Provider :=
  decodeWith Value.decode

end Provider

namespace Selection

def decode : Decoder Selection :=
  decodeWith Value.decode

end Selection

end RuleAnalysis
