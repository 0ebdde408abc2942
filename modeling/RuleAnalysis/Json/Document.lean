import RuleAnalysis.Dictionary
import RuleAnalysis.Json.Token
import RuleAnalysis.Json.Tree

namespace RuleAnalysis

/-!
# JSON documents

A document is a JSON text as far as it can be read, with the members of its
objects in the order in which they stand there. A fault of the text shows at
its own place, so that whoever reads the document from the front meets the
faults of its text and of its content in the order in which they stand.
-/

/-- A text's value. Nothing follows a `broken` value, and an array or object is closed unless its
text breaks off. An `unreadable` value is well formed and can be passed over. A member whose key is
well formed but no text has none. -/
inductive Document where
  | broken
  | unreadable
  | null
  | bool (b : Bool)
  | number (n : Number)
  | string (s : String)
  | array (items : List Document) (closed : Bool)
  | object (members : List (Option String × Document)) (closed : Bool)

namespace Document

instance : Inhabited Document := ⟨broken⟩

/-- An array or object that has been opened: what stands in it so far, last first, and the key that
awaits its value. -/
inductive Frame where
  | items (before : List Document)
  | members (before : List (Option String × Document)) (key : Option String)

/-- How deep arrays and objects may lie in each other. -/
def depthLimit : Nat := 127

def Frame.fill (frame : Frame) (value : Document) (closed : Bool) : Document :=
  match frame with
  | .items before => .array (value :: before).reverse closed
  | .members before key => .object ((key, value) :: before).reverse closed

/-- An array or object inside the given number of others. -/
def atDepth (outer : Nat) (value : Document) : Document :=
  if outer < depthLimit then value else .unreadable

/-- Ends the document at a fault: everything that is open stays open. -/
def breakOff : List Frame → Document → Document
  | [], value => value
  | frame :: outer, value =>
      breakOff outer (if outer.length < depthLimit then frame.fill value false else .broken)

open Json (Token)

mutual

/-- Reads a value inside the open frames, and the rest of the document. The flag tells whether
anything follows it. -/
def readValue : List Frame → List Token → Document × Bool
  | outer, .null :: rest => readOn outer .null rest
  | outer, .bool b :: rest => readOn outer (.bool b) rest
  | outer, .number (some n) :: rest => readOn outer (.number n) rest
  | outer, .number none :: rest => readOn outer .unreadable rest
  | outer, .string (some s) :: rest => readOn outer (.string s) rest
  | outer, .string none :: rest => readOn outer .unreadable rest
  | outer, .openArray :: .closeArray :: rest =>
      readOn outer (atDepth outer.length (.array [] true)) rest
  | outer, .openArray :: rest => readValue (.items [] :: outer) rest
  | outer, .openObject :: .closeObject :: rest =>
      readOn outer (atDepth outer.length (.object [] true)) rest
  | outer, .openObject :: .string key :: .colon :: rest =>
      readValue (.members [] key :: outer) rest
  | outer, .openObject :: .string key :: _ =>
      (breakOff (.members [] key :: outer) .broken, false)
  | outer, .openObject :: _ =>
      (breakOff outer (if outer.length < depthLimit then .object [] false else .broken), false)
  | outer, _ => (breakOff outer .broken, false)

/-- Goes on behind a value inside the open frames. -/
def readOn : List Frame → Document → List Token → Document × Bool
  | [], value, rest => (value, !rest.isEmpty)
  | .items before :: outer, value, .comma :: rest =>
      readValue (.items (value :: before) :: outer) rest
  | .items before :: outer, value, .closeArray :: rest =>
      readOn outer (atDepth outer.length ((Frame.items before).fill value true)) rest
  | .members before key :: outer, value, .comma :: .string next :: .colon :: rest =>
      readValue (.members ((key, value) :: before) next :: outer) rest
  | .members before key :: outer, value, .comma :: .string next :: _ =>
      (breakOff (.members ((key, value) :: before) next :: outer) .broken, false)
  | .members before key :: outer, value, .closeObject :: rest =>
      readOn outer (atDepth outer.length ((Frame.members before key).fill value true)) rest
  | frame :: outer, value, _ => (breakOff (frame :: outer) value, false)

end

/-- The document of a text, and whether more than white space follows it. -/
def read (text : String) : Document × Bool :=
  readValue [] (Json.tokens text)

/-! ## Trees -/

mutual

/-- The tree of a document that can be read to its end. Of repeated keys the last holds. -/
def tree? : Document → Option Json
  | broken => none
  | unreadable => none
  | null => some .null
  | bool b => some (.bool b)
  | number n => some (.number n)
  | string s => some (.string s)
  | array items closed => if closed then (treeItems? items).map .array else none
  | object members closed => if closed then (treeMembers? members []).map .object else none

def treeItems? : List Document → Option (List Json)
  | [] => some []
  | item :: rest => do
      let tree ← item.tree?
      return tree :: (← treeItems? rest)

def treeMembers? : List (Option String × Document) → Dictionary Json → Option (Dictionary Json)
  | [], d => some d
  | (none, _) :: _, _ => none
  | (some key, value) :: rest, d => do
      let tree ← value.tree?
      treeMembers? rest (d.insert key tree)

end

mutual

/-- The document of a tree. -/
def ofTree : Json → Document
  | .null => null
  | .bool b => bool b
  | .number n => number n
  | .string s => string s
  | .array items => array (ofTreeItems items) true
  | .object members => object (ofTreeMembers members) true

def ofTreeItems : List Json → List Document
  | [] => []
  | item :: rest => ofTree item :: ofTreeItems rest

def ofTreeMembers : List (String × Json) → List (Option String × Document)
  | [] => []
  | (key, value) :: rest => (some key, ofTree value) :: ofTreeMembers rest

end

end Document

namespace Json

/-- The tree of a text that is one whole document. -/
def parse? (text : String) : Option Json :=
  match Document.read text with
  | (document, false) => document.tree?
  | (_, true) => none

end Json

end RuleAnalysis
