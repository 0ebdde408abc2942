import RuleAnalysis.Json.Document
import RuleAnalysis.Text.Quoted

namespace RuleAnalysis

/-!
# Decoders

A decoder turns a document into a value. It reads the document from the front
and reports the first fault it meets. A fault of form has no text of its own;
a value that is well formed but refused carries the text of the refusal.
-/

inductive Fault where
  | malformed
  | refused (text : String)
  deriving DecidableEq, Repr

abbrev Decoder (α : Type) := Document → Except Fault α

namespace Decoder

variable {α β : Type}

/-! ## Plain values -/

def string : Decoder String
  | .string s => .ok s
  | _ => .error .malformed

def bool : Decoder Bool
  | .bool b => .ok b
  | _ => .error .malformed

def signed32 : Decoder Int
  | .number n => (n.signed32?).elim (.error .malformed) .ok
  | _ => .error .malformed

/-- Null stands for an absent value. -/
def nullable (read : Decoder α) : Decoder (Option α)
  | .null => .ok none
  | d => (read d).map some

/-- What a text refuses is a fault that carries the refusal. -/
def refusing {ε : Type} (message : ε → String) : Except ε α → Except Fault α
  | .ok a => .ok a
  | .error fault => .error (.refused (message fault))

/-! ## Arrays and dictionaries -/

def items (read : Decoder α) : List Document → Except Fault (List α)
  | [] => .ok []
  | d :: rest => do
      let a ← read d
      return a :: (← items read rest)

def list (read : Decoder α) : Decoder (List α)
  | .array documents closed => do
      let values ← items read documents
      if closed then return values else .error .malformed
  | _ => .error .malformed

/-- An array of exactly two values. -/
def pair (first : Decoder α) (second : Decoder β) : Decoder (α × β)
  | .array [a, b] closed => do
      let a ← first a
      let b ← second b
      if closed then return (a, b) else .error .malformed
  | .array (a :: b :: _) _ => do
      let _ ← first a
      let _ ← second b
      .error .malformed
  | .array [a] _ => do
      let _ ← first a
      .error .malformed
  | _ => .error .malformed

def entries (read : Decoder α) :
    List (Option String × Document) → Dictionary α → Except Fault (Dictionary α)
  | [], d => .ok d
  | (none, _) :: _, _ => .error .malformed
  | (some key, value) :: rest, d => do
      let a ← read value
      entries read rest (d.insert key a)

/-- An object of any keys. Of repeated keys the last holds. -/
def dictionary (read : Decoder α) : Decoder (Dictionary α)
  | .object members closed => do
      let d ← entries read members []
      if closed then return d else .error .malformed
  | _ => .error .malformed

/-! ## Wrapped values -/

/-- An object whose first key is the sentinel and which has no other key. -/
def sentinel (name : String) (read : Decoder α) : Decoder α
  | .object ((some key, body) :: rest) closed =>
      if key ≠ name then
        .error (.refused ("expected sentinel key " ++ Text.quote name ++ ", found "
          ++ Text.quote key))
      else do
        let a ← read body
        match rest with
        | [] => if closed then return a else .error .malformed
        | (none, _) :: _ => .error .malformed
        | (some _, _) :: _ =>
            .error (.refused ("unexpected key alongside sentinel " ++ Text.quote name))
  | _ => .error .malformed

/-! ## Records -/

/-- Whether a field may be missing, and what it then is. -/
inductive Presence (β : Type) where
  | required
  | optional (absent : β)
  | defaulted (absent : β)

/-- The fields of a record in the order of their declaration. -/
inductive Fields : List Type → Type 1 where
  | nil : Fields []
  | cons {β : Type} {βs : List Type} (name : String) (presence : Presence β)
      (read : Decoder β) (rest : Fields βs) : Fields (β :: βs)

/-- A function of the values of all fields. -/
def Assembly : List Type → Type → Type
  | [], α => α
  | β :: βs, α => β → Assembly βs α

/-- The values that have been read so far. -/
def Slots : List Type → Type
  | [] => Unit
  | β :: βs => Option β × Slots βs

namespace Fields

def empty : {βs : List Type} → Fields βs → Slots βs
  | _, nil => ()
  | _, cons _ _ _ rest => (none, rest.empty)

/-- Reads the value of a field. A member that is no field is passed over, and no field may be
repeated. -/
def store : {βs : List Type} → Fields βs → String → Document → Slots βs →
    Except Fault (Slots βs)
  | _, nil, _, _, slots => .ok slots
  | _, cons name _ read rest, key, value, (slot, slots) =>
      if key = name then
        match slot with
        | some _ => .error .malformed
        | none => (read value).map fun b => (some b, slots)
      else (rest.store key value slots).map fun slots => (slot, slots)

/-- Reads all members in the order in which they stand. -/
def storeAll {βs : List Type} (fields : Fields βs) :
    List (Option String × Document) → Slots βs → Except Fault (Slots βs)
  | [], slots => .ok slots
  | (none, _) :: _, _ => .error .malformed
  | (some key, value) :: rest, slots => do
      fields.storeAll rest (← fields.store key value slots)

/-- Assembles a record from an object's fields; one that may not be missing is a fault. -/
def assemble : {βs : List Type} → Fields βs → Slots βs → Assembly βs α → Except Fault α
  | _, nil, _, a => .ok a
  | _, cons _ presence _ rest, (slot, slots), build =>
      match slot, presence with
      | some b, _ => rest.assemble slots (build b)
      | none, .required => .error .malformed
      | none, .optional absent => rest.assemble slots (build absent)
      | none, .defaulted absent => rest.assemble slots (build absent)

/-- Assembles a record from an array of its fields, of which only defaulted ones may be cut off. -/
def assembleItems : {βs : List Type} → Fields βs → List Document → Assembly βs α →
    Except Fault α
  | _, nil, [], a => .ok a
  | _, nil, _ :: _, _ => .error .malformed
  | _, cons _ _ read rest, value :: values, build => do
      rest.assembleItems values (build (← read value))
  | _, cons _ presence _ rest, [], build =>
      match presence with
      | .defaulted absent => rest.assembleItems [] (build absent)
      | _ => .error .malformed

end Fields

/-- The record whose members are given. -/
def members {βs : List Type} (fields : Fields βs) (build : Assembly βs α)
    (members : List (Option String × Document)) (closed : Bool) : Except Fault α := do
  let slots ← fields.storeAll members fields.empty
  if closed then fields.assemble slots build else .error .malformed

/-- A record is an object of its fields or an array of their values. -/
def record {βs : List Type} (fields : Fields βs) (build : Assembly βs α) : Decoder α
  | .object entries closed => members fields build entries closed
  | .array values closed => do
      let a ← fields.assembleItems values build
      if closed then return a else .error .malformed
  | _ => .error .malformed

/-! ## Alternatives -/

/-- A choice that is written as an object with one key, its name. A second key is noticed behind
the first value, or before it if the object has been read as part of a larger document. -/
def variant (nested : Bool) (body : String → Option (Decoder α)) : Decoder α
  | .object ((some key, value) :: rest) closed =>
      if nested && !rest.isEmpty then .error .malformed
      else
        match body key with
        | none => .error .malformed
        | some read => do
            let a ← read value
            if rest.isEmpty && closed then return a else .error .malformed
  | _ => .error .malformed

/-- The members without a tag, and the tag. -/
def splitTag (tag : String) (members : List (Option String × Document)) :
    List Document × List (Option String × Document) :=
  ((members.filter fun member => member.1 = some tag).map Prod.snd,
    members.filter fun member => member.1 ≠ some tag)

/-- The name that a tag's value stands for. A document that has been read as part of a larger one
may also give it by its place among the names. -/
def tagName? (names : List String) (nested : Bool) : Document → Option String
  | .string s => some s
  | .number (.integer n) => if nested && 0 ≤ n then names[n.toNat]? else none
  | _ => none

/-- A choice that is written as an object whose tag names it, or as an array that begins with its
name. What is behind the name is read as an object or array of its own, once the whole has been read
to its end. -/
def tagged (tag : String) (names : List String) (nested : Bool)
    (body : String → Option (Decoder α)) : Decoder α := fun d =>
  if d.tree?.isNone then .error .malformed
  else
    let choose (name rest : Document) : Except Fault α :=
      match (tagName? names nested name).bind body with
      | some read => read rest
      | none => .error .malformed
    match d with
    | .object entries _ =>
        match splitTag tag entries with
        | ([name], rest) => choose name (.object rest true)
        | _ => .error .malformed
    | .array (name :: rest) _ => choose name (.array rest true)
    | _ => .error .malformed

/-- The body of a choice that has no fields: the members of an object do not matter, an array has no
items. -/
def fieldless (a : α) : Decoder α
  | .object _ _ => .ok a
  | .array [] _ => .ok a
  | _ => .error .malformed

/-- Decodes a whole text. What follows a value is a fault of the text. -/
def text (read : Decoder α) (source : String) : Except Fault α := do
  let (document, more) := Document.read source
  let a ← read document
  if more then .error .malformed else return a

/-- Characters are read without a text being made of them. -/
theorem text_ofList (read : Decoder α) (cs : List Char) :
    text read (.ofList cs) = (do
      let (document, more) := Document.readValue [] (Json.tokensWithin cs.length cs)
      let a ← read document
      if more then .error .malformed else return a) := by
  rw [text, Document.read, Json.tokens, String.toList_ofList]

end Decoder

end RuleAnalysis
