import RuleAnalysis.Json.Number

namespace RuleAnalysis
namespace Json

/-!
# Tokens of JSON texts

A text is first cut into tokens. A string or number whose spelling is right
but which has no meaning, because a surrogate stands alone or the magnitude is
too large, is still a token, so that a reader may pass over it.
-/

inductive Token where
  | openArray
  | closeArray
  | openObject
  | closeObject
  | comma
  | colon
  | null
  | bool (b : Bool)
  | string (s : Option String)
  | number (n : Option Number)
  | invalid
  deriving DecidableEq, Repr

/-! ## Strings -/

/-- A part of a string as it is spelled: a character or an escaped 16-bit unit. -/
inductive Piece where
  | char (c : Char)
  | unit (n : Nat)

def hexDigit? (c : Char) : Option Nat :=
  if '0' ≤ c && c ≤ '9' then some (c.toNat - '0'.toNat)
  else if 'a' ≤ c && c ≤ 'f' then some (c.toNat - 'a'.toNat + 10)
  else if 'A' ≤ c && c ≤ 'F' then some (c.toNat - 'A'.toNat + 10)
  else none

def hexUnit? (digits : List Char) : Option Nat :=
  digits.foldlM (fun n c => (hexDigit? c).map (16 * n + ·)) 0

def simpleEscape? : Char → Option Char
  | '"' => some '"'
  | '\\' => some '\\'
  | '/' => some '/'
  | 'b' => some '\x08'
  | 'f' => some '\x0c'
  | 'n' => some '\n'
  | 'r' => some '\r'
  | 't' => some '\t'
  | _ => none

/-- The parts of a string up to its closing quote, and the text behind it. -/
def stringPieces? : List Char → Option (List Piece × List Char)
  | [] => none
  | '"' :: rest => some ([], rest)
  | '\\' :: 'u' :: a :: b :: c :: d :: rest => do
      let unit ← hexUnit? [a, b, c, d]
      let (pieces, behind) ← stringPieces? rest
      return (.unit unit :: pieces, behind)
  | '\\' :: c :: rest => do
      let escaped ← simpleEscape? c
      let (pieces, behind) ← stringPieces? rest
      return (.char escaped :: pieces, behind)
  | c :: rest => do
      if c.toNat < 0x20 then none
      let (pieces, behind) ← stringPieces? rest
      return (.char c :: pieces, behind)

def isHighSurrogate (n : Nat) : Bool := 0xd800 ≤ n && n ≤ 0xdbff

def isLowSurrogate (n : Nat) : Bool := 0xdc00 ≤ n && n ≤ 0xdfff

/-- Joins surrogate pairs. A surrogate that stands alone is no character. -/
def joinPieces? : List Piece → Option (List Char)
  | [] => some []
  | .char c :: rest => (joinPieces? rest).map (c :: ·)
  | .unit high :: .unit low :: rest =>
      if isHighSurrogate high && isLowSurrogate low then
        (joinPieces? rest).map
          (Char.ofNat (0x10000 + (high - 0xd800) * 0x400 + (low - 0xdc00)) :: ·)
      else if isHighSurrogate high || isLowSurrogate high then none
      else (joinPieces? (.unit low :: rest)).map (Char.ofNat high :: ·)
  | .unit unit :: rest =>
      if isHighSurrogate unit || isLowSurrogate unit then none
      else (joinPieces? rest).map (Char.ofNat unit :: ·)

/-! ## Numbers -/

def isDigit (c : Char) : Bool := (Number.digit? c).isSome

/-- At least one digit, and the text behind them. -/
def digits? (cs : List Char) : Option (List Char × List Char) :=
  let digits := cs.takeWhile isDigit
  if digits.isEmpty then none else some (digits, cs.dropWhile isDigit)

/-- Digits of a whole number; a zero stands alone. -/
def wholePart? : List Char → Option (List Char × List Char)
  | '0' :: rest => if rest.head?.any isDigit then none else some (['0'], rest)
  | cs => digits? cs

def fractionPart? : List Char → Option (Option (List Char) × List Char)
  | '.' :: rest => (digits? rest).map fun parts => (some parts.1, parts.2)
  | cs => some (none, cs)

def exponentSign : List Char → Bool × List Char
  | '+' :: rest => (false, rest)
  | '-' :: rest => (true, rest)
  | cs => (false, cs)

def exponentPart? : List Char → Option (Option (Bool × List Char) × List Char)
  | c :: rest =>
      if c = 'e' || c = 'E' then
        let (down, rest) := exponentSign rest
        (digits? rest).map fun parts => (some (down, parts.1), parts.2)
      else some (none, c :: rest)
  | [] => some (none, [])

/-- A number and the text behind it. -/
def number? (cs : List Char) : Option (Option Number × List Char) := do
  let (negative, cs) := match cs with
    | '-' :: rest => (true, rest)
    | cs => (false, cs)
  let (whole, cs) ← wholePart? cs
  let (fraction, cs) ← fractionPart? cs
  let (exponent, cs) ← exponentPart? cs
  return (Number.ofLiteral? negative whole fraction exponent, cs)

/-! ## Texts -/

/-- The first token of a text that does not begin with white space, and the text behind it. -/
def first : List Char → Token × List Char
  | '[' :: rest => (.openArray, rest)
  | ']' :: rest => (.closeArray, rest)
  | '\x7b' :: rest => (.openObject, rest)
  | '\x7d' :: rest => (.closeObject, rest)
  | ',' :: rest => (.comma, rest)
  | ':' :: rest => (.colon, rest)
  | 'n' :: 'u' :: 'l' :: 'l' :: rest => (.null, rest)
  | 't' :: 'r' :: 'u' :: 'e' :: rest => (.bool true, rest)
  | 'f' :: 'a' :: 'l' :: 's' :: 'e' :: rest => (.bool false, rest)
  | '"' :: rest =>
      match stringPieces? rest with
      | some (pieces, rest) => (.string ((joinPieces? pieces).map String.ofList), rest)
      | none => (.invalid, [])
  | cs =>
      match number? cs with
      | some (n, rest) => (.number n, rest)
      | none => (.invalid, [])

def isSpace (c : Char) : Bool := c = ' ' || c = '\t' || c = '\n' || c = '\r'

/-- The tokens of a text, of which there are at most as many as the fuel. -/
def tokensWithin : Nat → List Char → List Token
  | 0, _ => []
  | fuel + 1, cs =>
      match cs.dropWhile isSpace with
      | [] => []
      | c :: rest =>
          let (token, behind) := first (c :: rest)
          token :: tokensWithin fuel behind

/-- The tokens of a text. Nothing is read behind an invalid one. -/
def tokens (text : String) : List Token :=
  let cs := text.toList
  tokensWithin cs.length cs

end Json
end RuleAnalysis
