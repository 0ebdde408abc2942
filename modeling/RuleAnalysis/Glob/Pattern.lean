namespace RuleAnalysis
namespace Glob

/-!
# Filename patterns

A pattern is a sequence of tokens: `?` stands for any character, `*` for any
text, `[…]` for one character of a class, `[!…]` for one outside it, and `**`,
which must fill a whole path component, for any directories.

A slash is a character like any other, so `*` may stand for a text with
slashes in it.
-/

/-- A member of a character class: a character, or the characters from one to another. -/
inductive Member where
  | one (c : Char)
  | span (first last : Char)
  deriving DecidableEq, Repr

inductive Token where
  | char (c : Char)
  | anyChar
  | oneOf (members : List Member)
  | noneOf (members : List Member)
  | anyText
  | directories
  deriving DecidableEq, Repr

/-- The class between brackets: a dash between two characters spans what lies between them. -/
def members : List Char → List Member
  | a :: '-' :: b :: rest => .span a b :: members rest
  | a :: rest => .one a :: members rest
  | [] => []

def classToken (negated : Bool) (text : List Char) : Token :=
  if negated then .noneOf (members text) else .oneOf (members text)

mutual

/-- Reads a pattern behind the given character. -/
def tokens? (behind : Option Char) : List Char → Option (List Token)
  | [] => some []
  | '?' :: rest => (tokens? (some '?') rest).map (.anyChar :: ·)
  | '*' :: '*' :: '*' :: _ => none
  | ['*', '*'] =>
      if behind.all (· = '/') then some [.directories] else none
  | '*' :: '*' :: c :: rest =>
      if behind.all (· = '/') && c = '/' then (tokens? (some '/') rest).map (.directories :: ·)
      else none
  | '*' :: rest => (tokens? (some '*') rest).map (.anyText :: ·)
  | '[' :: '!' :: c :: rest => classTokens? true [c] rest
  | '[' :: c :: rest => if c = '!' then none else classTokens? false [c] rest
  | '[' :: [] => none
  | c :: rest => (tokens? (some c) rest).map (.char c :: ·)

/-- Reads the rest of a class, whose characters so far stand last first. -/
def classTokens? (negated : Bool) (text : List Char) : List Char → Option (List Token)
  | [] => none
  | c :: rest =>
      if c = ']' then
        (tokens? (some ']') rest).map (classToken negated text.reverse :: ·)
      else classTokens? negated (c :: text) rest

end

def Member.holds : Member → Char → Bool
  | one d, c => c = d
  | span first last, c => first ≤ c && c ≤ last

/-- Whether a token that stands for one character stands for this one. -/
def Token.admits : Token → Char → Bool
  | char d, c => c = d
  | anyChar, _ => true
  | oneOf members, c => members.any (·.holds c)
  | noneOf members, c => !members.any (·.holds c)
  | anyText, _ => false
  | directories, _ => false

/-- Reads a pattern; a malformed one has no tokens. -/
def parse? (pattern : String) : Option (List Token) :=
  tokens? none pattern.toList

end Glob
end RuleAnalysis
