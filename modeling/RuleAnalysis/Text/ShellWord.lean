namespace RuleAnalysis
namespace Text

/-!
# Shell words

A command line is shown so that it can be pasted into a shell. A word is cut
into the longest chunks that one manner of quoting can carry, and a chunk
takes the lightest manner that carries all of it: bare, then single quotes,
then double quotes.

The manners are chosen so that the text survives interactive shells too:
a backslash never stands in single quotes, `!` never in double quotes, and
`^` only right behind an opening single quote.
-/

/-- The manners of quoting that carry a chunk unharmed. -/
structure Manners where
  bare : Bool
  single : Bool
  double : Bool
  deriving DecidableEq, Repr

namespace Manners

def isEmpty (m : Manners) : Bool :=
  !(m.bare || m.single || m.double)

/-- The manners that carry both of two neighbouring chunks. -/
def meet (m n : Manners) : Manners :=
  ⟨m.bare && n.bare, m.single && n.single, m.double && n.double⟩

def isBareChar (c : Char) : Bool :=
  c.isAlphanum || "+-./:@]_".toList.contains c

/-- The manners that carry a character which continues a chunk. -/
def admitting (c : Char) : Manners where
  bare := isBareChar c
  single := !(c = '\'' || c = '^' || c = '\\')
  double := !(c = '\x60' || c = '$' || c = '!' || c = '^')

/-- The manners that carry a character which opens a chunk. -/
def opening (c : Char) : Manners :=
  if c = '^' then ⟨false, true, false⟩ else admitting c

end Manners

/-- Characters that a backslash protects inside double quotes. -/
def isProtected (c : Char) : Bool :=
  c = '$' || c = '\x60' || c = '"' || c = '\\'

def renderChunk (m : Manners) (chunk : List Char) : List Char :=
  if m.bare then chunk
  else if m.single then '\'' :: chunk ++ ['\'']
  else '"' :: chunk.flatMap (fun c => if isProtected c then ['\\', c] else [c]) ++ ['"']

/-- Extends the open chunk, whose characters stand last first, as far as one manner goes. -/
def renderChunks (m : Manners) (chunk : List Char) : List Char → List Char
  | [] => renderChunk m chunk.reverse
  | c :: rest =>
      let both := m.meet (.admitting c)
      if both.isEmpty then
        renderChunk m chunk.reverse ++ renderChunks (.opening c) [c] rest
      else
        renderChunks both (c :: chunk) rest

/-- The shell's spelling of one word. No word can hold the character NUL. -/
def shellWord? (word : String) : Option String :=
  match word.toList with
  | [] => some "''"
  | c :: rest =>
      if (c :: rest).contains '\x00' then none
      else some (String.ofList (renderChunks (.opening c) [c] rest))

/-- The shell's spelling of a command line. -/
def shellLine? (words : List String) : Option String :=
  (words.mapM shellWord?).map (" ".intercalate ·)

end Text
end RuleAnalysis
