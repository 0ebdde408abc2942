import RuleAnalysis.Text.Invisible

namespace RuleAnalysis
namespace Text

/-!
# Quoted text

Messages show names, paths and characters between quotation marks. A quoted
text is one line whose invisible characters stand by their code points, so a
message shows exactly what was written.
-/

/-- The escape of one character inside a quotation that ends at `mark`. -/
def escapeChar (mark c : Char) : List Char :=
  if c = '\x00' then ['\\', '0']
  else if c = '\t' then ['\\', 't']
  else if c = '\r' then ['\\', 'r']
  else if c = '\n' then ['\\', 'n']
  else if c = '\\' || c = mark then ['\\', c]
  else if isInvisible c then ['\\', 'u', '\x7b'] ++ Nat.toDigits 16 c.toNat ++ ['\x7d']
  else [c]

def quote (s : String) : String :=
  String.ofList ('"' :: s.toList.flatMap (escapeChar '"') ++ ['"'])

def quoteChar (c : Char) : String :=
  String.ofList ('\'' :: escapeChar '\'' c ++ ['\''])

end Text
end RuleAnalysis
