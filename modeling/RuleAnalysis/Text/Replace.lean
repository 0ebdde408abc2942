namespace RuleAnalysis
namespace Text

/-!
# Replacing

Occurrences of a text are found from left to right and do not overlap; what is
put in their place is not searched again.
-/

/-- Replaces a pattern. The count tells how many characters of a found occurrence are still to be
passed over. -/
def replaceFrom (pattern replacement : List Char) : Nat → List Char → List Char
  | _, [] => []
  | passed + 1, _ :: cs => replaceFrom pattern replacement passed cs
  | 0, c :: cs =>
      if pattern.isPrefixOf (c :: cs) then
        replacement ++ replaceFrom pattern replacement (pattern.length - 1) cs
      else c :: replaceFrom pattern replacement 0 cs

/-- Replaces every occurrence of a pattern that is not empty. -/
def replaceAll (text pattern replacement : String) : String :=
  String.ofList (replaceFrom pattern.toList replacement.toList 0 text.toList)

end Text
end RuleAnalysis
