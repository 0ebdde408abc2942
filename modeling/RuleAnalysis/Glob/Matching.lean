import RuleAnalysis.Glob.Pattern

namespace RuleAnalysis
namespace Glob

/-!
# Matching filenames

What tokens match is said by `matchTokens`, which tries every text that `*`
and `**` may stand for. Trying them one after the other takes a time that
doubles with every further `*`. `matchEnds` answers for all ends of a
filename at once, from the last token to the first, so that each token costs
one pass over the filename. Main statement: both give the same answers.
-/

/-- The ends of a text, the whole text first. -/
def suffixes : List Char → List (List Char)
  | [] => [[]]
  | c :: cs => (c :: cs) :: suffixes cs

/-- The texts behind the slashes of a text, and the empty text behind it all. -/
def afterSlashes : List Char → List (List Char)
  | [] => [[]]
  | c :: cs => if c = '/' then cs :: afterSlashes cs else afterSlashes cs

/-- What may follow directories: the whole text, the text behind one of its slashes, or nothing. -/
def behindDirectories (item : List Char) : List (List Char) :=
  item :: afterSlashes item

def matchTokens : List Token → List Char → Bool
  | [], item => item.isEmpty
  | .anyText :: rest, item => (suffixes item).any (matchTokens rest)
  | .directories :: rest, item => (behindDirectories item).any (matchTokens rest)
  | _ :: _, [] => false
  | token :: rest, c :: item => token.admits c && matchTokens rest item

/-! ## All ends at once -/

/-- Whether any answer holds at a place or behind it, for each place. -/
def anyFrom : List Bool → List Bool
  | [] => []
  | b :: bs =>
      match anyFrom bs with
      | [] => [b]
      | later :: rest => (b || later) :: later :: rest

/-- Whether the answer behind an admitted character holds, for each place; at the end the given
answer stands. -/
def stepOver (admits : Char → Bool) (final : Bool) (item : List Char) (ends : List Bool) :
    List Bool :=
  List.zipWith (fun c later => admits c && later) item ends.tail ++ [final]

/-- The answers for a token in front of tokens whose answers are given. -/
def Token.extend (item : List Char) (ends : List Bool) : Token → List Bool
  | anyText => anyFrom ends
  | directories =>
      List.zipWith (· || ·) ends
        (anyFrom (stepOver (· = '/') (ends.getLast?.getD false) item ends))
  | token => stepOver token.admits false item ends

/-- Which ends of a text tokens match, the whole text first. -/
def matchEnds (tokens : List Token) (item : List Char) : List Bool :=
  tokens.foldr (fun token ends => token.extend item ends) ((suffixes item).map List.isEmpty)

def isMatch (tokens : List Token) (item : List Char) : Bool :=
  (matchEnds tokens item).head?.getD false

/-! ## Both answers agree -/

theorem exists_suffixes_eq_cons (item : List Char) : ∃ rest, suffixes item = item :: rest := by
  cases item with
  | nil => exact ⟨[], rfl⟩
  | cons c item => exact ⟨suffixes item, rfl⟩

theorem anyFrom_map_suffixes (f : List Char → Bool) (item : List Char) :
    anyFrom ((suffixes item).map f) = (suffixes item).map fun s => (suffixes s).any f := by
  induction item with
  | nil => simp [suffixes, anyFrom]
  | cons c item inductionHypothesis =>
      rw [suffixes, List.map_cons, List.map_cons, anyFrom, inductionHypothesis]
      obtain ⟨rest, unfolded⟩ := exists_suffixes_eq_cons item
      simp only [suffixes, unfolded, List.map_cons, List.any_cons]

theorem stepOver_map_suffixes (admits : Char → Bool) (final : Bool) (f : List Char → Bool)
    (item : List Char) :
    stepOver admits final item ((suffixes item).map f) =
      (suffixes item).map fun
        | [] => final
        | c :: s => admits c && f s := by
  induction item with
  | nil => rfl
  | cons c item inductionHypothesis =>
      obtain ⟨rest, unfolded⟩ := exists_suffixes_eq_cons item
      simp only [stepOver, suffixes, unfolded, List.map_cons, List.tail_cons, List.zipWith_cons_cons,
        List.cons_append] at inductionHypothesis ⊢
      rw [inductionHypothesis]

theorem getLast?_map_suffixes (f : List Char → Bool) (item : List Char) :
    ((suffixes item).map f).getLast? = some (f []) := by
  induction item with
  | nil => rfl
  | cons c item inductionHypothesis =>
      obtain ⟨rest, unfolded⟩ := exists_suffixes_eq_cons item
      simp only [suffixes, unfolded, List.map_cons, List.getLast?_cons_cons] at inductionHypothesis ⊢
      exact inductionHypothesis

/-- What holds behind a slash at some place, or at the end, holds of a text behind a slash. -/
theorem any_suffixes_slash (f : List Char → Bool) (item : List Char) :
    ((suffixes item).any fun
      | [] => f []
      | c :: s => decide (c = '/') && f s) = (afterSlashes item).any f := by
  induction item with
  | nil => rfl
  | cons c item inductionHypothesis =>
      simp only [suffixes, List.any_cons, inductionHypothesis, afterSlashes]
      by_cases slash : c = '/' <;> simp [slash]

theorem extend_map_suffixes (token : Token) (rest : List Token) (item : List Char) :
    token.extend item ((suffixes item).map (matchTokens rest)) =
      (suffixes item).map (matchTokens (token :: rest)) := by
  cases token with
  | anyText => exact anyFrom_map_suffixes _ item
  | directories =>
      simp only [Token.extend, getLast?_map_suffixes, Option.getD_some, stepOver_map_suffixes,
        anyFrom_map_suffixes, any_suffixes_slash, List.zipWith_map, List.zipWith_self]
      rfl
  | char c | anyChar | oneOf members | noneOf members =>
      simp only [Token.extend, stepOver_map_suffixes]
      apply List.map_congr_left
      intro s _
      cases s <;> rfl

theorem matchEnds_eq_map (tokens : List Token) (item : List Char) :
    matchEnds tokens item = (suffixes item).map (matchTokens tokens) := by
  induction tokens with
  | nil => rfl
  | cons token rest inductionHypothesis =>
      calc
        matchEnds (token :: rest) item = token.extend item (matchEnds rest item) := rfl
        _ = _ := by rw [inductionHypothesis, extend_map_suffixes]

/-- The quick answer is the one that trying all texts gives. -/
theorem isMatch_eq_matchTokens (tokens : List Token) (item : List Char) :
    isMatch tokens item = matchTokens tokens item := by
  obtain ⟨rest, unfolded⟩ := exists_suffixes_eq_cons item
  simp only [isMatch, matchEnds_eq_map, unfolded, List.map_cons, List.head?_cons, Option.getD_some]

end Glob
end RuleAnalysis
