import RuleAnalysis.Value.Basic
import RuleAnalysis.Text.Quoted

namespace RuleAnalysis

/-!
# Values in structural notation

Messages for people show a value by its form and its parts, such as
`List([Null, Bool(true)])`, so that values which are alike as plain text can be
told apart.
-/

/-- Parts between brackets with commas between them. -/
def bracketed (opening : String) (parts : List String) (closing : String) : String :=
  opening ++ ", ".intercalate parts ++ closing

namespace Glob

def Member.describe : Member → String
  | one c => "SingleChar(" ++ Text.quoteChar c ++ ")"
  | span first last => "CharRange(" ++ Text.quoteChar first ++ ", " ++ Text.quoteChar last ++ ")"

def Token.describe : Token → String
  | char c => "Char(" ++ Text.quoteChar c ++ ")"
  | anyChar => "AnyChar"
  | oneOf members => bracketed "AnyWithin([" (members.map Member.describe) "])"
  | noneOf members => bracketed "AnyExcept([" (members.map Member.describe) "])"
  | anyText => "AnySequence"
  | directories => "AnyRecursiveSequence"

/-- The tokens as they are shown: behind the second token, directories are not repeated. -/
def shownTokens (tokens : List Token) : List Token :=
  tokens.foldl
    (fun shown token =>
      if token = .directories && 1 < shown.length && shown.getLast? = some .directories then shown
      else shown ++ [token])
    []

def describe (pattern : String) : String :=
  let tokens := (parse? pattern).getD []
  let recursive := if tokens.contains .directories then "true" else "false"
  let plain := tokens.all fun
    | .char _ => true
    | _ => false
  "Pattern \x7b original: " ++ Text.quote pattern
    ++ bracketed ", tokens: [" ((shownTokens tokens).map Token.describe) "]"
    ++ ", is_recursive: " ++ recursive
    ++ ", has_metachars: " ++ (if plain then "false" else "true") ++ " \x7d"

end Glob

def Label.describe (l : Label) : String :=
  "Label(" ++ Text.quote l.text ++ ")"

def TypeRef.describe (r : TypeRef) : String :=
  "TypeRef \x7b source_label: " ++ r.sourceLabel.describe ++ ", qualname: "
    ++ Text.quote r.qualifiedName ++ " \x7d"

mutual

def Value.describe : Value → String
  | .null => "Null"
  | .bool b => if b then "Bool(true)" else "Bool(false)"
  | .number n => "Number(Number(" ++ String.ofList n.chars ++ "))"
  | .string s => "String(" ++ Text.quote s ++ ")"
  | .list items => bracketed "List([" (Value.describeItems items) "])"
  | .map entries => bracketed "Map(\x7b" (Value.describeEntries entries) "\x7d)"
  | .label l => "Label(" ++ l.describe ++ ")"
  | .labelPath p => "LabelPath(LabelPath(" ++ Text.quote p.text ++ "))"
  | .provider p => "Provider(" ++ p.describe ++ ")"
  | .option reference => "Option(" ++ reference.describe ++ ")"
  | .selection s => "Selection(" ++ s.describe ++ ")"
  | .globSet set =>
      bracketed "GlobSet(GlobSet \x7b patterns: [" (set.patterns.map Glob.describe) "] \x7d)"

def Value.describeItems : List Value → List String
  | [] => []
  | item :: rest => item.describe :: Value.describeItems rest

def Value.describeEntries : List (String × Value) → List String
  | [] => []
  | (key, value) :: rest =>
      (Text.quote key ++ ": " ++ value.describe) :: Value.describeEntries rest

def Value.describeBranches : List (TypeRef × Value) → List String
  | [] => []
  | (option, value) :: rest =>
      ("(" ++ option.describe ++ ", " ++ value.describe ++ ")") :: Value.describeBranches rest

def Provider.describe : Provider → String
  | ⟨reference, data⟩ =>
      "Provider \x7b reference: " ++ reference.describe ++ ", data: "
        ++ bracketed "\x7b" (Value.describeEntries data) "\x7d" ++ " \x7d"

def Selection.describe : Selection → String
  | ⟨mapping, default⟩ =>
      bracketed "Selection \x7b mapping: [" (Value.describeBranches mapping) "]"
        ++ ", default: " ++ default.describe ++ " \x7d"

end

/-- The form in which a provider is shown on its own. -/
def Provider.display (p : Provider) : String :=
  bracketed (p.reference.qualifiedName ++ "(")
    (p.data.map fun entry => entry.1 ++ "=" ++ entry.2.describe) ")"

end RuleAnalysis
