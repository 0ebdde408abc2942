import RuleAnalysis.Value.Codec

namespace RuleAnalysis

/-!
# Entries of depmaps

A depmap is a tree of files that is described by overlays: each entry is laid
over what the entries before it have put in its place.
-/

inductive DepmapEntry where
  /-- The whole tree at an address. -/
  | reference (target : Label)
  | directory
  | file (content : String) (executable : Bool)
  | symlink (target : String)
  /-- The entries of a tree whose paths match one of some regular expressions, under a prefix. -/
  | filter (base : Label) (under : LabelPath) (patterns : List String)
  deriving DecidableEq, Repr

namespace DepmapEntry

/-! ## Simple globs -/

/-- The characters that have a meaning in regular expressions. -/
def isMeta (c : Char) : Bool :=
  "\\.+*?()|[]\x7b\x7d^$#&-~".toList.contains c

/-- The regular expression that matches a text literally. -/
def literal (cs : List Char) : List Char :=
  cs.flatMap fun c => if isMeta c then ['\\', c] else [c]

/-- A glob may have one star, at its beginning or its end, beside at least one other character. The
regular expression is anchored where there is no star. -/
def translateGlob (glob : String) : Except LabelError String :=
  let cs := glob.toList
  let stars := cs.count '*'
  if cs.head? = some '*' then
    if stars = 1 && cs ≠ ['*'] then .ok (String.ofList (literal cs.tail ++ ['$']))
    else .error (.invalidGlob glob)
  else if cs.getLast? = some '*' then
    if stars = 1 then .ok (String.ofList ('^' :: literal cs.dropLast))
    else .error (.invalidGlob glob)
  else if cs ≠ [] && stars = 0 then .ok (String.ofList ('^' :: literal cs ++ ['$']))
  else .error (.invalidGlob glob)

/-- The entries of a tree that match simple globs. A malformed one fails before anything is
built. -/
def glob (base : Label) (patterns : List String) : Except LabelError DepmapEntry := do
  return .filter base .top (← patterns.mapM translateGlob)

/-! ## On the wire -/

def encode : DepmapEntry → Json
  | reference target => .object [("reference", target.encode)]
  | directory => .object [("directory", .object [])]
  | file content executable =>
      .object [("file", .object [("content", .string content), ("executable", .bool executable)])]
  | symlink target => .object [("symlink", .object [("target", .string target)])]
  | filter base under patterns =>
      .object [("filter", .object
        [("base", base.encode), ("patterns", .array (patterns.map .string)),
          ("prefix", under.encode)])]

def decode (nested : Bool) : Decoder DepmapEntry :=
  Decoder.variant nested fun
    | "reference" => some fun d => (Label.decode d).map reference
    | "directory" => some (Decoder.record .nil directory)
    | "file" => some (Decoder.record
        (.cons "content" .required Decoder.string
          (.cons "executable" .required Decoder.bool .nil))
        file)
    | "symlink" => some (Decoder.record (.cons "target" .required Decoder.string .nil) symlink)
    | "filter" => some (Decoder.record
        (.cons "base" .required Label.decode
          (.cons "prefix" .required LabelPath.decode
            (.cons "patterns" .required (Decoder.list Decoder.string) .nil)))
        filter)
    | _ => none

end DepmapEntry

end RuleAnalysis
