import RuleAnalysis.Rule.Invocation

namespace RuleAnalysis

/-!
# Messages between an analysis and its host

An analysis that cannot go on emits a batch of requests, and the host answers
it with as many responses in the same order. A request is a query, which the
host can answer by itself, or asks for the output of an action, which may
need the actions recorded so far.
-/

inductive Query where
  | labelOpen (label : Label)
  | contentRefOpen (hash : String)
  | depmapFileOpen (depmap : String) (filename : LabelPath)
  | depmapDirectoryList (depmap : String) (filename : LabelPath)
  | fileExists (label : Label)
  | isFile (label : Label)
  | targetExists (label : Label)
  | loadProviders (target : Label) (config : BuildConfig)
  | loadGlobalProvider (provider : TypeRef) (config : BuildConfig)
  deriving DecidableEq, Repr

inductive Request where
  | query (q : Query)
  | actionOutput (action : Action) (recorded : List Action)
  deriving DecidableEq

/-- What the host reports when an action has run: its tree and, if they were captured, references
to what the program has written. -/
structure ActionOutput where
  files : String
  stdout : Option String
  stderr : Option String
  deriving DecidableEq, Repr

inductive Response where
  | fileHandle (fileno : Int)
  | filenameList (filenames : List LabelPath)
  | boolean (value : Bool)
  | providers (ps : List Provider)
  | provider (p : Provider)
  | actionOutput (output : ActionOutput)
  | none
  deriving DecidableEq

open Decoder in
/-- The body of a message beside its tag, given to a constructor. -/
def messageBody {α : Type} {βs : List Type} (fields : Fields βs) (build : Assembly βs α) :
    Option (Decoder α) :=
  some (Decoder.record fields build)

def messageTag : String := "type"

/-! ## Requests -/

namespace Query

def kind : Query → String
  | labelOpen _ => "label_open"
  | contentRefOpen _ => "content_ref_open"
  | depmapFileOpen .. => "concrete_depmap_file_open"
  | depmapDirectoryList .. => "concrete_depmap_directory_list"
  | fileExists _ => "file_exists"
  | isFile _ => "is_file"
  | targetExists _ => "target_exists"
  | loadProviders .. => "load_providers"
  | loadGlobalProvider .. => "load_global_provider"

/-- The label that a query is about, if it is about one. -/
def label? : Query → Option Label
  | labelOpen l => some l
  | fileExists l => some l
  | isFile l => some l
  | targetExists l => some l
  | loadProviders target _ => some target
  | _ => none

def encode (q : Query) : Json :=
  let tag := (messageTag, Json.string q.kind)
  match q with
  | labelOpen label => .object [("label", label.encode), tag]
  | contentRefOpen hash => .object [("hash", .string hash), tag]
  | depmapFileOpen depmap filename =>
      .object [("depmap", .string depmap), ("filename", filename.encode), tag]
  | depmapDirectoryList depmap filename =>
      .object [("depmap", .string depmap), ("filename", filename.encode), tag]
  | fileExists label => .object [("label", label.encode), tag]
  | isFile label => .object [("label", label.encode), tag]
  | targetExists label => .object [("label", label.encode), tag]
  | loadProviders target config =>
      .object [("build_config", config.encode), ("target", target.encode), tag]
  | loadGlobalProvider provider config =>
      .object [("build_config", config.encode), ("provider", provider.encode), tag]

end Query

namespace Request

def kind : Request → String
  | query q => q.kind
  | actionOutput .. => "action_output"

def kinds : List String :=
  ["label_open", "content_ref_open", "concrete_depmap_file_open",
    "concrete_depmap_directory_list", "file_exists", "is_file", "target_exists",
    "load_providers", "load_global_provider", "action_output"]

def encode : Request → Json
  | query q => q.encode
  | actionOutput action recorded =>
      .object
        [("action", action.encode), ("partial_actions", .array (recorded.map Action.encode)),
          (messageTag, .string "action_output")]

def decode : Decoder Request :=
  let label : Decoder.Fields [Label] := .cons "label" .required Label.decode .nil
  let depmapPath : Decoder.Fields [String, LabelPath] :=
    .cons "depmap" .required Decoder.string (.cons "filename" .required LabelPath.decode .nil)
  Decoder.tagged messageTag kinds false fun
    | "label_open" => messageBody label fun l => query (.labelOpen l)
    | "content_ref_open" =>
        messageBody (.cons "hash" .required Decoder.string .nil)
          fun hash => query (.contentRefOpen hash)
    | "concrete_depmap_file_open" =>
        messageBody depmapPath fun depmap path => query (.depmapFileOpen depmap path)
    | "concrete_depmap_directory_list" =>
        messageBody depmapPath fun depmap path => query (.depmapDirectoryList depmap path)
    | "file_exists" => messageBody label fun l => query (.fileExists l)
    | "is_file" => messageBody label fun l => query (.isFile l)
    | "target_exists" => messageBody label fun l => query (.targetExists l)
    | "load_providers" =>
        messageBody
          (.cons "target" .required Label.decode
            (.cons "build_config" .required BuildConfig.decode .nil))
          fun target config => query (.loadProviders target config)
    | "load_global_provider" =>
        messageBody
          (.cons "provider" .required TypeRef.decode
            (.cons "build_config" .required BuildConfig.decode .nil))
          fun provider config => query (.loadGlobalProvider provider config)
    | "action_output" =>
        messageBody
          (.cons "action" .required Action.decode
            (.cons "partial_actions" .required (Decoder.list Action.decode) .nil))
          actionOutput
    | _ => none

end Request

/-! ## Responses -/

namespace ActionOutput

def members (o : ActionOutput) : List (String × Json) :=
  [("files", .string o.files), ("stderr", .ofOption .string o.stderr),
    ("stdout", .ofOption .string o.stdout)]

def encode (o : ActionOutput) : Json := .object o.members

def fields : Decoder.Fields [String, Option String, Option String] :=
  .cons "files" .required Decoder.string
    (.cons "stdout" (.optional none) (Decoder.nullable Decoder.string)
      (.cons "stderr" (.optional none) (Decoder.nullable Decoder.string) .nil))

def decode : Decoder ActionOutput :=
  Decoder.record fields ActionOutput.mk

end ActionOutput

namespace Response

def kind : Response → String
  | fileHandle _ => "file_handle"
  | filenameList _ => "filename_list"
  | boolean _ => "boolean"
  | providers _ => "providers"
  | provider _ => "provider"
  | actionOutput _ => "action_output"
  | none => "none"

def kinds : List String :=
  ["file_handle", "filename_list", "boolean", "providers", "provider", "action_output", "none"]

def encode (r : Response) : Json :=
  let tag := (messageTag, Json.string r.kind)
  match r with
  | fileHandle fileno => .object [("fileno", .int fileno), tag]
  | filenameList filenames => .object [("filenames", .array (filenames.map LabelPath.encode)), tag]
  | boolean value => .object [tag, ("value", .bool value)]
  | providers ps => .object [("providers", .array (ps.map Provider.encode)), tag]
  | provider p => .object [("provider", p.encode), tag]
  | actionOutput output => .object (output.members ++ [tag])
  | none => .object [tag]

def decode (nested : Bool) : Decoder Response :=
  Decoder.tagged messageTag kinds nested fun
    | "file_handle" => messageBody (.cons "fileno" .required Decoder.signed32 .nil) fileHandle
    | "filename_list" =>
        messageBody (.cons "filenames" .required (Decoder.list LabelPath.decode) .nil) filenameList
    | "boolean" => messageBody (.cons "value" .required Decoder.bool .nil) boolean
    | "providers" =>
        messageBody (.cons "providers" .required (Decoder.list Provider.decode) .nil) providers
    | "provider" => messageBody (.cons "provider" .required Provider.decode .nil) provider
    | "action_output" =>
        messageBody ActionOutput.fields fun files stdout stderr =>
          actionOutput ⟨files, stdout, stderr⟩
    | "none" => some (Decoder.fieldless none)
    | _ => Option.none

end Response

/-! ## Steps of a session -/

/-- What the host hands in: the first step, or its answers to the last batch. -/
inductive SessionEvent where
  | firstPoll
  | responses (rs : List Response)
  deriving DecidableEq

namespace SessionEvent

/-- The first step brings no answers. -/
def answers : SessionEvent → List Response
  | firstPoll => []
  | responses rs => rs

def encode : SessionEvent → Json
  | firstPoll => .object [(messageTag, .string "first_poll")]
  | responses rs => .array (rs.map Response.encode)

/-- Both forms are tried on what has been read to its end. Why neither fits is not told. -/
def decode : Decoder SessionEvent := fun d =>
  if d.tree?.isNone then .error .malformed
  else
    let marker : Decoder SessionEvent := Decoder.tagged messageTag ["first_poll"] true fun
      | "first_poll" => some (Decoder.fieldless firstPoll)
      | _ => none
    let batch : Decoder SessionEvent := fun d =>
      (Decoder.list (Response.decode true) d).map responses
    match [marker, batch].findSome? fun attempt => (attempt d).toOption with
    | some event => .ok event
    | none => .error .malformed

end SessionEvent

/-- What a step hands back: requests that the host must answer, or the finished analysis. -/
inductive SessionOutcome where
  | requests (rs : List Request)
  | done (analysis : Analysis)
  deriving DecidableEq

namespace SessionOutcome

def encode : SessionOutcome → Json
  | requests rs => .object [("requests", .array (rs.map Request.encode))]
  | done analysis => .object [("done", analysis.encode)]

def decode : Decoder SessionOutcome :=
  Decoder.variant false fun
    | "requests" => some fun d => (Decoder.list Request.decode d).map requests
    | "done" => some fun d => (Analysis.decode d).map done
    | _ => none

end SessionOutcome

end RuleAnalysis
