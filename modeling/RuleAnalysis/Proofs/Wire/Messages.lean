import RuleAnalysis.Proofs.Wire.Actions
import RuleAnalysis.Protocol.Message

namespace RuleAnalysis

/-!
# Messages on the wire and back

Whatever an analysis and its host tell each other is understood as it was
meant. Messages are told apart by their tags, and where there is none the form
that fits is the one that was written. Only one thing is not told: whether an
action's id has been chosen by its rule. Actions that differ in nothing else
agree, and so do the messages that hold them.
-/

open Decoder (Takes)

/-- What is written is read as something that agrees with it. -/
def Decoder.Understands {α : Type} (read : Decoder α) (encode : α → Json) (agrees : α → α → Prop)
    (a : α) : Prop :=
  ∃ a', read.Takes (encode a) a' ∧ agrees a' a

/-! ## Invocations and analyses -/

structure RuleInvocation.Encodable (i : RuleInvocation) : Prop where
  rule : i.rule.WellFormed
  input : i.attributesInput.Ordered
  values : ∀ entry ∈ i.attributesInput, entry.2.Encodable
  mounts : i.outputMounts.Ordered

theorem RuleInvocation.decode_takes_encode {i : RuleInvocation} (sound : i.Encodable) :
    decode.Takes i.encode i := by
  have input : (Decoder.dictionary Value.decode).Takes
      (.object (Value.encodeEntries i.attributesInput)) i.attributesInput := by
    rw [Value.encodeEntries_eq_map]
    exact Decoder.dictionary_takes_map sound.input fun entry member =>
      Value.decode_takes_encode (sound.values entry member)
  exact Decoder.record_takes_object (by decide) (by simp)
    ⟨i.name, rfl, i.rule, TypeRef.decode_takes_encode sound.rule, i.attributesInput, input,
      i.outputMounts, Decoder.dictionary_takes_map sound.mounts fun _ _ => rfl, rfl⟩

namespace Action

/-- Actions agree one by one. -/
def AllAgree (as bs : List Action) : Prop := List.Forall₂ (fun a b => a.agrees b) as bs

/-- The action as it is read back. -/
def pinned (a : Action) : Action := a.withId a.id

theorem allAgree_pinned (as : List Action) : AllAgree (as.map pinned) as := by
  rw [AllAgree, List.forall₂_map_left_iff, List.forall₂_same]
  exact fun a _ => a.agrees_withId

theorem list_takes_pinned {as : List Action} (sound : ∀ a ∈ as, a.Encodable) :
    (Decoder.list decode).Takes (.array (as.map encode)) (as.map pinned) :=
  Decoder.list_takes_map _ fun a member => decode_takes_encode (sound a member)

end Action

namespace Analysis

structure Encodable (a : Analysis) : Prop where
  actions : ∀ action ∈ a.actions, action.Encodable
  targets : ∀ target ∈ a.syntheticTargets, target.Encodable
  providers : ∀ p ∈ a.providers, p.Encodable

/-- The actions agree, and all else is the same. -/
structure Agrees (a b : Analysis) : Prop where
  actions : Action.AllAgree a.actions b.actions
  targets : a.syntheticTargets = b.syntheticTargets
  providers : a.providers = b.providers

theorem understands {a : Analysis} (sound : a.Encodable) : decode.Understands encode Agrees a := by
  refine ⟨⟨a.actions.map Action.pinned, a.syntheticTargets, a.providers⟩, ?_,
    Action.allAgree_pinned _, rfl, rfl⟩
  exact Decoder.record_takes_object (by decide) (by simp)
    ⟨_, Action.list_takes_pinned sound.actions,
      a.syntheticTargets, Decoder.list_takes fun target member =>
        RuleInvocation.decode_takes_encode (sound.targets target member),
      a.providers, Decoder.list_takes fun p member =>
        Provider.decode_takes_encode (sound.providers p member), rfl⟩

end Analysis

/-! ## Requests -/

namespace Query

def Encodable : Query → Prop
  | labelOpen l => l.WellFormed
  | contentRefOpen _ => True
  | depmapFileOpen _ path => path.text ≠ "."
  | depmapDirectoryList _ path => path.text ≠ "."
  | fileExists l => l.WellFormed
  | isFile l => l.WellFormed
  | targetExists l => l.WellFormed
  | loadProviders target config => target.WellFormed ∧ config.Encodable
  | loadGlobalProvider provider config => provider.WellFormed ∧ config.Encodable

/-- The members of the object as which a query is written. -/
def members (q : Query) : List (String × Json) :=
  match q.encode with
  | .object members => members
  | _ => []

theorem encode_eq (q : Query) : q.encode = .object q.members := by
  cases q <;> rfl

theorem once_members (q : Query) : (Dictionary.keys q.members).Nodup := by
  cases q <;> simp [members, encode, messageTag]

theorem tag_mem_members (q : Query) : (messageTag, .string q.kind) ∈ q.members := by
  cases q <;> simp [members, encode]

end Query

namespace Request

def Encodable : Request → Prop
  | query q => q.Encodable
  | actionOutput action recorded => action.Encodable ∧ ∀ a ∈ recorded, a.Encodable

/-- The actions agree, and all else is the same. -/
inductive Agrees : Request → Request → Prop
  | query (q : Query) : Agrees (query q) (query q)
  | actionOutput {a b : Action} {as bs : List Action} (action : a.agrees b)
      (recorded : Action.AllAgree as bs) : Agrees (actionOutput a as) (actionOutput b bs)

/-- Each query is read by the fields of its kind. -/
theorem decode_takes_query {q : Query} (sound : q.Encodable) :
    decode.Takes q.encode (query q) := by
  have once := q.once_members
  have isTagged := q.tag_mem_members
  rw [q.encode_eq]
  cases q with
  | labelOpen l =>
      refine Decoder.tagged_record_takes _ rfl (by decide) once isTagged ?_
      exact ⟨l, Label.decode_takes_iff.mpr ⟨rfl, sound⟩, rfl⟩
  | contentRefOpen hash =>
      refine Decoder.tagged_record_takes _ rfl (by decide) once isTagged ?_
      exact ⟨hash, rfl, rfl⟩
  | depmapFileOpen depmap path =>
      refine Decoder.tagged_record_takes _ rfl (by decide) once isTagged ?_
      exact ⟨depmap, rfl, path, LabelPath.decode_takes_encode sound, rfl⟩
  | depmapDirectoryList depmap path =>
      refine Decoder.tagged_record_takes _ rfl (by decide) once isTagged ?_
      exact ⟨depmap, rfl, path, LabelPath.decode_takes_encode sound, rfl⟩
  | fileExists l =>
      refine Decoder.tagged_record_takes _ rfl (by decide) once isTagged ?_
      exact ⟨l, Label.decode_takes_iff.mpr ⟨rfl, sound⟩, rfl⟩
  | isFile l =>
      refine Decoder.tagged_record_takes _ rfl (by decide) once isTagged ?_
      exact ⟨l, Label.decode_takes_iff.mpr ⟨rfl, sound⟩, rfl⟩
  | targetExists l =>
      refine Decoder.tagged_record_takes _ rfl (by decide) once isTagged ?_
      exact ⟨l, Label.decode_takes_iff.mpr ⟨rfl, sound⟩, rfl⟩
  | loadProviders target config =>
      refine Decoder.tagged_record_takes _ rfl (by decide) once isTagged ?_
      exact ⟨target, Label.decode_takes_iff.mpr ⟨rfl, sound.1⟩,
          config, BuildConfig.decode_takes_encode sound.2, rfl⟩
  | loadGlobalProvider provider config =>
      refine Decoder.tagged_record_takes _ rfl (by decide) once isTagged ?_
      exact ⟨provider, TypeRef.decode_takes_encode sound.1,
          config, BuildConfig.decode_takes_encode sound.2, rfl⟩

/-- The request as it is read back. -/
def pinned : Request → Request
  | query q => query q
  | actionOutput action recorded => actionOutput action.pinned (recorded.map Action.pinned)

theorem pinned_agrees (r : Request) : r.pinned.Agrees r := by
  cases r with
  | query q => exact .query q
  | actionOutput action recorded =>
      exact .actionOutput action.agrees_withId (Action.allAgree_pinned recorded)

theorem decode_takes_encode {r : Request} (sound : r.Encodable) :
    decode.Takes r.encode r.pinned := by
  cases r with
  | query q => exact decode_takes_query sound
  | actionOutput action recorded =>
      refine Decoder.tagged_record_takes "action_output" rfl (by decide) (by simp [messageTag])
        (by simp) ?_
      exact ⟨action.pinned, Action.decode_takes_encode sound.1,
          recorded.map Action.pinned, Action.list_takes_pinned sound.2, rfl⟩

theorem understands {r : Request} (sound : r.Encodable) : decode.Understands encode Agrees r :=
  ⟨r.pinned, decode_takes_encode sound, r.pinned_agrees⟩

end Request

/-! ## Responses -/

namespace Response

/-- Numbers of descriptors fit into 32 bits. -/
def Encodable : Response → Prop
  | fileHandle fileno => (Number.integer fileno).signed32? = some fileno
  | filenameList filenames => ∀ path ∈ filenames, path.text ≠ "."
  | providers ps => ∀ p ∈ ps, p.Encodable
  | provider p => p.Encodable
  | _ => True

/-- The members of the object as which a response is written. -/
def members (r : Response) : List (String × Json) :=
  match r.encode with
  | .object members => members
  | _ => []

theorem encode_eq (r : Response) : r.encode = .object r.members := by
  cases r <;> rfl

theorem once_members (r : Response) : (Dictionary.keys r.members).Nodup := by
  cases r <;> simp [members, encode, messageTag, ActionOutput.members]

theorem tag_mem_members (r : Response) : (messageTag, .string r.kind) ∈ r.members := by
  cases r <;> simp [members, encode]

theorem decode_takes_encode {r : Response} (sound : r.Encodable) (nested : Bool) :
    (decode nested).Takes r.encode r := by
  have once := r.once_members
  have isTagged := r.tag_mem_members
  rw [r.encode_eq]
  cases r with
  | fileHandle fileno =>
      refine Decoder.tagged_record_takes _ rfl (by decide) once isTagged ?_
      exact ⟨fileno, Decoder.signed32_takes_int sound, rfl⟩
  | filenameList filenames =>
      refine Decoder.tagged_record_takes _ rfl (by decide) once isTagged ?_
      exact ⟨filenames, Decoder.list_takes fun path member =>
          LabelPath.decode_takes_encode (sound path member), rfl⟩
  | boolean value =>
      refine Decoder.tagged_record_takes _ rfl (by decide) once isTagged ?_
      exact ⟨value, rfl, rfl⟩
  | providers ps =>
      refine Decoder.tagged_record_takes _ rfl (by decide) once isTagged ?_
      exact ⟨ps, Decoder.list_takes fun p member => Provider.decode_takes_encode (sound p member),
        rfl⟩
  | provider p =>
      refine Decoder.tagged_record_takes _ rfl (by decide) once isTagged ?_
      exact ⟨p, Provider.decode_takes_encode sound, rfl⟩
  | actionOutput output =>
      refine Decoder.tagged_record_takes _ rfl (by decide) once isTagged ?_
      exact ⟨output.files, rfl, output.stdout, ActionData.optional_string_takes _,
          output.stderr, ActionData.optional_string_takes _, rfl⟩
  | none =>
      refine (Decoder.tagged_takes_iff once isTagged rfl).mpr ?_
      rfl

end Response

/-! ## Steps of a session -/

namespace SessionEvent

def Encodable : SessionEvent → Prop
  | firstPoll => True
  | responses rs => ∀ r ∈ rs, r.Encodable

/-- An array of responses does not begin with the name of a marker. -/
theorem not_marker_of_responses (rs : List Response) {names : List String}
    {body : String → Option (Decoder SessionEvent)} {e : SessionEvent} :
    ¬ (Decoder.tagged messageTag names true body).Takes (.array (rs.map Response.encode)) e := by
  intro takes
  rw [Takes, Document.ofTree_array, Decoder.tagged] at takes
  split at takes
  · cases takes
  · cases rs with
    | nil => cases takes
    | cons r rest =>
        simp [r.encode_eq, Document.ofTree_object, Decoder.tagName?] at takes

def marker : Decoder SessionEvent :=
  Decoder.tagged messageTag ["first_poll"] true fun
    | "first_poll" => some (Decoder.fieldless firstPoll)
    | _ => none

def batch : Decoder SessionEvent := fun d =>
  (Decoder.list (Response.decode true) d).map responses

theorem decode_eq : decode = Decoder.firstOf [marker, batch] := by
  funext d
  unfold decode Decoder.firstOf marker batch
  dsimp only
  generalize List.findSome? _ _ = found
  cases found <;> rfl

theorem decode_takes_encode {e : SessionEvent} (sound : e.Encodable) : decode.Takes e.encode e := by
  rw [decode_eq]
  cases e with
  | firstPoll =>
      refine Decoder.firstOf_takes [] [batch] nofun ?_
      refine (Decoder.tagged_takes_iff (by simp) (List.mem_singleton_self _) rfl).mpr ?_
      rfl
  | responses rs =>
      refine Decoder.firstOf_takes [marker] [] ?_ (Success.map_eq_ok_iff.mpr ⟨rs, ?_, rfl⟩)
      · exact List.forall_mem_singleton.mpr fun _ => not_marker_of_responses rs
      · exact Decoder.list_takes fun r member => Response.decode_takes_encode (sound r member) true

end SessionEvent

namespace SessionOutcome

def Encodable : SessionOutcome → Prop
  | requests rs => ∀ r ∈ rs, r.Encodable
  | done analysis => analysis.Encodable

/-- The actions agree, and all else is the same. -/
inductive Agrees : SessionOutcome → SessionOutcome → Prop
  | requests {rs qs : List Request} (each : List.Forall₂ Request.Agrees rs qs) :
      Agrees (requests rs) (requests qs)
  | done {a b : Analysis} (analysis : a.Agrees b) : Agrees (done a) (done b)

theorem understands {o : SessionOutcome} (sound : o.Encodable) :
    decode.Understands encode Agrees o := by
  cases o with
  | requests rs =>
      refine ⟨requests (rs.map Request.pinned), ?_, .requests ?_⟩
      · refine Decoder.variant_takes_iff.mpr ⟨_, rfl, Success.map_eq_ok_iff.mpr ⟨_, ?_, rfl⟩⟩
        exact Decoder.list_takes_map _ fun r member => Request.decode_takes_encode (sound r member)
      · rw [List.forall₂_map_left_iff, List.forall₂_same]
        exact fun r _ => r.pinned_agrees
  | done analysis =>
      rcases Analysis.understands sound with ⟨read, takes, agrees⟩
      refine ⟨done read, ?_, .done agrees⟩
      exact Decoder.variant_takes_iff.mpr ⟨_, rfl, Success.map_eq_ok_iff.mpr ⟨_, takes, rfl⟩⟩

end SessionOutcome

/-! ## The whole protocol -/

/-- Every message whose labels can be read, whose label paths are not a single dot, whose maps have
no sentinel among their names and whose actions have no empty id is read back from the tree as which
it is written: as itself, but for who has chosen the ids of actions. -/
theorem messages_read_back :
    (∀ r : Request, r.Encodable → Request.decode.Understands Request.encode Request.Agrees r) ∧
    (∀ r : Response, r.Encodable → ∀ nested, (Response.decode nested).Takes r.encode r) ∧
    (∀ e : SessionEvent, e.Encodable → SessionEvent.decode.Takes e.encode e) ∧
    (∀ o : SessionOutcome, o.Encodable →
      SessionOutcome.decode.Understands SessionOutcome.encode SessionOutcome.Agrees o) ∧
    (∀ a : Analysis, a.Encodable →
      Analysis.decode.Understands Analysis.encode Analysis.Agrees a) ∧
    (∀ i : RuleInvocation, i.Encodable → RuleInvocation.decode.Takes i.encode i) ∧
    ∀ c : BuildConfig, c.Encodable → BuildConfig.decode.Takes c.encode c :=
  ⟨fun _ => Request.understands, fun _ => Response.decode_takes_encode,
    fun _ => SessionEvent.decode_takes_encode, fun _ => SessionOutcome.understands,
    fun _ => Analysis.understands, fun _ => RuleInvocation.decode_takes_encode,
    fun _ => BuildConfig.decode_takes_encode⟩

/-- A program with arguments of all forms and a platform, asked for and handed over. -/
theorem messages_read_back_program :
    let type : TypeRef := ⟨⟨"//p:f"⟩, "P"⟩
    let tree : Label := ⟨"//p:t"⟩
    let platform : Provider := ⟨type, [("$trellis_label", .list [.label tree, .labelPath ⟨"a/b"⟩])]⟩
    let run : Run :=
      { Run.ofCommand ⟨some "cc", some tree, "/bin/cc", ["/bin"], []⟩
          [.literal "-c", .templated "%s" tree, .respfile "@%s" tree, .label tree] with
        environment := [("A", "1"), ("B", "2")]
        platform := some platform }
    let action : Action := ⟨none, "Cc", "compiling", .run run⟩
    let outcome : SessionOutcome := .done ⟨[action], [], [platform]⟩
    let event : SessionEvent := .responses [.provider platform, .none]
    (Request.actionOutput action [action]).Encodable ∧
    Request.decode.Understands Request.encode Request.Agrees (.actionOutput action [action]) ∧
    outcome.Encodable ∧
    SessionOutcome.decode.Understands SessionOutcome.encode SessionOutcome.Agrees outcome ∧
    event.Encodable ∧ SessionEvent.decode.Takes event.encode event := by
  intro type tree platform run action outcome event
  rcases messages_read_back with ⟨requests, _, events, outcomes, _⟩
  have label : tree.WellFormed := by decide
  have items : (Value.list [.label tree, .labelPath ⟨"a/b"⟩]).Encodable :=
    .intro trivial (List.forall_mem_cons.mpr
      ⟨.leaf label rfl, List.forall_mem_singleton.mpr (.leaf (by decide) rfl)⟩)
  have provided : platform.Encodable := .intro (by decide) (List.forall_mem_singleton.mpr items)
  have program : run.Encodable :=
    { executable := fun l is => by cases is; exact label
      arguments := by simp [run, Run.ofCommand, Argument.Encodable, label]
      input := nofun
      environment := by decide
      environmentFiles := nofun
      platform := fun p is => by cases is; exact provided
      structuredMessages := nofun }
  have sound : action.Encodable := ⟨program, nofun⟩
  have asked : (Request.actionOutput action [action]).Encodable :=
    ⟨sound, List.forall_mem_singleton.mpr sound⟩
  have finished : outcome.Encodable :=
    ⟨List.forall_mem_singleton.mpr sound, nofun, List.forall_mem_singleton.mpr provided⟩
  have answered : event.Encodable :=
    List.forall_mem_cons.mpr ⟨provided, List.forall_mem_singleton.mpr trivial⟩
  exact ⟨asked, requests _ asked, finished, outcomes _ finished, answered, events _ answered⟩

end RuleAnalysis
