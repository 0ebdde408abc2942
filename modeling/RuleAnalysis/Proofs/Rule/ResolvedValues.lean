import RuleAnalysis.Proofs.Rule.ProviderTypes
import RuleAnalysis.Proofs.Session.Calls

namespace RuleAnalysis

/-!
# Values without selections

A target that is started has a value stored for every attribute with a default.
So whatever an attribute is resolved from has been through the resolving of
selections, and coercing it brings no selection back. What the host yields for
an attribute is a provider. No attribute that has been resolved depends on the
configuration any more.
-/

variable {ν : Type}

/-! ## What an invocation leaves open -/

namespace Dictionary

variable {α : Type} {d : Dictionary α} {name : String}

theorem isSome_get?_insert (bound : (d.get? name).isSome) (key : String) (value : α) :
    ((d.insert key value).get? name).isSome := by
  by_cases same : name = key
  · rw [same, get?_insert_self]
    rfl
  · rwa [get?_insert_of_ne d value same]

theorem isSome_get?_foldl_insert {entries : List (String × α)}
    (bound : name ∈ entries.map Prod.fst ∨ (d.get? name).isSome) :
    ((entries.foldl (fun d entry => d.insert entry.1 entry.2) d).get? name).isSome := by
  change ((d.override entries).get? name).isSome
  rw [get?_override, Option.isSome_or, Bool.or_eq_true, isSome_lookup_iff, List.map_reverse,
    List.mem_reverse]
  exact bound

theorem mem_of_get?_foldl_insert {entries : List (String × α)} {value : α}
    (found : (entries.foldl (fun d entry => d.insert entry.1 entry.2) d).get? name = some value) :
    (name, value) ∈ entries ∨ d.get? name = some value := by
  change (d.override entries).get? name = some value at found
  rw [get?_override] at found
  rcases Option.or_eq_some_iff.mp found with listed | ⟨_, before⟩
  · exact .inl (List.mem_reverse.mp (mem_of_lookup listed))
  · exact .inr before

end Dictionary

/-- A value is stored for the attribute, or it has no default that could take its place. -/
def Attribute.Stored (a : Attribute) (d : Dictionary Value) : Prop :=
  (d.get? a.name).isSome ∨ a.default? = none

/-- What is bound when the defaults are filled in stays bound. -/
theorem RuleSchema.isSome_get?_of_complete {rule : String} {package? : Option Label}
    {attributes : List Attribute} {d d' : Dictionary Value}
    (completed : complete rule package? attributes d = .ok d') {name : String}
    (bound : (d.get? name).isSome) : (d'.get? name).isSome := by
  induction attributes generalizing d with
  | nil =>
      cases completed
      exact bound
  | cons a rest ih =>
      rw [complete] at completed
      split at completed
      · exact ih completed bound
      · split at completed
        · cases completed
        · split at completed
          · rcases Success.bind_eq_ok_iff.mp completed with ⟨coerced, _, completed⟩
            exact ih completed (Dictionary.isSome_get?_insert bound _ _)
          · exact ih completed bound

theorem RuleSchema.stored_of_complete {rule : String} {package? : Option Label}
    {attributes : List Attribute} {d d' : Dictionary Value}
    (completed : complete rule package? attributes d = .ok d') : ∀ a ∈ attributes, a.Stored d' := by
  induction attributes generalizing d with
  | nil => exact List.forall_mem_nil _
  | cons a rest ih =>
      rw [complete] at completed
      split at completed
      · next bound =>
          have kept := isSome_get?_of_complete completed bound
          exact List.forall_mem_cons.mpr ⟨.inl kept, ih completed⟩
      · split at completed
        · cases completed
        · split at completed
          · rcases Success.bind_eq_ok_iff.mp completed with ⟨coerced, _, completed⟩
            have inserted : ((d.insert a.name coerced).get? a.name).isSome := by
              rw [Dictionary.get?_insert_self]
              rfl
            have kept := isSome_get?_of_complete completed inserted
            exact List.forall_mem_cons.mpr ⟨.inl kept, ih completed⟩
          · next without => exact List.forall_mem_cons.mpr ⟨.inr without, ih completed⟩

/-- No attribute is left to be resolved from its default, and none has been resolved. -/
structure Rule.Opens (rule : Rule ν) (c : Context) : Prop where
  stored : ∀ a ∈ rule.schema.attributes, a.Stored c.attributesInput
  unresolved : c.resolved = []

theorem Session.opens_of_ofTarget {rule : Rule ν} {target : TargetText} {session : Session ν}
    (started : Session.ofTarget rule target = .ok session) :
    session.task = .ofProgram rule.analysis ∧ rule.Opens session.desk.context := by
  rcases Success.bind_eq_ok_iff.mp started with ⟨l, _, started⟩
  rcases Success.bind_eq_ok_iff.mp started with ⟨attributes, _, started⟩
  rcases Success.bind_eq_ok_iff.mp started with ⟨config, _, started⟩
  rcases Success.bind_eq_ok_iff.mp started with ⟨invocation, invoked, started⟩
  cases started
  rw [Success.mapError_eq_ok_iff, RuleSchema.invoke] at invoked
  split at invoked
  · cases invoked
  · rcases Success.bind_eq_ok_iff.mp invoked with ⟨given, _, invoked⟩
    rcases Success.bind_eq_ok_iff.mp invoked with ⟨input, completed, same⟩
    cases same
    exact ⟨rfl, RuleSchema.stored_of_complete completed, rfl⟩

/-! ## What an attribute comes to -/

namespace Attribute

variable {a : Attribute} {c : Context} {v : Value}

theorem isUnresolved_of_given? (stored : a.Stored c.attributesInput) (given : a.given? c = some v) :
    v.isUnresolved = false := by
  rw [given?] at given
  split at given
  · next w _ =>
      cases given
      exact (Value.picks_resolveSelections c.config w).isUnresolved_eq_false
  · next absent =>
      rcases stored with bound | without
      · rw [absent] at bound
        cases bound
      · cases without.symm.trans given

theorem isUnresolved_getD_given? (stored : a.Stored c.attributesInput) :
    ((a.given? c).getD .null).isUnresolved = false := by
  cases given : a.given? c with
  | none => rfl
  | some w => exact isUnresolved_of_given? stored given

theorem isUnresolved_of_resolution (stored : a.Stored c.attributesInput)
    (found : a.resolution c.config (c.attributesInput.get? a.name) = .ok (.value v)) :
    v.isUnresolved = false := by
  have looked {type : TypeRef} {host : Bool} {w : Value} :
      a.lookUp type host w ≠ .ok (.value v) := by
    intro impossible
    rcases Success.map_eq_ok_iff.mp impossible with ⟨_, _, impossible⟩
    cases impossible
  cases kind : a.kind with
  | provider type host =>
      simp only [resolution, kind] at found
      exact absurd found looked
  | globalProvider type host =>
      simp only [resolution, kind] at found
      split at found
      · cases found
      · cases found
      · cases found
        rfl
      · exact absurd found looked
  | _ =>
      simp only [resolution, kind] at found
      rcases Success.map_eq_ok_iff.mp found with ⟨w, coerced, same⟩
      cases same
      exact isUnresolved_of_coerceValue (isUnresolved_getD_given? stored) coerced

/-- The host yields providers; what is at hand has been through the resolving of selections. -/
theorem isUnresolved_of_comesTo (stored : a.Stored c.attributesInput)
    {answered : List (Request × Response)}
    (comes : Program.ComesTo answered (a.inquiry (ν := ν) c) (.ok v)) : v.isUnresolved = false := by
  rw [inquiry] at comes
  cases found : a.resolution c.config (c.attributesInput.get? a.name) with
  | error e =>
      rw [found] at comes
      cases comes.of_done
  | ok r =>
      rw [found] at comes
      cases r with
      | value w =>
          cases comes.of_done
          exact isUnresolved_of_resolution stored found
      | provider type target host =>
          rcases comes.of_ask with ⟨_, _, read⟩
          rcases Success.map_eq_ok_iff.mp read with ⟨p, _, rfl⟩
          rfl
      | globalProvider type host =>
          rcases comes.of_ask with ⟨_, _, read⟩
          rcases Success.map_eq_ok_iff.mp read with ⟨p, _, rfl⟩
          rfl

end Attribute

namespace Rule

/-- Every attribute has a value, and no value depends on the configuration. -/
structure Definite (rule : Rule ν) (c : Context) : Prop where
  readable : ∀ a ∈ rule.schema.attributes, ∃ v, c.attributeValue a.name = .ok v
  resolved : ∀ name v, c.attributeValue name = .ok v → v.isUnresolved = false

theorem Resolved.definite {rule : Rule ν} {before after : Context}
    {answered : List (Request × Response)} (resolved : rule.Resolved before answered after)
    (opens : rule.Opens before) : rule.Definite after := by
  rcases resolved with ⟨values, each, settled⟩
  have counted : (rule.schema.attributes.map Attribute.name).length = values.length := by
    rw [List.length_map, each.length_eq]
  have definite : ∀ v ∈ values, v.isUnresolved = false := by
    intro v member
    have known := Success.forall₂_imp_of_mem (t := fun _ v => v.isUnresolved = false) each
      fun a declared v _ comes => Attribute.isUnresolved_of_comesTo (opens.stored a declared) comes
    rcases Success.exists_left_of_forall₂ known member with ⟨_, _, holds⟩
    exact holds
  constructor
  · intro a declared
    have bound : (after.resolved.get? a.name).isSome := by
      rw [settled]
      apply Dictionary.isSome_get?_foldl_insert
      rw [List.map_fst_zip (Nat.le_of_eq counted)]
      exact .inl (List.mem_map_of_mem declared)
    rcases Option.isSome_iff_exists.mp bound with ⟨v, found⟩
    exact ⟨v, Context.attributeValue_eq_ok_iff.mpr found⟩
  · intro name v found
    rw [Context.attributeValue_eq_ok_iff, settled] at found
    rcases Dictionary.mem_of_get?_foldl_insert found with placed | before
    · exact definite v (List.of_mem_zip placed).2
    · rw [opens.unresolved] at before
      cases before

end Rule

/-! ## What a session goes through -/

namespace Server

variable {server server' : Server ν} {session current : Session ν}

theorem start_eq_ok {source name : String} {target : TargetText}
    (started : server.start source name target = (.ok (), server')) :
    ∃ rule session, server.findRule source name = .ok rule ∧
      Session.ofTarget rule target = .ok session ∧ server'.session = some session := by
  rw [start] at started
  split at started
  · next session found =>
      rcases Success.bind_eq_ok_iff.mp found with ⟨rule, known, opened⟩
      cases started
      exact ⟨rule, session, known, opened, rfl⟩
  · cases started

theorem session_after_of_no_session (closed : server.session = none) {calls : List Call}
    (continues : server.Continues calls) : (server.after calls).session = none := by
  induction calls generalizing server with
  | nil => exact closed
  | cons c rest ih =>
      rcases continues_cons_iff.mp continues with ⟨first, later⟩
      exact ih (call_of_no_session closed first).1 later

/-- A session that goes on waits for answers. -/
theorem resume_of_advance {event : SessionEvent} {files : OpenFiles}
    (goesOn : (session.advance event files).2 = some current) :
    ∃ qs, session.task.resume event.answers { session.desk with files := files } =
      (.ok (.pending qs), current.task, current.desk) := by
  rw [Session.advance] at goesOn
  split at goesOn
  · next qs task desk resumed =>
      cases goesOn
      exact ⟨qs, resumed⟩
  · cases goesOn
  · cases goesOn
  · cases goesOn

/-- While a session lasts, its desk is that of a course of its task, which waits for answers. -/
theorem exists_course (inProgress : server.session = some session) {calls : List Call}
    (continues : server.Continues calls) (present : (server.after calls).session = some current) :
    ∃ deliveries : List Delivery,
      let run := session.task.course session.desk (deliveries.map Delivery.visit)
      run.ending = none ∧ run.state = current.desk := by
  induction calls generalizing server session with
  | nil =>
      cases inProgress.symm.trans present
      exact ⟨[], rfl, rfl⟩
  | cons c rest ih =>
      rcases continues_cons_iff.mp continues with ⟨first, later⟩
      have called := server.call_called c
      change ((server.call c).2.after rest).session = some current at present
      generalize server.call c = answer at called first later present
      cases called with
      | started _ _ => exact absurd rfl first
      | kept _ _ =>
          refine ih ?_ later present
          exact inProgress
      | @brought event _ _ _ _ =>
          rw [advance_of_session inProgress] at later present
          cases goesOn : (session.advance event server.files).2 with
          | none =>
              cases (session_after_of_no_session goesOn later).symm.trans present
          | some next =>
              rcases resume_of_advance goesOn with ⟨qs, resumed⟩
              rcases ih goesOn later present with ⟨deliveries, waits, state⟩
              refine ⟨⟨event.answers, fun _ => server.files⟩ :: deliveries, ?_⟩
              rw [List.map_cons, TaskOf.course]
              simp only [Delivery.visit, Delivery.touch, resumed]
              exact ⟨waits, state⟩

end Server

/-- A task that waits has not been begun, or it has been begun with a visit that answered nothing. -/
theorem Rule.course_of_waits (rule : Rule ν) (desk : Desk ν) (deliveries : List Delivery) :
    let run := (TaskOf.ofProgram rule.analysis).course desk (deliveries.map Delivery.visit)
    run.ending = none →
      run.state = desk ∨ ∃ files rest,
        run.state = (rule.course { desk with files := files } rest).state := by
  intro run waits
  cases deliveries with
  | nil => exact .inl rfl
  | cons first rest =>
      by_cases nothing : first.responses = []
      · refine .inr ⟨first.files desk.files, rest, ?_⟩
        simp only [run]
        rw [List.map_cons, Rule.course, TaskOf.course, TaskOf.course, Delivery.visit, nothing]
        rfl
      · simp only [run] at waits
        rw [List.map_cons, TaskOf.course] at waits
        simp only [Delivery.visit, TaskOf.resume_ofProgram_missized _ nothing] at waits
        cases waits

/-! ## Selections of a target -/

/-- Selections give way to what a configuration picks, and nothing else changes.

* Resolving takes a value step by step to the one value that the configuration picks of it. Nothing
  in that depends on the configuration, and a value that does not depend on it stays as it is.
* Lists and maps keep their shape, and what stands in branches that are not picked is ignored.
* When the attributes of a target that has been started have been resolved, each has a value, and
  none of the values depends on the configuration. That is so throughout the course of the analysis,
  and while a session lasts it is always in such a course, however the server is called. -/
theorem selections_resolved :
    (∀ (c : BuildConfig) (v : Value),
      let v' := v.resolveSelections c
      v' = v.resolveOnce c (·.resolveSelections c) ∧
      (∀ resolve, (∀ w : Value, resolve w = w.resolveOnce c resolve) → resolve v = v') ∧
      Value.Picks c v v' ∧
      v'.isUnresolved = false ∧ (v.isUnresolved = false → v' = v) ∧ v'.resolveSelections c = v' ∧
      (∀ items, v = .list items → v' = .list (items.map (·.resolveSelections c))) ∧
      (∀ entries, v = .map entries →
        v' = .map (entries.map fun entry => (entry.1, entry.2.resolveSelections c))) ∧
      ∀ w, Value.Alike c v w → w.resolveSelections c = v') ∧
    ∀ (server server' : Server ν) (source name : String) (target : TargetText),
      server.start source name target = (.ok (), server') →
      ∃ rule session, server.findRule source name = .ok rule ∧ server'.session = some session ∧
        session.task = .ofProgram rule.analysis ∧
        (∀ files deliveries,
          let run := rule.course { session.desk with files := files } deliveries
          run.state.context.phase ≠ .resolvingAttributes → rule.Definite run.state.context) ∧
        ∀ calls current, server'.Continues calls →
          (server'.after calls).session = some current →
          current.desk = session.desk ∨ ∃ files deliveries,
            current.desk = (rule.course { session.desk with files := files } deliveries).state := by
  constructor
  · intro c v v'
    have picks := Value.picks_resolveSelections c v
    have resolved := picks.isUnresolved_eq_false
    refine ⟨Value.resolveSelections_eq_resolveOnce c v, ?_, picks, resolved, ?_, ?_, ?_, ?_, ?_⟩
    · exact fun resolve steps => Value.eq_resolveSelections steps v
    · exact Value.resolveSelections_of_resolved
    · exact Value.resolveSelections_of_resolved resolved
    · rintro items rfl
      exact Value.resolveSelections_list c items
    · rintro entries rfl
      exact Value.resolveSelections_map c entries
    · exact fun w alike => alike.resolveSelections_eq
  · intro server server' source name target started
    rcases Server.start_eq_ok started with ⟨rule, session, known, opened, inProgress⟩
    rcases Session.opens_of_ofTarget opened with ⟨begun, opens⟩
    refine ⟨rule, session, known, inProgress, begun, ?_, ?_⟩
    · intro files deliveries run further
      rcases rule.course_resolved { session.desk with files := files } deliveries with
        resolving | resolved
      · exact absurd resolving further
      · exact resolved.definite opens
    · intro calls current continues present
      rcases Server.exists_course inProgress continues present with ⟨deliveries, waits, state⟩
      rw [begun] at waits state
      rw [← state]
      exact rule.course_of_waits session.desk deliveries waits

/-! ## Configurations as they are written -/

/-- A type of the builtin workspace as it is written, in pieces. -/
def TypeRef.builtinText (file qualifiedName : String) : List String :=
  ["\x7b\"source_label\":\x7b\"$trellis_label\":\"@trellis.builtin//:", file,
    "\"\x7d,\"qualname\":\"", qualifiedName, "\"\x7d"]

/-- An option behind its family as it is written. -/
def BuildConfig.entryText (file family option : String) : List String :=
  "[" :: TypeRef.builtinText file family ++ "," :: TypeRef.builtinText file option ++ ["]"]

/-! ## A target that is compiled for Linux or for no platform

One attribute is supplied with a list that holds a selection. The other is left to its default,
which is a selection as well.
-/

namespace CompiledTarget

def linux : TypeRef := OptionFamily.reference Os.linux

/-- A value for Linux and one for other platforms. -/
def platformValue (forLinux other : Value) : Value := .selection ⟨[(linux, forLinux)], other⟩

def mode : Value := platformValue (.string "fast") (.string "safe")

def schema : RuleSchema where
  reference := .builtin "rules" "Compile"
  attributes := [⟨"sources", .labelList, none⟩, ⟨"mode", .any, some mode⟩]

def rule : Rule Unit := ⟨schema, .finish (.ok .null), ()⟩

/-- The list that is supplied. -/
def sources : Value := .list [platformValue (.string "linux.c") (.string "any.c"), .string "b.c"]

def attributesText : List Char :=
  ("\x7b\"sources\":[\x7b\"$trellis_selection\":" :: "\x7b\"mapping\":[[\x7b\"$trellis_option\":" ::
    TypeRef.builtinText "platform" "Linux" ++
    ["\x7d,\"linux.c\"]],\"default\":\"any.c\"\x7d\x7d,", "\"b.c\"]\x7d"]).flatMap String.toList

/-- A configuration, what is written for it, and the first source and the mode that are picked. -/
structure Setting where
  config : BuildConfig
  text : List Char
  source : String
  mode : String

def anywhere : Setting where
  config := ⟨[], []⟩
  text := "\x7b\"options\":[],\"host_options\":[]\x7d".toList
  source := "any.c"
  mode := "safe"

def onLinux : Setting where
  config := ⟨[(OptionFamily.family Os, linux)], []⟩
  text :=
    ("\x7b\"options\":[" :: BuildConfig.entryText "platform" "Os" "Linux" ++
      ["],\"host_options\":[]\x7d"]).flatMap String.toList
  source := "linux.c"
  mode := "fast"

def server : Server Unit := .ofRegistry (.ofList [rule]) .standard

def target (s : Setting) : TargetText :=
  ⟨"tool", "//pkg:tool", .ofList attributesText, .ofList s.text⟩

def desk (c : BuildConfig) : Desk Unit :=
  ⟨.ofTarget schema "tool" ⟨"//pkg:tool"⟩ [("mode", mode), ("sources", sources)] c, (), .empty⟩

theorem start_of_decoded {attributes config : String} {c : BuildConfig}
    (supplied : Decoder.text (Decoder.dictionary Value.decode) attributes =
      .ok [("sources", sources)])
    (configured : Decoder.text BuildConfig.decode config = .ok c) :
    server.start schema.reference.sourceLabel.text "Compile"
        ⟨"tool", "//pkg:tool", attributes, config⟩ =
      (.ok (), { server with session := some ⟨.ofProgram rule.analysis, desk c⟩ }) := by
  simp only [Server.start, Session.ofTarget, supplied, configured]
  rfl

theorem decode_attributesText :
    Decoder.text (Decoder.dictionary Value.decode) (.ofList attributesText) =
      .ok [("sources", sources)] :=
  (Decoder.text_ofList _ _).trans (by decide +kernel)

theorem decode_text : ∀ s ∈ [anywhere, onLinux],
    Decoder.text BuildConfig.decode (.ofList s.text) = .ok s.config := by
  simp only [Decoder.text_ofList]
  decide +kernel

theorem values_settled : ∀ s ∈ [anywhere, onLinux],
    let c := (rule.course (desk s.config) []).state.context
    c.config = s.config ∧ c.phase = .done ∧
      c.attributeValue "sources" = .ok (.list [.string s.source, .string "b.c"]) ∧
      c.attributeValue "mode" = .ok (.string s.mode) := by
  decide +kernel

end CompiledTarget

open CompiledTarget in
/-- The sources and the mode are those for Linux if it is selected, whatever stands for other
platforms, and otherwise those for other platforms, whatever stands for Linux. -/
theorem selections_resolved_compiled :
    (∀ forLinux,
      (platformValue forLinux (.string "safe")).resolveSelections anywhere.config =
        .string "safe") ∧
    (∀ other,
      (platformValue (.string "fast") other).resolveSelections onLinux.config = .string "fast") ∧
    ∀ s ∈ [anywhere, onLinux], ∃ server' session,
      server.start schema.reference.sourceLabel.text "Compile" (target s) = (.ok (), server') ∧
      server'.session = some session ∧
      let c := (rule.course session.desk []).state.context
      c.config = s.config ∧ c.phase = .done ∧
        c.attributeValue "sources" = .ok (.list [.string s.source, .string "b.c"]) ∧
        c.attributeValue "mode" = .ok (.string s.mode) ∧
        ∀ name v, c.attributeValue name = .ok v → v.isUnresolved = false := by
  rcases @selections_resolved Unit with ⟨selections, starts⟩
  refine ⟨?_, ?_, ?_⟩
  · intro forLinux
    have alike : Value.Alike anywhere.config (platformValue .null (.string "safe"))
        (platformValue forLinux (.string "safe")) :=
      @Value.Alike.exchange_branch _ [] _ (.inl rfl) .null forLinux [] (.string "safe")
    rcases selections anywhere.config (platformValue .null (.string "safe")) with
      ⟨_, _, _, _, _, _, _, _, ignores⟩
    rw [ignores _ alike]
    decide +kernel
  · intro other
    have selected : onLinux.config.isSelected linux = true := by decide +kernel
    have alike : Value.Alike onLinux.config (platformValue (.string "fast") .null)
        (platformValue (.string "fast") other) :=
      .exchange_default List.mem_cons_self selected .null other
    rcases selections onLinux.config (platformValue (.string "fast") .null) with
      ⟨_, _, _, _, _, _, _, _, ignores⟩
    rw [ignores _ alike]
    decide +kernel
  · intro s member
    have begins := start_of_decoded decode_attributesText (decode_text s member)
    rcases starts _ _ _ _ _ begins with ⟨found, session, known, inProgress, _, definite, _⟩
    have registered : server.findRule schema.reference.sourceLabel.text "Compile" = .ok rule := rfl
    cases registered.symm.trans known
    cases inProgress
    rcases values_settled s member with ⟨config, done, list, picked⟩
    have further : (rule.course (desk s.config) []).state.context.phase ≠ .resolvingAttributes := by
      rw [done]
      exact nofun
    exact ⟨_, _, begins, rfl, config, done, list, picked, (definite .empty [] further).resolved⟩

end RuleAnalysis
