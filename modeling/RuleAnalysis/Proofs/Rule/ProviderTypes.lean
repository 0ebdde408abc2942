import RuleAnalysis.Proofs.Analysis.HostPlatform
import RuleAnalysis.Proofs.Analysis.Phases
import RuleAnalysis.Proofs.Rule.Supply
import RuleAnalysis.Proofs.Schema.Instances

namespace RuleAnalysis

/-!
# The types of providers

An attribute that is declared with the type of a provider is resolved to a
provider. One that a target yields is picked by its type. One that the host has
registered for the type, and one that is given as such, are taken on trust.
-/

/-! ## Programs of one exchange -/

namespace Program

variable {σ ρ κ : Type}

/-- The program is done, or will be as soon as it is answered. -/
inductive Brief : Program σ ρ κ → Prop
  | done (r : ρ) : Brief (done r)
  | ask (q : κ) (outcome : Response → ρ) : Brief (ask q fun response => done (outcome response))

/-- What the program comes to when the requests are answered as listed. -/
inductive ComesTo (answered : List (κ × Response)) : Program σ ρ κ → ρ → Prop
  | done (r : ρ) : ComesTo answered (done r) r
  | ask {q : κ} {response : Response} (outcome : Response → ρ) : (q, response) ∈ answered →
      ComesTo answered (ask q fun response => done (outcome response)) (outcome response)

theorem ComesTo.mono {answered more : List (κ × Response)} {p : Program σ ρ κ} {r : ρ}
    (comes : p.ComesTo answered r) (within : answered ⊆ more) : p.ComesTo more r := by
  cases comes with
  | done r => exact .done r
  | ask outcome asked => exact .ask outcome (within asked)

theorem ComesTo.of_done {answered : List (κ × Response)} {r r' : ρ}
    (comes : ComesTo answered (.done r : Program σ ρ κ) r') : r = r' := by
  cases comes
  rfl

theorem ComesTo.of_ask {answered : List (κ × Response)} {q : κ} {outcome : Response → ρ} {r : ρ}
    (comes : ComesTo answered
      (.ask q fun response => .done (outcome response) : Program σ ρ κ) r) :
    ∃ response, (q, response) ∈ answered ∧ outcome response = r := by
  generalize asks : (.ask q fun response => .done (outcome response) : Program σ ρ κ) = p at comes
  cases comes with
  | done r => cases asks
  | @ask q' response outcome' member =>
      injection asks with sameRequest sameNext
      subst sameRequest
      have sameOutcome := congrFun sameNext response
      injection sameOutcome with same
      exact ⟨response, member, same⟩

/-- A brief program that is answered is done. -/
theorem Brief.answer {p : Program σ ρ κ} (brief : p.Brief) {rs : List Response}
    (sized : rs.length = p.pending.length) (s : σ) :
    ∃ r, p.answer rs s = (Program.done r, s) ∧ p.ComesTo (p.pending.zip rs) r := by
  cases brief with
  | done r => exact ⟨r, answer_done r rs s, .done r⟩
  | ask q outcome =>
      obtain ⟨response, rfl⟩ := List.length_eq_one_iff.mp sized
      exact ⟨outcome response, rfl, .ask outcome List.mem_cons_self⟩

theorem answerAll_brief {members : List (Program σ ρ κ)} (brief : ∀ m ∈ members, m.Brief)
    {rs : List Response} (sized : rs.length = (pendingAll members).length) (s : σ) :
    ∃ results, answerAll members rs s = (results.map done, s) ∧
      List.Forall₂ (ComesTo ((pendingAll members).zip rs)) members results := by
  induction members generalizing rs with
  | nil => exact ⟨[], answerAll_nil rs s, .nil⟩
  | cons head rest ih =>
      rcases List.forall_mem_cons.mp brief with ⟨first, others⟩
      obtain ⟨mine, more, rfl, counted, restSized⟩ := exists_mine sized
      obtain ⟨r, answered, comes⟩ := first.answer counted s
      obtain ⟨results, answeredAll, each⟩ := ih others restSized
      have zipped : (pendingAll (head :: rest)).zip (mine ++ more) =
          head.pending.zip mine ++ (pendingAll rest).zip more := by
        rw [pendingAll, List.zip_append counted.symm]
      refine ⟨r :: results, ?_, ?_⟩
      · rw [answerAll_cons head rest counted, answered, answeredAll, List.map_cons]
      · rw [zipped]
        refine .cons (comes.mono (List.subset_append_left _ _)) ?_
        exact each.imp fun _ _ comes => comes.mono (List.subset_append_right _ _)

theorem results?_map_done (results : List ρ) :
    results? (results.map (done : ρ → Program σ ρ κ)) = some results := by
  induction results with
  | nil => rfl
  | cons r rest ih => rw [List.map_cons, results?, ih, Option.map_some]

theorem comesTo_of_results? {members : List (Program σ ρ κ)} {results : List ρ}
    (finished : results? members = some results) (answered : List (κ × Response)) :
    List.Forall₂ (ComesTo answered) members results := by
  induction members generalizing results with
  | nil =>
      cases finished
      exact .nil
  | cons head rest ih =>
      cases head with
      | done r =>
          obtain ⟨later, found, rfl⟩ := Option.map_eq_some_iff.mp finished
          exact .cons (.done r) (ih found)
      | _ => cases finished

section

variable {members : List (Program σ ρ κ)} {next : Except ProtocolError (List ρ) → Program σ ρ κ}
  {s : σ}

/-- A group of brief members that is answered goes on with what they have come to. -/
theorem follow_group_brief (brief : ∀ m ∈ members, m.Brief)
    (asks : (group members next).pending ≠ []) (v : Visit σ) (rest : List (Visit σ))
    (sized : v.responses.length = (pendingAll members).length) :
    let run := (group members next).follow s (v :: rest)
    ∃ results,
      List.Forall₂ (ComesTo (run.answered ((v :: rest).map Visit.responses))) members results ∧
      run.state = (((next (.ok results)).settle (v.touch s)).1.follow
        ((next (.ok results)).settle (v.touch s)).2 rest).state := by
  intro run
  obtain ⟨results, answered, comes⟩ := answerAll_brief brief sized (v.touch s)
  have goesOn : run = (((next (.ok results)).settle (v.touch s)).1.follow
      ((next (.ok results)).settle (v.touch s)).2 rest).after (pendingAll members) := by
    simp only [run]
    rw [follow_cons asks s v rest sized, answer_group, answered, regroup, results?_map_done]
    rfl
  have within : (pendingAll members).zip v.responses ⊆
      run.answered ((v :: rest).map Visit.responses) := by
    rw [goesOn]
    intro pair member
    exact List.mem_append_left _ member
  refine ⟨results, comes.imp fun _ _ comes => comes.mono within, ?_⟩
  rw [goesOn]
  rfl

/-- A group of brief members that has been settled waits for at most one batch of answers. Until
then the state is as it was found. -/
theorem follow_regroup_brief (brief : ∀ m ∈ members, m.Brief)
    (rests : (regroup next members s).1.AtRest) (kept : σ → Prop) (here : kept s)
    {visits : List (Visit σ)} (touched : ∀ v ∈ visits, kept (v.touch s)) :
    let run := (regroup next members s).1.follow (regroup next members s).2 visits
    kept run.state ∨
      ∃ results s' rest, kept s' ∧ rest ⊆ visits ∧
        List.Forall₂ (ComesTo (run.answered (visits.map Visit.responses))) members results ∧
        run.state = (((next (.ok results)).settle s').1.follow
          ((next (.ok results)).settle s').2 rest).state := by
  cases finished : results? members with
  | some results =>
      have goesOn : regroup next members s = (next (.ok results)).settle s := by
        simp only [regroup, finished]
      rw [goesOn]
      exact .inr ⟨results, s, visits, here, List.Subset.refl _, comesTo_of_results? finished _, rfl⟩
  | none =>
      have waits : regroup next members s = (group members next, s) := by
        simp only [regroup, finished]
      rw [waits] at rests ⊢
      have asks : (group members next).pending ≠ [] := by
        rcases rests.done_or_asks with ⟨r, impossible⟩ | asks
        · cases impossible
        · exact asks
      cases visits with
      | nil =>
          refine .inl ?_
          rw [follow_nil asks]
          exact here
      | cons v rest =>
          have first : kept (v.touch s) := touched v List.mem_cons_self
          by_cases sized : v.responses.length = (pendingAll members).length
          · obtain ⟨results, comes, goesOn⟩ := follow_group_brief brief asks v rest sized
            exact .inr ⟨results, v.touch s, rest, first, List.subset_cons_self _ _, comes, goesOn⟩
          · refine .inl ?_
            rw [follow_missized asks s v rest sized]
            exact first

end

/-- Members that settle without touching the state. -/
theorem settleAll_map {β : Type} {members settled : β → Program σ ρ κ} {s : σ} {bs : List β}
    (each : ∀ b ∈ bs, (members b).settle s = (settled b, s)) :
    settleAll (bs.map members) s = (bs.map settled, s) := by
  induction bs with
  | nil => exact settleAll_nil s
  | cons b rest ih =>
      rcases List.forall_mem_cons.mp each with ⟨first, others⟩
      rw [List.map_cons, settleAll_cons, first, ih others, List.map_cons]

end Program

/-! ## Attributes are resolved in one exchange -/

namespace Resolution

theorem inquiry_brief {ν : Type} (c : BuildConfig) (r : Except SchemaError Resolution) :
    (inquiry (ν := ν) c r).Brief := by
  rcases r with e | v | ⟨type, target, host⟩ | ⟨type, host⟩
  · exact .done _
  · exact .done _
  · exact .ask _ _
  · exact .ask _ _

end Resolution

variable {ν : Type}

namespace Attribute

/-- What is left to do for an attribute in a context. -/
def inquiry (a : Attribute) (c : Context) : AnalysisProgram ν :=
  Resolution.inquiry c.config (a.resolution c.config (c.attributesInput.get? a.name))

end Attribute

namespace Rule

/-- The values of the attributes have been settled with what their inquiries have come to. -/
def Resolved (rule : Rule ν) (before : Context) (answered : List (Request × Response))
    (after : Context) : Prop :=
  ∃ values : List Value,
    List.Forall₂
      (fun (a : Attribute) v => (a.inquiry (ν := ν) before).ComesTo answered (.ok v))
      rule.schema.attributes values ∧
    after.resolved =
      (before.settleAttributes ((rule.schema.attributes.map Attribute.name).zip values)).resolved

section

variable (rule : Rule ν)

theorem settle_analysis (desk : Desk ν) :
    rule.analysis.settle desk =
      Program.regroup rule.settled (rule.schema.attributes.map fun a => a.inquiry desk.context)
        (desk.changeContext (·.enter .resolvingAttributes)) := by
  have members : Program.settleAll
        (rule.schema.attributes.map fun a => a.resolve.routine.program)
        (desk.changeContext (·.enter .resolvingAttributes)) =
      (rule.schema.attributes.map fun a => a.inquiry desk.context,
        desk.changeContext (·.enter .resolvingAttributes)) :=
    Program.settleAll_map fun a _ => a.settle_resolve _
  calc rule.analysis.settle desk
      = (Program.group (rule.schema.attributes.map fun a => a.resolve.routine.program)
          rule.settled).settle (desk.changeContext (·.enter .resolvingAttributes)) := rfl
    _ = _ := by rw [Program.settle_group, members]

theorem settle_settled (outcomes : List Outcome) (desk : Desk ν) :
    (∃ e, outcomes.mapM id = .error e ∧
        (rule.settled (.ok outcomes)).settle desk = (.done (.error e), desk)) ∨
      ∃ values : List Value, outcomes = values.map .ok ∧
        (rule.settled (.ok outcomes)).settle desk =
          rule.body.settle (desk.changeContext
            (·.settleAttributes ((rule.schema.attributes.map Attribute.name).zip values))) := by
  unfold settled gathered
  cases found : outcomes.mapM id with
  | error e =>
      refine .inl ⟨e, rfl, ?_⟩
      simp only [found]
      rfl
  | ok values =>
      have each : List.Forall₂ Eq outcomes (values.map .ok) :=
        List.forall₂_map_right_iff.mpr (Success.mapM_eq_ok_iff.mp found)
      rw [List.forall₂_eq_eq_eq] at each
      refine .inr ⟨values, each, ?_⟩
      simp only [found]
      rfl

variable {rule} {before : Context} {answered : List (Request × Response)}

/-- Behind the outcomes of the attributes the values stay as they have been settled. -/
theorem follow_settled {outcomes : List Outcome}
    (comes : List.Forall₂ (Program.ComesTo answered)
      (rule.schema.attributes.map fun a => a.inquiry (ν := ν) before) outcomes) {desk : Desk ν}
    (entered : desk.context = before.enter .resolvingAttributes) {visits : List (Visit (Desk ν))}
    (unseen : ∀ v ∈ visits, ∀ desk, (v.touch desk).context = desk.context) :
    let turn := (rule.settled (.ok outcomes)).settle desk
    let after := (turn.1.follow turn.2 visits).state.context
    after.phase = .resolvingAttributes ∨ rule.Resolved before answered after := by
  intro turn after
  rcases rule.settle_settled outcomes desk with ⟨e, _, failed⟩ | ⟨values, rfl, settled⟩
  · refine .inl ?_
    simp only [after, turn, failed, Program.follow_done, entered]
    rfl
  · refine .inr ⟨values, ?_, ?_⟩
    · exact List.forall₂_map_right_iff.mp (List.forall₂_map_left_iff.mp comes)
    · let settledDesk := desk.changeContext
        (·.settleAttributes ((rule.schema.attributes.map Attribute.name).zip values))
      have goesOn : turn = rule.body.settle settledDesk := settled
      calc after.resolved
          = settledDesk.context.resolved := by
            simp only [after, goesOn]
            exact rule.follow_body_resolved settledDesk unseen
        _ = _ := by
          change (desk.context.settleAttributes _).resolved = _
          rw [entered]
          rfl

end

/-- Once an analysis has gone beyond its attributes, they have their values. -/
theorem course_resolved (rule : Rule ν) (desk : Desk ν) (deliveries : List Delivery) :
    let run := rule.course desk deliveries
    run.state.context.phase = .resolvingAttributes ∨
      rule.Resolved desk.context (run.answered (deliveries.map Delivery.responses))
        run.state.context := by
  intro run
  have followed : run = (rule.analysis.settle desk).1.follow (rule.analysis.settle desk).2
      (deliveries.map Delivery.visit) :=
    TaskOf.course_ofProgram rule.live id desk _
  have rests := rule.live.atRest desk
  have brief : ∀ m ∈ rule.schema.attributes.map fun a => a.inquiry (ν := ν) desk.context,
      m.Brief :=
    List.forall_mem_map.mpr fun a _ => Resolution.inquiry_brief _ _
  have unseen : ∀ v ∈ deliveries.map Delivery.visit, ∀ desk : Desk ν,
      (v.touch desk).context = desk.context :=
    List.forall_mem_map.mpr fun _ _ _ => rfl
  rw [settle_analysis] at followed rests
  have whole := Program.follow_regroup_brief brief rests
    (fun now => now.context = desk.context.enter .resolvingAttributes) rfl
    fun v member => unseen v member _
  rw [← followed, List.map_map] at whole
  rcases whole with waits | ⟨outcomes, now, rest, entered, later, comes, state⟩
  · refine .inl ?_
    rw [waits]
    rfl
  · rw [state]
    exact follow_settled comes entered fun v member => unseen v (later member)

end Rule

/-! ## Settled values -/

namespace Dictionary

variable {α : Type}

theorem get?_foldl_insert {entries : List (String × α)} (once : (entries.map Prod.fst).Nodup)
    {entry : String × α} (member : entry ∈ entries) (d : Dictionary α) :
    (entries.foldl (fun d entry => d.insert entry.1 entry.2) d).get? entry.1 = some entry.2 := by
  have found : get? entries entry.1 = some entry.2 := lookup_of_mem once member
  change (d.override entries).get? entry.1 = _
  rw [get?_override, lookup_reverse once, found, Option.some_or]

end Dictionary

/-- A rule is declared exactly if its attributes have different names. -/
theorem RuleSchema.declare_eq_ok_iff {reference : TypeRef} {attributes : List Attribute}
    {schema : RuleSchema} :
    declare reference attributes = .ok schema ↔
      (attributes.map Attribute.name).Nodup ∧ schema = ⟨reference, attributes⟩ := by
  rw [← firstRepeated?_eq_none_iff, declare]
  cases firstRepeated? (attributes.map Attribute.name) with
  | some name => exact iff_of_false nofun fun declared => nomatch declared.1
  | none => rw [Except.ok.injEq, eq_comm, and_iff_right rfl]

/-- The attributes of a declared schema have different names. -/
theorem RuleSchema.nodup_of_declare {reference : TypeRef} {attributes : List Attribute}
    {schema : RuleSchema} (declared : declare reference attributes = .ok schema) :
    (schema.attributes.map Attribute.name).Nodup := by
  rcases declare_eq_ok_iff.mp declared with ⟨distinct, same⟩
  rw [same]
  exact distinct

/-! ## How a provider is come by -/

namespace Attribute

/-- What an attribute is resolved from: what the configuration picks of the value that has been
stored for it, or its default. -/
def given? (a : Attribute) (c : Context) : Option Value :=
  match c.attributesInput.get? a.name with
  | some v => some (v.resolveSelections c.config)
  | none => a.default?

/-- How a provider has become the value of an attribute of a type. -/
inductive Obtains (a : Attribute) (c : Context) (answered : List (Request × Response))
    (type : TypeRef) (host : Bool) : Provider → Prop
  /-- It is the only one of the type among those that a target yields. -/
  | yielded {target : Label} {ps : List Provider} {p : Provider} :
      a.coerceLabel ((a.given? c).getD .null) none = .ok target →
      (.query (.loadProviders target (c.config.forRequest host)), .providers ps) ∈ answered →
      ps.filter (·.isInstanceOf type) = [p] → Obtains a c answered type host p
  /-- It has been given as such. -/
  | given {p : Provider} : a.kind = .globalProvider type host → a.given? c = some (.provider p) →
      Obtains a c answered type host p
  /-- The host has registered it for the type. -/
  | registered {p : Provider} : a.kind = .globalProvider type host →
      a.given? c = none ∨ a.given? c = some .null →
      (.query (.loadGlobalProvider type (c.config.forRequest host)), .provider p) ∈ answered →
      Obtains a c answered type host p

theorem singleProvider_eq_ok_iff {type : TypeRef} {target : Label} {ps : List Provider}
    {p : Provider} :
    singleProvider type target ps = .ok p ↔ ps.filter (·.isInstanceOf type) = [p] := by
  unfold singleProvider
  split
  · next only found => simp [found]
  · next none found => simp [found]
  · next several _ => exact iff_of_false nofun (several p)

section

variable {a : Attribute} {c : Context} {answered : List (Request × Response)} {type : TypeRef}
  {host : Bool}

/-- Only a provider that is taken from elsewhere than a target can be of another type. -/
theorem Obtains.isInstanceOf {p : Provider} (obtains : a.Obtains c answered type host p)
    (looked : a.kind = .provider type host) : p.isInstanceOf type = true := by
  cases obtains with
  | yielded _ _ only =>
      have picked : p ∈ List.filter (·.isInstanceOf type) _ := only ▸ List.mem_cons_self
      exact (List.mem_filter.mp picked).2
  | given kind _ => cases kind.symm.trans looked
  | registered kind _ _ => cases kind.symm.trans looked

theorem obtains_of_lookUp {v : Value}
    (comes : Program.ComesTo answered
      (Resolution.inquiry (ν := ν) c.config (a.lookUp type host ((a.given? c).getD .null)))
      (.ok v)) :
    ∃ p, v = .provider p ∧ a.Obtains c answered type host p := by
  unfold lookUp at comes
  cases named : a.coerceLabel ((a.given? c).getD .null) none with
  | error e =>
      rw [named] at comes
      cases comes.of_done
  | ok target =>
      rw [named] at comes
      obtain ⟨response, asked, read⟩ := comes.of_ask
      obtain ⟨p, found, rfl⟩ := Success.map_eq_ok_iff.mp read
      obtain ⟨ps, told, picked⟩ := Success.bind_eq_ok_iff.mp found
      cases response with
      | providers ps' =>
          cases told
          exact ⟨p, rfl, .yielded named asked (singleProvider_eq_ok_iff.mp picked)⟩
      | _ => cases told

theorem obtains_of_registered {v : Value} (kind : a.kind = .globalProvider type host)
    (absent : a.given? c = none ∨ a.given? c = some .null)
    (comes : Program.ComesTo answered
      (Resolution.inquiry (ν := ν) c.config (.ok (.globalProvider type host))) (.ok v)) :
    ∃ p, v = .provider p ∧ a.Obtains c answered type host p := by
  obtain ⟨response, asked, read⟩ := comes.of_ask
  obtain ⟨p, found, rfl⟩ := Success.map_eq_ok_iff.mp read
  cases response with
  | provider p' =>
      cases found
      exact ⟨p, rfl, .registered kind absent asked⟩
  | _ => cases found

theorem obtains_of_comesTo
    (kind : a.kind = .provider type host ∨ a.kind = .globalProvider type host) {v : Value}
    (comes : Program.ComesTo answered (a.inquiry (ν := ν) c) (.ok v)) :
    ∃ p, v = .provider p ∧ a.Obtains c answered type host p := by
  rw [inquiry] at comes
  unfold resolution at comes
  rcases kind with kind | kind
  · simp only [kind] at comes
    exact obtains_of_lookUp comes
  · simp only [kind] at comes
    -- The cases are those of the value that the attribute is resolved from.
    split at comes
    · next absent => exact obtains_of_registered kind (.inl absent) comes
    · next null => exact obtains_of_registered kind (.inr null) comes
    · next p given =>
        have same := comes.of_done
        cases same
        exact ⟨p, rfl, .given kind given⟩
    · next v' _ _ given =>
        have named : a.given? c = some v' := given
        apply obtains_of_lookUp
        rw [named, Option.getD_some]
        exact comes

end

end Attribute

theorem Context.attributeValue_eq_ok_iff {c : Context} {name : String} {v : Value} :
    c.attributeValue name = .ok v ↔ c.resolved.get? name = some v := by
  rw [attributeValue]
  cases c.resolved.get? name <;> simp

namespace Rule

theorem exists_value_of_forall₂ {r : Attribute → Value → Prop} {attributes : List Attribute}
    {values : List Value} (each : List.Forall₂ r attributes values) {a : Attribute}
    (member : a ∈ attributes) :
    ∃ v, (a.name, v) ∈ (attributes.map Attribute.name).zip values ∧ r a v := by
  induction each with
  | nil => cases member
  | @cons _ v _ _ first _ ih =>
      rcases List.mem_cons.mp member with rfl | later
      · exact ⟨v, List.mem_cons_self, first⟩
      · obtain ⟨v, placed, holds⟩ := ih later
        exact ⟨v, List.mem_cons_of_mem _ placed, holds⟩

/-- A settled value is found under the name of its attribute. -/
theorem get?_settleAttributes {names : List String} (distinct : names.Nodup) {values : List Value}
    (counted : names.length = values.length) {name : String} {v : Value}
    (placed : (name, v) ∈ names.zip values) (c : Context) :
    (c.settleAttributes (names.zip values)).resolved.get? name = some v := by
  have once : ((names.zip values).map Prod.fst).Nodup := by
    rwa [List.map_fst_zip (Nat.le_of_eq counted)]
  exact Dictionary.get?_foldl_insert once placed c.resolved

/-- When the attributes of a rule have been resolved, each that is declared with the type of a
provider is a provider. If it is only ever looked up at a target, the provider is an instance of
the type. Otherwise that is left to whoever has given or registered it. -/
theorem provider_attributes (rule : Rule ν) {reference : TypeRef} {attributes : List Attribute}
    (declared : RuleSchema.declare reference attributes = .ok rule.schema) (desk : Desk ν)
    (deliveries : List Delivery) :
    let run := rule.course desk deliveries
    run.state.context.phase ≠ .resolvingAttributes →
    ∀ a ∈ rule.schema.attributes, ∀ type host,
      a.kind = .provider type host ∨ a.kind = .globalProvider type host →
      ∃ p, run.state.context.attributeValue a.name = .ok (.provider p) ∧
        a.Obtains desk.context (run.answered (deliveries.map Delivery.responses)) type host p ∧
        (a.kind = .provider type host → p.isInstanceOf type = true) := by
  intro run further a member type host kind
  rcases rule.course_resolved desk deliveries with resolving | ⟨values, each, settled⟩
  · exact absurd resolving further
  · obtain ⟨v, placed, comes⟩ := exists_value_of_forall₂ each member
    obtain ⟨p, rfl, obtains⟩ := Attribute.obtains_of_comesTo kind comes
    refine ⟨p, ?_, obtains, obtains.isInstanceOf⟩
    have counted : (rule.schema.attributes.map Attribute.name).length = values.length := by
      rw [List.length_map, each.length_eq]
    have found := get?_settleAttributes (RuleSchema.nodup_of_declare declared) counted placed
      desk.context
    rw [Context.attributeValue, settled, found]

end Rule

/-! ## A target with three tools

The attributes are declared with one type. The first names a target, the second is left to the host
and the third is given a provider by a selection.
-/

namespace ToolTarget

def tool : TypeRef := .builtin "tools" "Tool"

def fitting : Provider := ⟨tool, []⟩

/-- A provider of another type. -/
def stray : Provider := ⟨.builtin "tools" "Stray", []⟩

def toolSchema : RuleSchema where
  reference := PlainTarget.reference
  attributes :=
    [⟨"named", .provider tool false, none⟩, ⟨"registered", .globalProvider tool false, none⟩,
      ⟨"given", .globalProvider tool false, none⟩]

def toolRule : Rule Unit := ⟨toolSchema, .finish (.ok .null), ()⟩

def desk : Desk Unit :=
  ⟨.ofTarget toolSchema "tools" ⟨"//pkg:tools"⟩
    [("given", .selection ⟨[], .provider stray⟩), ("named", .label ⟨"//lib"⟩)]
    PlainTarget.config, (), .empty⟩

/-- The host takes no care of the types. -/
def careless : List Delivery := [⟨[.providers [stray, fitting], .provider stray], id⟩]

def outcome : Course (Desk Unit) Outcome Request := toolRule.course desk careless

theorem outcome_done : outcome.state.context.phase = .done := by decide +kernel

end ToolTarget

open ToolTarget

/-- The provider of the named target is picked by its type. -/
theorem Rule.provider_attributes_named :
    RuleSchema.declare toolSchema.reference toolSchema.attributes = .ok toolSchema ∧
    outcome.state.context.phase ≠ .resolvingAttributes ∧
    ∃ p, outcome.state.context.attributeValue "named" = .ok (.provider p) ∧
      p.isInstanceOf tool = true := by
  have declared : RuleSchema.declare toolSchema.reference toolSchema.attributes =
      .ok toolSchema := rfl
  have further : outcome.state.context.phase ≠ .resolvingAttributes := by
    rw [outcome_done]
    exact nofun
  obtain ⟨p, value, _, isInstance⟩ := provider_attributes toolRule declared desk careless further
    ⟨"named", .provider tool false, none⟩ List.mem_cons_self tool false (.inl rfl)
  exact ⟨declared, further, p, value, isInstance rfl⟩

/-- The host's provider and the given one are of another type than the attributes. -/
theorem Rule.provider_attributes_strayed :
    outcome.state.context.phase = .done ∧
    outcome.state.context.attributeValue "registered" = .ok (.provider stray) ∧
    outcome.state.context.attributeValue "given" = .ok (.provider stray) ∧
    stray.isInstanceOf tool = false :=
  ⟨outcome_done, by decide +kernel, by decide +kernel, by decide +kernel⟩

end RuleAnalysis
