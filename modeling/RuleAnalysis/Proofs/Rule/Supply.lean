import RuleAnalysis.Proofs.Analysis.Trace
import RuleAnalysis.Proofs.Rule.Coercion

namespace RuleAnalysis

/-!
# Supplying a value to an attribute

A supplied value is coerced and stored by the invocation, and what has been
stored is resolved in the analysis. A value that depends on the configuration
is stored as it is, and its branches are not coerced later as an invocation
would have coerced them. So a selection comes to what its branch comes to if
that had been stored as it is, and to what its branch comes to if it is
supplied exactly when the invocation has nothing to do for it.
-/

variable {ν : Type}

/-- The value is at hand when the configuration is known; the host is not asked for it. -/
def AttributeKind.AtHand : AttributeKind → Prop
  | provider .. | globalProvider .. => False
  | _ => True

/-! ## What the host sees of an attribute -/

namespace Attribute

/-- The desk of a target whose invocation has stored a value for the attribute. -/
def store (a : Attribute) (stored : Value) (desk : Desk ν) : Desk ν :=
  desk.changeContext fun c => { c with attributesInput := c.attributesInput.insert a.name stored }

/-- How the host sees a stored value resolved: the requests and how the task ends. -/
def analyze (a : Attribute) (stored : Value) (desk : Desk ν) (deliveries : List Delivery) :
    Course Unit Outcome Request :=
  ((TaskOf.ofProgram a.resolve.routine.program).course (a.store stored desk)
    (⟨[], id⟩ :: deliveries.map Delivery.visit)).seen (fun _ => ()) id

/-- How the host sees a value that is supplied by an invocation from a package. A value that the
invocation refuses is never analyzed. -/
def supply (a : Attribute) (v : Value) (package? : Option Label) (desk : Desk ν)
    (deliveries : List Delivery) : Course Unit Outcome Request :=
  match a.coerceSource v package? with
  | .error e => ⟨[], some (.ok (.error (.schema e))), ()⟩
  | .ok stored => a.analyze stored desk deliveries

end Attribute

/-! ## Resolving takes at most one exchange -/

namespace Program

variable {σ ρ κ : Type}

theorem pending_ask_ne_nil (q : κ) (next : Response → Program σ ρ κ) : (ask q next).pending ≠ [] :=
  List.cons_ne_nil q []

/-- What is seen of a single exchange does not depend on the state. -/
theorem follow_ask_seen (q : κ) (read : Response → ρ) (s s' : σ) (visits : List (Visit σ)) :
    ((ask q fun response => done (read response)).follow s visits).seen (fun _ => ()) (id : κ → κ) =
      ((ask q fun response => done (read response)).follow s' visits).seen (fun _ => ()) id := by
  cases visits with
  | nil =>
      rw [follow_nil (pending_ask_ne_nil _ _), follow_nil (pending_ask_ne_nil _ _)]
      rfl
  | cons v visits =>
      by_cases sized : v.responses.length = 1
      · rcases List.length_eq_one_iff.mp sized with ⟨response, only⟩
        rw [follow_cons (pending_ask_ne_nil _ _) s v visits sized,
          follow_cons (pending_ask_ne_nil _ _) s' v visits sized, only]
        simp only [answer, settle, follow_done]
        rfl
      · rw [follow_missized (pending_ask_ne_nil _ _) s v visits sized,
          follow_missized (pending_ask_ne_nil _ _) s' v visits sized]
        rfl

end Program

namespace Resolution

/-- What is left to do when it is known how the value is come by. -/
def inquiry (c : BuildConfig) : Except SchemaError Resolution → AnalysisProgram ν
  | .error e => .done (.error (.schema e))
  | .ok (.value v) => .done (.ok v)
  | .ok (.provider type target host) =>
      let q := Query.loadProviders target (c.forRequest host)
      .ask (.query q) fun response =>
        .done ((Answer.providers q response >>= singleProvider type target).map .provider)
  | .ok (.globalProvider type host) =>
      let q := Query.loadGlobalProvider type (c.forRequest host)
      .ask (.query q) fun response => .done ((Answer.globalProvider q type response).map .provider)

/-- How the host sees the inquiry. -/
def shown (c : BuildConfig) (r : Except SchemaError Resolution) (desk : Desk ν)
    (deliveries : List Delivery) : Course Unit Outcome Request :=
  ((inquiry c r).follow desk (deliveries.map Delivery.visit)).seen (fun _ => ()) id

section

variable (c : BuildConfig) (desk : Desk ν)

@[simp] theorem shown_error (e : SchemaError) (deliveries : List Delivery) :
    shown c (.error e) desk deliveries = ⟨[], some (.ok (.error (.schema e))), ()⟩ := by
  rw [shown, inquiry, Program.follow_done]
  rfl

@[simp] theorem shown_value (v : Value) (deliveries : List Delivery) :
    shown c (.ok (.value v)) desk deliveries = ⟨[], some (.ok (.ok v)), ()⟩ := by
  rw [shown, inquiry, Program.follow_done]
  rfl

@[simp] theorem shown_provider_nil (type : TypeRef) (target : Label) (host : Bool) :
    shown c (.ok (.provider type target host)) desk [] =
      ⟨[[.query (.loadProviders target (c.forRequest host))]], none, ()⟩ := by
  rw [shown, inquiry, List.map_nil, Program.follow_nil (Program.pending_ask_ne_nil _ _)]
  rfl

@[simp] theorem shown_globalProvider_nil (type : TypeRef) (host : Bool) :
    shown c (.ok (.globalProvider type host)) desk [] =
      ⟨[[.query (.loadGlobalProvider type (c.forRequest host))]], none, ()⟩ := by
  rw [shown, inquiry, List.map_nil, Program.follow_nil (Program.pending_ask_ne_nil _ _)]
  rfl

end

end Resolution

namespace Resolution

/-- The work of coming by the value. -/
def obtain : Resolution → Work ν Value
  | .value v => return v
  | .provider type target host => return .provider (← Work.resolveProvider type target host)
  | .globalProvider type host => return .provider (← Work.resolveGlobalProvider type host)

theorem program_provider (found : Except AnalysisError Provider) :
    (do return .provider (← Work.ofExcept found) : Work ν Value).routine.program =
      .done (found.map .provider) := by
  cases found <;> rfl

theorem settle_obtain (r : Resolution) (desk : Desk ν) :
    (obtain r).routine.program.settle desk = (inquiry desk.context.config (.ok r), desk) := by
  cases r with
  | value v => rfl
  | provider type target host =>
      refine Prod.ext (congrArg (Program.ask _) (funext fun response => ?_)) rfl
      cases response with
      | providers ps => exact program_provider (singleProvider type target ps)
      | _ => rfl
  | globalProvider type host =>
      exact Prod.ext (congrArg (Program.ask _) (funext fun _ => program_provider _)) rfl

end Resolution

namespace Attribute

theorem settle_resolve (a : Attribute) (desk : Desk ν) :
    a.resolve.routine.program.settle desk =
      (Resolution.inquiry desk.context.config
        (a.resolution desk.context.config (desk.context.attributesInput.get? a.name)), desk) := by
  have opened : a.resolve.routine.program.settle desk =
      (Work.ofExcept ((a.resolution desk.context.config
        (desk.context.attributesInput.get? a.name)).mapError AnalysisError.schema) >>=
          Resolution.obtain).routine.program.settle desk := rfl
  rw [opened]
  cases a.resolution desk.context.config (desk.context.attributesInput.get? a.name) with
  | error e => rfl
  | ok r => exact Resolution.settle_obtain r desk

end Attribute

namespace Resolution

/-- Nothing but the configuration and the host's answers matters to the inquiry. -/
theorem shown_desk (c : BuildConfig) (r : Except SchemaError Resolution) (desk desk' : Desk ν)
    (deliveries : List Delivery) : shown c r desk deliveries = shown c r desk' deliveries := by
  rcases r with e | v | ⟨type, target, host⟩ | ⟨type, host⟩
  · rw [shown_error, shown_error]
  · rw [shown_value, shown_value]
  · exact Program.follow_ask_seen ..
  · exact Program.follow_ask_seen ..

/-- Values can be come by in this way for attributes of the kind. -/
def Suits (kind : AttributeKind) : Resolution → Prop
  | .value _ => True
  | .provider type _ host => kind = .provider type host ∨ kind = .globalProvider type host
  | .globalProvider type host => kind = .globalProvider type host

/-- The first visit already tells apart how values are come by. -/
theorem shown_injective {kind : AttributeKind} {c : BuildConfig}
    {r r' : Except SchemaError Resolution} (suits : ∀ x, r = .ok x → x.Suits kind)
    (suits' : ∀ x, r' = .ok x → x.Suits kind) {desk : Desk ν}
    (same : shown c r desk [] = shown c r' desk []) : r = r' := by
  rcases r with e | v | ⟨type, target, host⟩ | ⟨type, host⟩ <;>
    rcases r' with e' | v' | ⟨type', target', host'⟩ | ⟨type', host'⟩ <;>
    simp only [shown_error, shown_value, shown_provider_nil, shown_globalProvider_nil,
      Course.mk.injEq, Option.some.injEq, Except.ok.injEq, Except.error.injEq,
      AnalysisError.schema.injEq, List.cons.injEq, Request.query.injEq, Query.loadProviders.injEq,
      Query.loadGlobalProvider.injEq, true_and, and_true, reduceCtorEq, and_false] at same
  · rw [same]
  · rw [same]
  · have kinds := suits _ rfl
    have kinds' := suits' _ rfl
    rw [same.1]
    rcases kinds with rfl | rfl <;> rcases kinds' with same | same <;> cases same <;> rfl
  · have kinds := suits _ rfl
    have kinds' := suits' _ rfl
    cases kinds.symm.trans kinds'
    rfl

end Resolution

namespace Attribute

variable {a : Attribute} {package? : Option Label} {v w : Value}

theorem resolution_suits {c : BuildConfig} {supplied : Option Value} {r : Resolution}
    (found : a.resolution c supplied = .ok r) : r.Suits a.kind := by
  have looked {type : TypeRef} {host : Bool} {v : Value} (found : a.lookUp type host v = .ok r)
      (kind : a.kind = .provider type host ∨ a.kind = .globalProvider type host) :
      r.Suits a.kind := by
    rcases Success.map_eq_ok_iff.mp found with ⟨target, _, rfl⟩
    exact kind
  cases kind : a.kind with
  | provider type host =>
      simp only [resolution, kind] at found
      exact kind ▸ looked found (.inl kind)
  | globalProvider type host =>
      simp only [resolution, kind] at found
      split at found
      · cases found
        rfl
      · cases found
        rfl
      · cases found
        trivial
      · exact kind ▸ looked found (.inr kind)
  | _ =>
      simp only [resolution, kind] at found
      rcases Success.map_eq_ok_iff.mp found with ⟨v, _, rfl⟩
      trivial

theorem analyze_eq_shown (stored : Value) (desk : Desk ν) (deliveries : List Delivery) :
    a.analyze stored desk deliveries =
      Resolution.shown desk.context.config (a.resolution desk.context.config (some stored)) desk
        deliveries := by
  have found : (a.store stored desk).context.attributesInput.get? a.name = some stored :=
    Dictionary.get?_insert_self ..
  rw [analyze, TaskOf.course_ofProgram a.resolve.routine.live, id, settle_resolve, found]
  exact Resolution.shown_desk ..

/-- How the value of the attribute is come by when a value has been supplied by an invocation. -/
def suppliedResolution (a : Attribute) (package? : Option Label) (c : BuildConfig) (v : Value) :
    Except SchemaError Resolution := do
  a.resolution c (some (← a.coerceSource v package?))

theorem supply_eq_shown (desk : Desk ν) (deliveries : List Delivery) :
    a.supply v package? desk deliveries =
      Resolution.shown desk.context.config
        (a.suppliedResolution package? desk.context.config v) desk deliveries := by
  rw [supply, suppliedResolution]
  cases a.coerceSource v package? with
  | error e => exact (Resolution.shown_error _ desk e deliveries).symm
  | ok stored => exact a.analyze_eq_shown stored desk deliveries

theorem suppliedResolution_suits {c : BuildConfig} {r : Resolution}
    (found : a.suppliedResolution package? c v = .ok r) : r.Suits a.kind := by
  rcases Success.bind_eq_ok_iff.mp found with ⟨stored, _, resolved⟩
  exact resolution_suits resolved

/-! ## When the invocation makes no difference -/

theorem resolution_of_atHand (atHand : a.kind.AtHand) (c : BuildConfig)
    (resolved : v.isUnresolved = false) :
    a.resolution c (some v) = (a.coerceValue v).map .value := by
  cases kind : a.kind with
  | provider | globalProvider =>
      rw [kind] at atHand
      exact atHand.elim
  | _ =>
      simp only [resolution, kind, Value.resolveSelections_of_resolved resolved,
        Option.getD_some]

theorem suppliedResolution_of_atHand (atHand : a.kind.AtHand) (c : BuildConfig)
    (resolved : v.isUnresolved = false) :
    a.suppliedResolution package? c v =
      (a.coerceSource v package? >>= a.coerceValue).map .value := by
  rw [suppliedResolution]
  cases coerced : a.coerceSource v package? with
  | error e => rfl
  | ok w =>
      exact resolution_of_atHand atHand c (isUnresolved_of_coerceSource resolved coerced)

/-- The analysis takes a list or a map of labels as it is stored. -/
theorem coerceValue_eq_pure (labels : a.kind = .labelList ∨ a.kind = .labelMap) :
    a.coerceValue = pure := by
  funext v
  rcases labels with kind | kind <;> simp only [coerceValue, kind] <;> rfl

/-- When a value that is coerced twice, by the invocation and in the analysis, comes to the same as
if it is coerced in the analysis alone. -/
theorem coerceSource_coerceValue_eq_iff (atHand : a.kind.AtHand)
    (resolved : v.isUnresolved = false) :
    (a.coerceSource v package? >>= a.coerceValue) = a.coerceValue v ↔ a.Settled package? v := by
  cases kind : a.kind with
  | provider | globalProvider =>
      rw [kind] at atHand
      exact atHand.elim
  | any | globSet =>
      have stored : a.coerceSource v package? = a.coerceValue v := by
        simp only [coerceSource, resolved, kind, Bool.false_eq_true, if_false]
      rw [stored]
      have settled : a.Settled package? v := by
        simp only [Settled, kind]
      refine iff_of_true ?_ settled
      cases coerced : a.coerceValue v with
      | error e => rfl
      | ok w => exact coerceValue_idempotent coerced
  | label | file =>
      have stored : (a.coerceSource v package? >>= a.coerceValue) =
          (a.coerceLabel v package?).map .label := by
        simp only [coerceSource, resolved, kind, Bool.false_eq_true, if_false]
        cases a.coerceLabel v package? with
        | error e => rfl
        | ok l => simp only [Except.map, bind, Except.bind, coerceValue, kind]
      rw [stored, coerceLabel_map_eq_coerceValue_iff (by simp [kind])]
      simp only [Settled, kind]
  | labelList =>
      rw [coerceValue_eq_pure (.inl kind), bind_pure]
      simp only [coerceSource, resolved, kind, Bool.false_eq_true, if_false, Settled]
      exact coerceLabelList_eq_self_iff
  | labelMap =>
      rw [coerceValue_eq_pure (.inr kind), bind_pure]
      simp only [Settled, kind]
      exact coerceSource_eq_self_iff_of_labelMap kind resolved

section

variable {type : TypeRef} {host : Bool}

/-- An invocation has a provider looked up at the label that the value names for it. -/
theorem suppliedResolution_of_provider
    (kind : a.kind = .provider type host ∨ a.kind = .globalProvider type host) (c : BuildConfig)
    (resolved : v.isUnresolved = false) :
    a.suppliedResolution package? c v =
      (a.coerceLabel v package?).map fun target => .provider type target host := by
  have stored : a.coerceSource v package? = (a.coerceLabel v package?).map .label := by
    rcases kind with kind | kind <;>
      simp only [coerceSource, resolved, kind, Bool.false_eq_true, if_false]
  have found (l : Label) : a.resolution c (some (.label l)) = .ok (.provider type l host) := by
    rcases kind with kind | kind <;> simp only [resolution, kind] <;> rfl
  rw [suppliedResolution, stored]
  cases a.coerceLabel v package? with
  | error e => rfl
  | ok l => exact found l

theorem lookUp_eq_map (a : Attribute) (type : TypeRef) (host : Bool) (v : Value) :
    a.lookUp type host v = (a.readLabel v).map fun target => .provider type target host := by
  rw [lookUp, coerceLabel_none]

/-- Looking a provider up needs no invocation exactly if the value names no label or one that
stays. -/
theorem suppliedResolution_eq_lookUp_iff
    (kind : a.kind = .provider type host ∨ a.kind = .globalProvider type host) (c : BuildConfig)
    (resolved : v.isUnresolved = false) :
    a.suppliedResolution package? c v = a.lookUp type host v ↔ a.NamesInPlace package? v := by
  rw [suppliedResolution_of_provider kind c resolved, lookUp_eq_map,
    Success.map_eq_map_iff fun _ _ same => (Resolution.provider.inj same).2.1,
    coerceLabel_eq_readLabel_iff]

end

/-- Supplied by an invocation, the value of the attribute is come by as if the invocation had stored
what it was given exactly if the value is settled. -/
theorem suppliedResolution_eq_iff (c : BuildConfig) (resolved : v.isUnresolved = false) :
    a.suppliedResolution package? c v = a.resolution c (some v) ↔ a.Settled package? v := by
  cases kind : a.kind with
  | provider type host =>
      have stored : a.resolution c (some v) = a.lookUp type host v := by
        simp only [resolution, kind, Value.resolveSelections_of_resolved resolved,
          Option.getD_some]
      rw [stored, suppliedResolution_eq_lookUp_iff (.inl kind) c resolved]
      simp only [Settled, kind]
  | globalProvider type host =>
      have settled : a.Settled package? v ↔
          v ≠ .null ∧ (∀ p, v ≠ .provider p) ∧ a.NamesInPlace package? v := by
        simp only [Settled, kind]
      rw [settled]
      have supplied : a.suppliedResolution package? c v =
          (a.coerceLabel v package?).map fun target => .provider type target host :=
        suppliedResolution_of_provider (.inr kind) c resolved
      by_cases absent : v = .null
      · subst absent
        refine iff_of_false ?_ (fun settled => settled.1 rfl)
        simp only [supplied, resolution, kind]
        exact nofun
      by_cases given : ∃ p, v = .provider p
      · rcases given with ⟨p, rfl⟩
        refine iff_of_false ?_ (fun settled => settled.2.1 p rfl)
        simp only [supplied, resolution, kind]
        exact nofun
      · have stored : a.resolution c (some v) = a.lookUp type host v := by
          simp only [resolution, kind, Value.resolveSelections_of_resolved resolved]
          split
          · next impossible => cases impossible
          · next same => exact absurd (Option.some.inj same) absent
          · next p same => exact absurd ⟨p, Option.some.inj same⟩ given
          · next same => cases same; rfl
        rw [stored, suppliedResolution_eq_lookUp_iff (.inr kind) c resolved, and_iff_right absent,
          and_iff_right (not_exists.mp given)]
  | _ =>
      have atHand : a.kind.AtHand := by
        rw [kind]
        trivial
      rw [suppliedResolution_of_atHand atHand c resolved, resolution_of_atHand atHand c resolved,
        Success.map_eq_map_iff fun _ _ same => Resolution.value.inj same,
        coerceSource_coerceValue_eq_iff atHand resolved]

/-! ## Supplying a selection -/

/-- In the analysis a stored value comes to the same as what the configuration picks of it. -/
theorem analyze_of_picks (a : Attribute) (desk : Desk ν) {s v : Value}
    (picks : Value.Picks desk.context.config s v) (deliveries : List Delivery) :
    a.analyze s desk deliveries = a.analyze v desk deliveries := by
  have again := Value.resolveSelections_of_resolved (c := desk.context.config)
    picks.isUnresolved_eq_false
  rw [analyze_eq_shown, analyze_eq_shown, resolution, resolution]
  simp only [picks.resolveSelections_eq, again]

/-- A value with selections is stored as it is and comes to what the picked value comes to if that
has been stored as it is. To the host it is the same as the picked value supplied by the same
invocation exactly if the picked value is settled. -/
theorem supply_selected (a : Attribute) (package? : Option Label) (desk : Desk ν) {s v : Value}
    (unresolved : s.isUnresolved = true) (picks : Value.Picks desk.context.config s v) :
    a.coerceSource s package? = .ok s ∧
      (∀ deliveries, a.supply s package? desk deliveries = a.analyze v desk deliveries) ∧
      ((∀ deliveries, a.supply s package? desk deliveries = a.supply v package? desk deliveries) ↔
        a.Settled package? v) := by
  have stored : a.coerceSource s package? = .ok s := coerceSource_of_unresolved unresolved
  have analyzed (deliveries : List Delivery) :
      a.supply s package? desk deliveries = a.analyze v desk deliveries := by
    rw [supply, stored]
    exact a.analyze_of_picks desk picks deliveries
  refine ⟨stored, analyzed, ?_⟩
  rw [← suppliedResolution_eq_iff desk.context.config picks.isUnresolved_eq_false]
  constructor
  · intro same
    have first := same []
    rw [analyzed, analyze_eq_shown, supply_eq_shown] at first
    exact (Resolution.shown_injective (fun _ => resolution_suits)
      (fun _ => suppliedResolution_suits) first).symm
  · intro same deliveries
    rw [analyzed, analyze_eq_shown, supply_eq_shown, same]

end Attribute

/-! ## Sources that depend on the platform

A target in a package is built for Linux.
-/

namespace SelectedSources

def config : BuildConfig := ⟨[(OptionFamily.family Os, OptionFamily.reference Os.linux)], []⟩

def desk : Desk Unit := PlainTarget.desk.changeContext fun c => { c with config := config }

def package : Label := ⟨"//pkg"⟩

/-- A file for Linux, which is a selection again, and nothing for other platforms. -/
def selected : Value :=
  .selection ⟨[(OptionFamily.reference Os.linux, .selection ⟨[], .label ⟨"//lib:a.c"⟩⟩)], .null⟩

def bareName : Value := .selection ⟨[], .string "a.txt"⟩

end SelectedSources

open SelectedSources

/-- The sources of another package come to the same through a selection. -/
theorem Attribute.supply_selected_elsewhere :
    let a : Attribute := ⟨"srcs", .labelList, none⟩
    let s : Value := .list [selected, .label ⟨"@ws//:b.c"⟩]
    let v : Value := .list [.label ⟨"//lib:a.c"⟩, .label ⟨"@ws//:b.c"⟩]
    s.isUnresolved = true ∧ Value.Picks config s v ∧ ∀ deliveries,
      a.supply s (some package) desk deliveries = a.supply v (some package) desk deliveries := by
  intro a s v
  have picks : Value.Picks config s v :=
    .cons (.selection (.selection (.leaf trivial))) (.cons (.leaf trivial) .nil)
  have settled : a.Settled (some package) v :=
    ⟨_, rfl, List.forall_mem_cons.mpr
      ⟨⟨_, rfl, by decide⟩, List.forall_mem_singleton.mpr ⟨_, rfl, by decide⟩⟩⟩
  exact ⟨rfl, picks, (Attribute.supply_selected a (some package) desk rfl picks).2.2.mpr settled⟩

/-- The name of a file is anchored to the package if it is supplied as such, and stays a bare name
if a selection comes to it. -/
theorem Attribute.supply_selected_unanchored :
    let a : Attribute := ⟨"src", .file, none⟩
    bareName.isUnresolved = true ∧ Value.Picks config bareName (.string "a.txt") ∧
      a.supply bareName (some package) desk [] =
        ⟨[], some (.ok (.ok (.label ⟨"a.txt"⟩))), ()⟩ ∧
      a.supply (.string "a.txt") (some package) desk [] =
        ⟨[], some (.ok (.ok (.label ⟨"//pkg:a.txt"⟩))), ()⟩ ∧
      a.supply bareName (some package) desk [] ≠
        a.supply (.string "a.txt") (some package) desk [] := by
  intro a
  have bare : a.supply bareName (some package) desk [] =
      ⟨[], some (.ok (.ok (.label ⟨"a.txt"⟩))), ()⟩ := by
    rw [Attribute.supply_eq_shown]
    exact Resolution.shown_value ..
  have anchored : a.supply (.string "a.txt") (some package) desk [] =
      ⟨[], some (.ok (.ok (.label ⟨"//pkg:a.txt"⟩))), ()⟩ := by
    rw [Attribute.supply_eq_shown]
    exact Resolution.shown_value ..
  refine ⟨rfl, .selection (.leaf trivial), bare, anchored, ?_⟩
  rw [bare, anchored]
  simp

end RuleAnalysis
