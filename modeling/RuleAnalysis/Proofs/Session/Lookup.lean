import RuleAnalysis.Proofs.Label.Anatomy
import RuleAnalysis.Proofs.Success
import RuleAnalysis.Session.Server

namespace RuleAnalysis

/-!
# Looking rules up

A rule is found under its reference, which names the file that defines it by
label. Whoever looks a rule up may give the file by label or by path, in one
text. A text that begins with a slash is taken for a path, so a label that
begins with one is never taken for a label.
-/

open Success

/-! ## Registries -/

namespace Registry

variable {ν : Type} {registry : Registry ν} {rule : Rule ν} {r : TypeRef}

theorem reference_of_get? (found : registry.get? r = some rule) : reference rule = r := by
  have meets := List.find?_some found
  exact of_decide_eq_true meets

/-- A rule is found under its own reference from then on, and the others under theirs as before. -/
theorem get?_register (registry : Registry ν) (rule : Rule ν) (r : TypeRef) :
    (registry.register rule).get? r =
      if reference rule = r then some rule else registry.get? r := by
  by_cases same : reference rule = r
  · subst same
    have none_before : (registry.rules.filter fun other => reference other ≠ reference rule).find?
        (fun other => decide (reference other = reference rule)) = none := by
      rw [List.find?_eq_none]
      intro other kept
      simpa using (List.mem_filter.mp kept).2
    rw [get?, register, List.find?_append, none_before, Option.none_or, List.find?_singleton,
      if_pos (decide_eq_true rfl), if_pos rfl]
  · have passed (other : Rule ν) : decide (decide (reference other ≠ reference rule) = true ∧
        decide (reference other = r) = true) = decide (reference other = r) := by
      by_cases found : reference other = r
      · simp [found, Ne.symm same]
      · simp [found]
    rw [get?, register, List.find?_append, List.find?_filter, funext passed,
      List.find?_singleton, if_neg (by simpa using same), Option.or_none, if_neg same, get?]

/-- Rules of other references leave the rule in its place. -/
theorem get?_foldl_register (later : List (Rule ν)) (others : ∀ other ∈ later, reference other ≠ r) :
    (later.foldl register registry).get? r = registry.get? r := by
  induction later generalizing registry with
  | nil => rfl
  | cons other rest ih =>
      rcases List.forall_mem_cons.mp others with ⟨apart, further⟩
      rw [List.foldl_cons, ih further, get?_register, if_neg apart]

/-- The rule that has been registered last under a reference is the one found there. -/
theorem get?_ofList (earlier later : List (Rule ν)) (rule : Rule ν)
    (last : ∀ other ∈ later, reference other ≠ reference rule) :
    (ofList (earlier ++ rule :: later)).get? (reference rule) = some rule := by
  rw [ofList, List.foldl_append, List.foldl_cons, get?_foldl_register later last, get?_register,
    if_pos rfl]

end Registry

/-! ## Source files -/

theorem Label.form_of_parse {text : String} {l : Label} (parsed : Label.parse text = .ok l)
    (begins : text.toList.head? = some '@') : l.form = .workspaceAbsolute := by
  have first : l.chars.head? = some '@' := by
    rw [Label.chars, (Label.parse_eq_ok_iff.mp parsed).2, begins]
  rw [Label.form_eq, if_pos first]

/-- The labels of source files are workspace-absolute. -/
theorem Layout.form_of_labelForPath {layout : Layout} {path : FilePath} {l : Label}
    (labelled : layout.labelForPath path = .ok l) : l.form = .workspaceAbsolute := by
  have spelled (workspace relative : String)
      (parsed : (if relative = "" then Label.parse ("@" ++ workspace ++ "//")
        else Label.parse ("@" ++ workspace ++ "//:" ++ relative)) = .ok l) :
      l.form = .workspaceAbsolute := by
    split at parsed <;> exact Label.form_of_parse parsed (by simp)
  unfold labelForPath at labelled
  dsimp only at labelled
  split at labelled
  · exact spelled _ _ labelled
  · split at labelled
    · exact spelled _ _ labelled
    · cases labelled

/-! ## Servers -/

namespace Server

variable {ν : Type} {server : Server ν}

theorem findRule_eq_ok_iff {source name : String} {rule : Rule ν} :
    server.findRule source name = .ok rule ↔
      ∃ l, server.sourceLabel source = .ok l ∧ server.registry.get? ⟨l, name⟩ = some rule := by
  unfold findRule
  rw [bind_eq_ok_iff]
  simp only [mapError_eq_ok_iff]
  refine exists_congr fun l => and_congr_right fun _ => ?_
  cases server.registry.get? ⟨l, name⟩ with
  | none => exact ⟨nofun, nofun⟩
  | some found => exact ⟨fun ok => by cases ok; rfl, fun same => by cases same; rfl⟩

theorem sourceLabel_of_head_ne_slash {source : String} (label : source.toList.head? ≠ some '/') :
    server.sourceLabel source = Label.parse source := by
  rw [sourceLabel, if_neg label]

theorem sourceLabel_of_head_eq_slash {source : String} (path : source.toList.head? = some '/') :
    server.sourceLabel source = server.layout.labelForPath ⟨source⟩ := by
  rw [sourceLabel, if_pos path]

/-- The rule that has been registered last under its reference is found by its reference, unless
the reference names its file by a workspace-relative label. Such a label is looked up as a path,
and whatever is found then is defined in a file with a workspace-absolute label. -/
theorem findRule_by_reference (server : Server ν) (earlier later : List (Rule ν)) (rule : Rule ν)
    (held : server.registry = .ofList (earlier ++ rule :: later))
    (last : ∀ other ∈ later, other.schema.reference ≠ rule.schema.reference)
    (wellFormed : rule.schema.reference.sourceLabel.WellFormed) :
    let reference := rule.schema.reference
    (server.findRule reference.sourceLabel.text reference.qualifiedName = .ok rule ↔
      reference.sourceLabel.form ≠ .workspaceRelative) ∧
    (reference.sourceLabel.form = .workspaceRelative →
      ∀ other, server.findRule reference.sourceLabel.text reference.qualifiedName = .ok other →
        other.schema.reference.sourceLabel.form = .workspaceAbsolute) := by
  intro reference
  have found : server.registry.get? reference = some rule := by
    rw [held]
    exact Registry.get?_ofList earlier later rule last
  have elsewhere (relative : reference.sourceLabel.form = .workspaceRelative) (other : Rule ν)
      (looked_up : server.findRule reference.sourceLabel.text reference.qualifiedName = .ok other) :
      other.schema.reference.sourceLabel.form = .workspaceAbsolute := by
    have slash := (Label.form_eq_workspaceRelative_iff wellFormed).mp relative
    obtain ⟨l, labelled, held⟩ := findRule_eq_ok_iff.mp looked_up
    rw [sourceLabel_of_head_eq_slash slash] at labelled
    have named : other.schema.reference = ⟨l, reference.qualifiedName⟩ :=
      Registry.reference_of_get? held
    rw [named]
    exact Layout.form_of_labelForPath labelled
  refine ⟨⟨?_, ?_⟩, elsewhere⟩
  · intro looked_up relative
    have absolute := elsewhere relative rule looked_up
    rw [show rule.schema.reference.sourceLabel.form = .workspaceRelative from relative] at absolute
    cases absolute
  · intro form
    have label := mt (Label.form_eq_workspaceRelative_iff wellFormed).mpr form
    refine findRule_eq_ok_iff.mpr ⟨reference.sourceLabel, ?_, found⟩
    rw [sourceLabel_of_head_ne_slash label]
    exact Label.parse_eq_ok_iff.mpr ⟨wellFormed, rfl⟩

/-! ## A rule in two places -/

/-- An edition of a rule whose file has the given label. -/
def copyRule (source : String) (edition : Nat) : Rule Nat :=
  ⟨⟨⟨⟨source⟩, "Copy"⟩, []⟩, .finish (.ok .null), edition⟩

def copyServer : Server Nat :=
  ofRegistry (.ofList [copyRule "@ws//:copy" 1, copyRule "@ws//:copy" 2,
    copyRule "//rules:copy" 1]) .standard

/-- The second edition has replaced the first. -/
theorem findRule_by_reference_edition :
    copyServer.findRule "@ws//:copy" "Copy" = .ok (copyRule "@ws//:copy" 2) ∧
    ∀ other, copyServer.findRule "//rules:copy" "Copy" = .ok other →
      other.schema.reference.sourceLabel.form = .workspaceAbsolute := by
  have absolute := findRule_by_reference copyServer [copyRule "@ws//:copy" 1]
    [copyRule "//rules:copy" 1] (copyRule "@ws//:copy" 2) rfl (by decide) (by decide +kernel)
  have relative := findRule_by_reference copyServer
    [copyRule "@ws//:copy" 1, copyRule "@ws//:copy" 2] [] (copyRule "//rules:copy" 1) rfl
    (by decide) (by decide +kernel)
  exact ⟨absolute.1.mpr (by decide +kernel), relative.2 (by decide +kernel)⟩

/-- The rule is registered under a well-formed label, and is not found by it. -/
theorem findRule_by_reference_missed :
    (copyRule "//rules:copy" 1).schema.reference.sourceLabel.WellFormed ∧
    copyServer.registry.get? ⟨⟨"//rules:copy"⟩, "Copy"⟩ = some (copyRule "//rules:copy" 1) ∧
    copyServer.findRule "//rules:copy" "Copy" =
      .error (.label (.notWorkspaceAbsolute "//rules:copy")) :=
  ⟨by decide +kernel, rfl, rfl⟩

end Server
end RuleAnalysis
