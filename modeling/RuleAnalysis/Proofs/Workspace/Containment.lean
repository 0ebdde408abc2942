import RuleAnalysis.Proofs.Session.Lookup
import RuleAnalysis.Proofs.Workspace.Addresses
import RuleAnalysis.Proofs.Workspace.Lexical

namespace RuleAnalysis
namespace Layout

/-!
# Staying in the workspaces

Files and labels are mapped to each other as they are written, without
resolving `.` and `..`. So a path that is written below a root gets a label
wherever it leads in the end, and the source file of a label is written below
the directory of its workspace and may lie anywhere. All that is needed to
leave is a `..` where the workspace is named or more climbs than names behind.
-/

open Text FilePath LabelPath

/-- Both roots are absolute, and there is nothing in them to resolve. -/
structure Settled (layout : Layout) : Prop where
  workspacesRoot : layout.workspacesRoot.Settled
  builtinRoot : layout.builtinRoot.Settled

variable {layout : Layout} {p : FilePath} {l : Label} {workspace : String}
  {names : List (List Char)}

theorem Settled.absolute (settled : layout.Settled) : layout.Absolute :=
  ⟨settled.workspacesRoot.absolute, settled.builtinRoot.absolute⟩

theorem settled_standard : standard.Settled :=
  ⟨⟨by decide, by decide +kernel⟩, ⟨by decide, by decide +kernel⟩⟩

/-- A directory among the workspaces is spelled out by names, unless it is called `..`. -/
theorem Settled.isName_directory (settled : layout.Settled) (proper : workspace ≠ "..") :
    ∀ name ∈ layout.workspacesRoot.names ++ namesAmong [workspace.toList], IsName name := by
  intro name member
  rcases List.mem_append.mp member with above | own
  · exact settled.workspacesRoot.isName above
  · rcases List.mem_filter.mp own with ⟨single, spoken⟩
    rw [List.mem_singleton.mp single] at spoken ⊢
    constructor
    · intro dot
      rw [dot] at spoken
      cases spoken
    · exact fun dots => proper (String.toList_inj.mp dots)

/-! ## Paths -/

/-- A path that leads into a workspace and does not climb out of it stays below one of the roots. -/
theorem Enters.stays (enters : layout.Enters p workspace names) (settled : layout.Settled)
    (proper : workspace ≠ "..") (stays : StaysWithin 0 names) :
    p.normalize.Beneath layout.workspacesRoot ∨ p.normalize.Within layout.builtinRoot := by
  have absolute := settled.absolute
  have rooted := enters.isAbsolute absolute
  have alike : p.normalize.isAbsolute := (isAbsolute_normalize p).trans rooted
  rcases exists_locate?_of_enters absolute enters with ⟨_, found, _⟩
  have spoken := (enters_of_locate? absolute found).2.1
  cases enters with
  | builtin spelled =>
      have behind := (components_eq_append_iff absolute.builtinRoot rooted).mp spelled
      have begins := (prefix_normalize_iff rooted (fun _ => settled.builtinRoot.isName) behind).mpr
        (returns_of_staysWithin stays)
      exact .inr ((within_iff alike absolute.builtinRoot).mpr begins)
  | named _ spelled =>
      have directory : namesAmong [workspace.toList] = [workspace.toList] :=
        namesAmong_cons spoken []
      have behind : p.names =
          (layout.workspacesRoot.names ++ namesAmong [workspace.toList]) ++ names := by
        rw [(components_eq_append_iff absolute.workspacesRoot rooted).mp spelled, directory,
          List.append_assoc]
        rfl
      have begins := (prefix_normalize_iff rooted (settled.isName_directory proper) behind).mpr
        (returns_of_staysWithin stays)
      refine .inl ((beneath_iff alike absolute.workspacesRoot).mpr ⟨?_, fun same => ?_⟩)
      · exact (List.prefix_append _ _).trans begins
      · have longer := begins.length_le
        rw [same, directory, List.length_append, List.length_singleton] at longer
        omega

/-- A path that ends up outside the roots has a label if it is written as one in a workspace and all
of it can be said. Then it names the workspace by `..` or climbs out of it; no other such path
gets a label. Where there is no label, there is no rule to be found by the path either. -/
theorem labelForPath_outside (settled : layout.Settled) (rooted : p.isAbsolute)
    (beyond : ¬ p.normalize.Beneath layout.workspacesRoot)
    (apart : ¬ p.normalize.Within layout.builtinRoot) :
    ((∃ l, layout.labelForPath p = .ok l) ↔
      ∃ workspace names, layout.Enters p workspace names ∧ Sayable workspace names ∧
        (workspace = ".." ∨ ¬ StaysWithin 0 names)) ∧
    ((∀ workspace names, layout.Enters p workspace names →
        workspace ≠ ".." ∧ StaysWithin 0 names) →
      layout.labelForPath p = .error (.notWorkspaceAbsolute p.text)) ∧
    ∀ (ν : Type) (server : Server ν) (name : String) (e : LabelError), server.layout = layout →
      layout.labelForPath p = .error e → server.findRule p.text name = .error (.label e) := by
  have strays (workspace : String) (names : List (List Char))
      (enters : layout.Enters p workspace names) : workspace = ".." ∨ ¬ StaysWithin 0 names := by
    by_contra neither
    rw [not_or, not_not] at neither
    exact (enters.stays settled neither.1 neither.2).elim beyond apart
  refine ⟨?_, ?_, ?_⟩
  · rw [exists_labelForPath_iff settled.absolute]
    refine exists_congr fun workspace => exists_congr fun names => ?_
    refine and_congr_right fun enters => ?_
    exact (and_iff_left (strays workspace names enters)).symm
  · intro straight
    refine labelForPath_of_not_enters settled.absolute fun workspace names enters => ?_
    have stays := straight workspace names enters
    exact (strays workspace names enters).elim stays.1 fun climbs => climbs stays.2
  · intro ν server name e held refused
    have looked_up : server.sourceLabel p.text = .error e := by
      rw [Server.sourceLabel_of_head_eq_slash (isAbsolute_iff.mp rooted), held]
      exact refused
    rw [Server.findRule, looked_up]
    rfl

/-- A path that has nothing to do with the roots. -/
theorem labelForPath_outside_home :
    let p : FilePath := ⟨"/home/user/rules.rs"⟩
    p.isAbsolute ∧ ¬ p.normalize.Beneath standard.workspacesRoot ∧
    ¬ p.normalize.Within standard.builtinRoot ∧
    standard.labelForPath p = .error (.notWorkspaceAbsolute p.text) ∧
    Server.copyServer.findRule p.text "Copy" = .error (.label (.notWorkspaceAbsolute p.text)) := by
  intro p
  have rooted : p.isAbsolute := by decide
  have beyond : ¬ p.normalize.Beneath standard.workspacesRoot := by decide +kernel
  have apart : ¬ p.normalize.Within standard.builtinRoot := by decide +kernel
  rcases labelForPath_outside settled_standard rooted beyond apart with ⟨_, refusal, looked_up⟩
  have foreign (root : FilePath) (other : ¬ p.Within root) (names : List (List Char)) :
      p.components ≠ root.components ++ names.map .name :=
    fun spelled => other ⟨_, spelled.symm⟩
  have refused := refusal fun workspace names enters => by
    cases enters with
    | builtin spelled => exact absurd spelled (foreign _ (by decide +kernel) _)
    | named _ spelled => exact absurd spelled (foreign _ (by decide +kernel) _)
  exact ⟨rooted, beyond, apart, refused,
    looked_up Nat Server.copyServer "Copy" _ rfl refused⟩

/-- The file of passwords is in no workspace and has a label. -/
theorem labelForPath_outside_labelled :
    ¬ ∀ (layout : Layout) (p : FilePath), layout.Settled → p.isAbsolute →
      ¬ p.normalize.Beneath layout.workspacesRoot → ¬ p.normalize.Within layout.builtinRoot →
        ∃ e, layout.labelForPath p = .error e := by
  intro refused
  have labelled : standard.labelForPath ⟨"/workspaces/../etc/passwd"⟩ =
      .ok ⟨"@..//:etc/passwd"⟩ := by decide +kernel
  rcases refused standard ⟨"/workspaces/../etc/passwd"⟩ settled_standard (by decide)
    (by decide +kernel) (by decide +kernel) with ⟨e, failed⟩
  cases labelled.symm.trans failed

/-! ## Labels -/

theorem Settled.isName_workspaceRoot (settled : layout.Settled) (proper : workspace ≠ "..")
    (clear : '/' ∉ workspace.toList) :
    ∀ name ∈ (layout.workspaceRoot workspace).names, IsName name := by
  by_cases builtin : workspace = Label.builtinWorkspace
  · rw [workspaceRoot, if_pos builtin]
    exact fun _ => settled.builtinRoot.isName
  · rw [names_workspaceRoot builtin clear]
    exact settled.isName_directory proper

/-- The source file of a label lies in the directory of its workspace exactly if the workspace is not
named `..` and the segments of the label lead back whenever they lead out. It does so in any case
if the label never climbs out. -/
theorem sourcePath_within_iff (settled : layout.Settled) (sound : l.WellFormed)
    (named : l.workspaceName? = some workspace) :
    ∃ q, layout.sourcePath l = .ok q ∧ q.isAbsolute ∧
      (q.normalize.Within (layout.workspaceRoot workspace) ↔
        workspace ≠ ".." ∧ Returns (layout.workspaceRoot workspace).names l.segments) ∧
      (workspace ≠ ".." → StaysWithin 0 l.segments →
        q.normalize.Within (layout.workspaceRoot workspace)) := by
  have absolute := settled.absolute
  have clear := (sound.rooted.clear_workspaceName named).1
  rcases sourcePath_eq absolute named with ⟨q, leads, rooted, behind⟩
  have alike : q.normalize.isAbsolute := (isAbsolute_normalize q).trans rooted
  have home := isAbsolute_workspaceRoot absolute workspace
  have within : q.normalize.Within (layout.workspaceRoot workspace) ↔
      workspace ≠ ".." ∧ Returns (layout.workspaceRoot workspace).names l.segments := by
    rw [within_iff alike home]
    by_cases proper : workspace = ".."
    · refine iff_of_false (fun begins => ?_) fun both => both.1 proper
      have member : ['.', '.'] ∈ (layout.workspaceRoot workspace).names := by
        rw [proper, names_workspaceRoot (by decide) (by decide)]
        exact List.mem_append_right _ (by decide)
      exact (isName_of_mem_normalize rooted (begins.subset member)).2 rfl
    · rw [prefix_normalize_iff rooted (settled.isName_workspaceRoot proper clear) behind]
      exact (and_iff_right proper).symm
  exact ⟨q, leads, rooted, within, fun proper stays =>
    within.mpr ⟨proper, returns_of_staysWithin stays⟩⟩

/-- A label that goes up and down again within its workspace. -/
theorem sourcePath_within_iff_library :
    let l : Label := ⟨"@ws//tools/../lib:a.rs"⟩
    l.WellFormed ∧ l.workspaceName? = some "ws" ∧
    ∃ q, standard.sourcePath l = .ok q ∧ q.normalize.Within ⟨"/workspaces/ws"⟩ := by
  intro l
  have sound : l.WellFormed := by decide +kernel
  have named : l.workspaceName? = some "ws" := by decide +kernel
  rcases sourcePath_within_iff settled_standard sound named with ⟨q, leads, _, within, _⟩
  exact ⟨sound, named, q, leads, within.mpr (by decide +kernel)⟩

/-- A label whose source file is the file of passwords. -/
theorem sourcePath_within_iff_strayed :
    ¬ ∀ (layout : Layout) (l : Label) (workspace : String), layout.Settled → l.WellFormed →
      l.workspaceName? = some workspace →
        ∃ q, layout.sourcePath l = .ok q ∧ q.normalize.Within (layout.workspaceRoot workspace) := by
  intro stays
  have leads : standard.sourcePath ⟨"@ws//../../etc/passwd"⟩ =
      .ok ⟨"/workspaces/ws/../../etc/passwd"⟩ := by decide +kernel
  rcases stays standard ⟨"@ws//../../etc/passwd"⟩ "ws" settled_standard (by decide +kernel)
    (by decide +kernel) with ⟨q, found, within⟩
  cases leads.symm.trans found
  exact absurd within (by decide +kernel)

end Layout
end RuleAnalysis
