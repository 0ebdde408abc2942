import RuleAnalysis.Proofs.Label.Anatomy
import RuleAnalysis.Proofs.Success
import RuleAnalysis.Proofs.Workspace.Components
import RuleAnalysis.Workspace.Layout

namespace RuleAnalysis

/-!
# From source files to labels and back

The label of a source file names a workspace and spells the rest of the path
behind a colon. On the way back every colon counts as a slash, and the builtin
workspace is looked for in its own directory only. So the way back leads to
another file if a name holds a colon, or if the path has come by a directory
among the other workspaces that bears the name of the builtin one. Labels keep
paths apart but for this second case.
-/

open Text FilePath

/-! ## Source files of labels -/

namespace Label

/-- What a label names behind its workspace, whichever separators stand between. -/
def segments (l : Label) : List (List Char) :=
  namesAmong (pieces isSeparator l.rest)

theorem forall_isSeparator_eq_false_iff {cs : List Char} :
    (∀ c ∈ cs, isSeparator c = false) ↔ '/' ∉ cs ∧ ':' ∉ cs := by
  constructor
  · intro each
    exact ⟨fun slash => absurd (each _ slash) (by decide),
      fun colon => absurd (each _ colon) (by decide)⟩
  · rintro ⟨slash, colon⟩ c member
    have other : c ≠ '/' ∧ c ≠ ':' :=
      ⟨fun same => slash (same ▸ member), fun same => colon (same ▸ member)⟩
    simp [isSeparator, other]

/-- There is no separator in the name of a workspace. -/
theorem Rooted.clear_workspaceName {l : Label} (rooted : l.Rooted) {workspace : String}
    (named : l.workspaceName? = some workspace) : '/' ∉ workspace.toList ∧ ':' ∉ workspace.toList := by
  have isRoot := rooted.isRoot
  rw [rooted.workspaceName?_isSome_iff.mp (named ▸ rfl), rooted.root_of_workspaceName? named,
    IsRoot.absolute_iff, forall_isSeparator_eq_false_iff] at isRoot
  exact isRoot.2

end Label

namespace Layout

/-- Both roots are absolute. -/
structure Absolute (layout : Layout) : Prop where
  workspacesRoot : layout.workspacesRoot.isAbsolute
  builtinRoot : layout.builtinRoot.isAbsolute

variable {layout : Layout} {p : FilePath} {l : Label} {workspace : String}

/-- Behind the workspace's directory the path has the segments of the label. -/
theorem names_relativePath (l : Label) : (FilePath.mk (relativePath l)).names = l.segments := by
  rw [names, chars, relativePath, String.toList_ofList, namesAmong_pieces_dropWhile, Label.segments]
  congr 1
  apply pieces_map
  · intro c _
    by_cases colon : c = ':' <;> simp [Label.isSeparator, colon]
  · intro c _ clear
    have other : c ≠ ':' := by
      rintro rfl
      cases clear
    exact if_neg other

theorem relativePath_head (l : Label) : (relativePath l).toList.head? ≠ some '/' := by
  rw [relativePath, String.toList_ofList]
  intro slash
  have dropped := List.head?_dropWhile_not (fun c : Char => decide (c = '/'))
    (l.rest.map fun c => if c = ':' then '/' else c)
  rw [slash] at dropped
  exact absurd dropped (by decide)

theorem isAbsolute_workspaceRoot (absolute : layout.Absolute) (workspace : String) :
    (layout.workspaceRoot workspace).isAbsolute := by
  rw [workspaceRoot]
  split
  · exact absolute.builtinRoot
  · exact isAbsolute_join absolute.workspacesRoot workspace

theorem sourcePath_eq (absolute : layout.Absolute) (named : l.workspaceName? = some workspace) :
    ∃ q, layout.sourcePath l = .ok q ∧ q.isAbsolute ∧
      q.names = (layout.workspaceRoot workspace).names ++ l.segments := by
  have rooted := isAbsolute_workspaceRoot absolute workspace
  rw [sourcePath, named]
  refine ⟨_, rfl, ?_⟩
  split
  · next empty =>
      refine ⟨rooted, ?_⟩
      rw [← names_relativePath, empty]
      exact (List.append_nil _).symm
  · refine ⟨isAbsolute_join rooted _, ?_⟩
    rw [names_join _ (relativePath_head l), names_relativePath]

/-- The directory of a workspace that has a name of its own bears this name. -/
theorem names_workspaceRoot (other : workspace ≠ Label.builtinWorkspace)
    (clear : '/' ∉ workspace.toList) :
    (layout.workspaceRoot workspace).names =
      layout.workspacesRoot.names ++ namesAmong [workspace.toList] := by
  have relative : workspace.toList.head? ≠ some '/' :=
    fun slash => clear (List.mem_of_head? slash)
  have whole : ∀ c ∈ workspace.toList, decide (c = '/') = false :=
    fun c member => decide_eq_false fun same => clear (same ▸ member)
  rw [workspaceRoot, if_neg other, names_join _ relative]
  congr 1
  rw [names, chars, pieces_of_clear whole]

/-! ## Where a path leads -/

/-- The workspace that a path leads into, and the names behind the directory of the workspace. The
directory of the builtin workspace comes first, wherever it lies. -/
inductive Enters (layout : Layout) (p : FilePath) : String → List (List Char) → Prop
  | builtin {names : List (List Char)} :
      p.components = layout.builtinRoot.components ++ names.map .name →
      Enters layout p Label.builtinWorkspace names
  | named {workspace : String} {names : List (List Char)} :
      ¬ layout.builtinRoot.components <+: p.components →
      p.components =
        layout.workspacesRoot.components ++ (workspace.toList :: names).map .name →
      Enters layout p workspace names

/-- The workspace and what is left of the path behind its directory. -/
def locate? (layout : Layout) (p : FilePath) : Option (String × FilePath) :=
  match p.stripPrefix? layout.builtinRoot with
  | some relative => some (Label.builtinWorkspace, relative)
  | none =>
      ((p.stripPrefix? layout.workspacesRoot).bind uncons?).map fun parts =>
        (parts.1.text, parts.2)

/-- The label of what stands in a workspace. -/
def labelIn (workspace : String) (relative : FilePath) : Label :=
  Label.ofChars ('@' :: workspace.toList ++ ['/', '/'] ++
    if relative.text = "" then [] else ':' :: relative.chars)

theorem labelForPath_eq (layout : Layout) (p : FilePath) :
    layout.labelForPath p =
      match layout.locate? p with
      | some (workspace, relative) => Label.parse (labelIn workspace relative).text
      | none => .error (.notWorkspaceAbsolute p.text) := by
  have spelled (workspace : String) (relative : FilePath) :
      (if relative.text = "" then Label.parse ("@" ++ workspace ++ "//")
        else Label.parse ("@" ++ workspace ++ "//:" ++ relative.text)) =
        Label.parse (labelIn workspace relative).text := by
    split
    · next empty =>
        congr 1
        rw [labelIn, Label.ofChars, if_pos empty, ← String.toList_inj]
        simp
    · next text =>
        congr 1
        rw [labelIn, Label.ofChars, if_neg text, ← String.toList_inj]
        simp [chars]
  unfold labelForPath locate?
  cases p.stripPrefix? layout.builtinRoot with
  | some relative => exact spelled _ _
  | none =>
      cases (p.stripPrefix? layout.workspacesRoot).bind uncons? with
      | some parts => exact spelled _ _
      | none => rfl

section

variable {relative : FilePath} {names : List (List Char)}

/-- A workspace is named by one component, and what is left is spelled out by its names. -/
theorem enters_of_locate? (absolute : layout.Absolute)
    (found : layout.locate? p = some (workspace, relative)) :
    layout.Enters p workspace relative.names ∧ isSilent workspace.toList = false ∧
      '/' ∉ workspace.toList := by
  unfold locate? at found
  split at found
  · next rest stripped =>
      cases found
      rcases eq_append_of_stripPrefix? absolute.builtinRoot stripped with ⟨_, spelled⟩
      exact ⟨.builtin spelled, by decide, by decide⟩
  · next outside =>
      rcases Option.map_eq_some_iff.mp found with ⟨⟨first, rest⟩, parted, same⟩
      cases same
      rcases Option.bind_eq_some_iff.mp parted with ⟨below, stripped, parted⟩
      rcases eq_append_of_stripPrefix? absolute.workspacesRoot stripped with ⟨bare, spelled⟩
      rcases bare.eq_cons_of_uncons? parted with ⟨name, rfl, names⟩
      have itself : (Component.name name).text.toList = name := String.toList_ofList
      have member : name ∈ below.names := by
        rw [names]
        exact List.mem_cons_self
      refine ⟨.named (stripPrefix?_eq_none_iff.mp outside) ?_, ?_⟩
      · rw [itself, ← names]
        exact spelled
      · rw [itself]
        exact mem_names member

theorem exists_locate?_of_enters (absolute : layout.Absolute)
    (enters : layout.Enters p workspace names) :
    ∃ relative, layout.locate? p = some (workspace, relative) ∧ relative.names = names := by
  rw [locate?]
  cases enters with
  | builtin spelled =>
      cases stripped : p.stripPrefix? layout.builtinRoot with
      | none =>
          have begins : layout.builtinRoot.components <+: p.components := ⟨_, spelled.symm⟩
          exact absurd begins (stripPrefix?_eq_none_iff.mp stripped)
      | some relative =>
          refine ⟨relative, rfl, ?_⟩
          rcases eq_append_of_stripPrefix? absolute.builtinRoot stripped with ⟨_, again⟩
          rw [spelled, List.append_cancel_left_eq, map_name_inj] at again
          exact again.symm
  | named outside spelled =>
      rw [stripPrefix?_eq_none_iff.mpr outside]
      cases stripped : p.stripPrefix? layout.workspacesRoot with
      | none =>
          have begins : layout.workspacesRoot.components <+: p.components := ⟨_, spelled.symm⟩
          exact absurd begins (stripPrefix?_eq_none_iff.mp stripped)
      | some below =>
          rcases eq_append_of_stripPrefix? absolute.workspacesRoot stripped with ⟨bare, again⟩
          rw [spelled, List.append_cancel_left_eq, map_name_inj] at again
          cases parted : below.uncons? with
          | none =>
              rw [bare.uncons?_eq_none_iff.mp parted] at again
              cases again
          | some parts =>
              rcases bare.eq_cons_of_uncons? parted with ⟨name, first, names⟩
              rw [names, List.cons.injEq] at again
              have itself : parts.1.text = workspace := by
                rw [first, ← again.1]
                exact String.ofList_toList
              refine ⟨parts.2, ?_, again.2.symm⟩
              rw [Option.bind_some, parted, ← itself]
              rfl

theorem Enters.isAbsolute (enters : layout.Enters p workspace names) (absolute : layout.Absolute) :
    p.isAbsolute := by
  cases enters with
  | builtin spelled =>
      exact isAbsolute_of_prefix absolute.builtinRoot ⟨_, spelled.symm⟩
  | named _ spelled =>
      exact isAbsolute_of_prefix absolute.workspacesRoot ⟨_, spelled.symm⟩

/-- The path is the one with given names in the directory of its workspace exactly if it has these
names and has not come by a namesake of the builtin workspace. -/
theorem Enters.eq_components_iff (enters : layout.Enters p workspace names)
    (absolute : layout.Absolute) (spoken : isSilent workspace.toList = false)
    (clear : '/' ∉ workspace.toList) {q : FilePath} (rooted : q.isAbsolute)
    {segments : List (List Char)}
    (inside : q.names = (layout.workspaceRoot workspace).names ++ segments) :
    q.components = p.components ↔
      segments = names ∧
        (workspace = Label.builtinWorkspace →
          layout.builtinRoot.components <+: p.components) := by
  have alike := enters.isAbsolute absolute
  rw [FilePath.components_eq_iff rooted alike, inside]
  cases enters with
  | builtin spelled =>
      have begins : layout.builtinRoot.components <+: p.components := ⟨_, spelled.symm⟩
      rw [(components_eq_append_iff absolute.builtinRoot alike).mp spelled]
      exact (List.append_cancel_left_eq ..).to_iff.trans (and_iff_left fun _ => begins).symm
  | named outside spelled =>
      have whole := (components_eq_append_iff absolute.workspacesRoot alike).mp spelled
      by_cases namesake : workspace = Label.builtinWorkspace
      · refine iff_of_false (fun same => outside ?_) fun both => outside (both.2 namesake)
        rw [components_prefix_iff absolute.builtinRoot alike, ← same, workspaceRoot,
          if_pos namesake]
        exact List.prefix_append _ _
      · rw [whole, names_workspaceRoot namesake clear, namesAmong_cons spoken, List.append_assoc,
          List.append_cancel_left_eq]
        change workspace.toList :: segments = workspace.toList :: names ↔ _
        rw [List.cons.injEq, and_iff_right rfl]
        exact (and_iff_left fun same => absurd same namesake).symm

/-- Paths behind the same names in the same workspace are the same, unless only one of them is in
the directory of the builtin workspace. -/
theorem Enters.components_eq_iff {other : FilePath} (enters : layout.Enters p workspace names)
    (alike : layout.Enters other workspace names) :
    other.components = p.components ↔
      (layout.builtinRoot.components <+: other.components ↔
        layout.builtinRoot.components <+: p.components) := by
  constructor
  · intro same
    rw [same]
  · intro together
    cases enters with
    | builtin spelled =>
        have begins : layout.builtinRoot.components <+: p.components := ⟨_, spelled.symm⟩
        cases alike with
        | builtin again => rw [spelled, again]
        | named outside _ => exact absurd (together.mpr begins) outside
    | named outside spelled =>
        cases alike with
        | builtin again =>
            have begins : layout.builtinRoot.components <+: other.components := ⟨_, again.symm⟩
            exact absurd (together.mp begins) outside
        | named _ again => rw [spelled, again]

end

/-! ## The label of a path -/

section

variable {relative : FilePath}

theorem anatomy_labelIn (clear : '/' ∉ workspace.toList) (relative : FilePath) :
    Label.anatomy (labelIn workspace relative).chars =
      (.workspaceAbsolute, '@' :: workspace.toList ++ ['/', '/'],
        if relative.text = "" then [] else ':' :: relative.chars) := by
  rw [labelIn, Label.chars_ofChars]
  generalize (if relative.text = "" then [] else ':' :: relative.chars) = rest
  have cut := cutDoubleSlash?_append clear rest
  simp [Label.anatomy, cut]

theorem form_labelIn (clear : '/' ∉ workspace.toList) (relative : FilePath) :
    (labelIn workspace relative).form = .workspaceAbsolute := by
  rw [Label.form, anatomy_labelIn clear]

theorem root_labelIn (clear : '/' ∉ workspace.toList) (relative : FilePath) :
    (labelIn workspace relative).root = '@' :: workspace.toList ++ ['/', '/'] := by
  rw [Label.root, anatomy_labelIn clear]

theorem rest_labelIn (clear : '/' ∉ workspace.toList) (relative : FilePath) :
    (labelIn workspace relative).rest =
      if relative.text = "" then [] else ':' :: relative.chars := by
  rw [Label.rest, anatomy_labelIn clear]

theorem workspaceName?_labelIn (clear : '/' ∉ workspace.toList) (relative : FilePath) :
    (labelIn workspace relative).workspaceName? = some workspace := by
  rw [Label.workspaceName?, labelIn, Label.chars_ofChars]
  generalize (if relative.text = "" then [] else ':' :: relative.chars) = rest
  have cut := cutDoubleSlash?_append clear rest
  simp [cut]

/-- Cut at colons as well, a path falls into the same names exactly if none of them holds one. -/
theorem namesAmong_pieces_isSeparator_iff (p : FilePath) :
    namesAmong (pieces Label.isSeparator p.chars) = p.names ↔ ∀ name ∈ p.names, ':' ∉ name := by
  have colon : (':' : Char) ≠ '/' ∧ (':' : Char) ≠ '.' := by decide
  constructor
  · intro same name member inside
    rw [← same] at member
    have piece := (List.mem_filter.mp member).1
    exact absurd (not_mem_of_mem_pieces piece ':' inside) (by decide)
  · intro spared
    have absent : ':' ∉ p.chars := by
      rw [mem_chars_iff colon.1 colon.2]
      rintro ⟨name, member, inside⟩
      exact spared name member inside
    rw [names, pieces_congr]
    intro c member
    have other : c ≠ ':' := fun same => absent (same ▸ member)
    simp [Label.isSeparator, other]

/-- The label names the same segments as the path, exactly if no name of the path holds a colon. -/
theorem segments_labelIn_iff (clear : '/' ∉ workspace.toList) (relative : FilePath) :
    (labelIn workspace relative).segments = relative.names ↔
      ∀ name ∈ relative.names, ':' ∉ name := by
  have segments : (labelIn workspace relative).segments =
      namesAmong (pieces Label.isSeparator relative.chars) := by
    rw [Label.segments, rest_labelIn clear]
    split
    · next empty =>
        rw [chars, empty]
        rfl
    · rw [pieces, if_pos (show Label.isSeparator ':' = true from rfl)]
      rfl
  rw [segments, namesAmong_pieces_isSeparator_iff]

/-- A label tells the workspace and the rest of the path. -/
theorem labelIn_inj {other : String} {rest : FilePath} (clear : '/' ∉ workspace.toList)
    (alike : '/' ∉ other.toList) (same : labelIn workspace relative = labelIn other rest) :
    workspace = other ∧ relative = rest := by
  have workspaces := congrArg Label.workspaceName? same
  rw [workspaceName?_labelIn clear, workspaceName?_labelIn alike, Option.some.injEq] at workspaces
  have targets := congrArg Label.rest same
  rw [rest_labelIn clear, rest_labelIn alike] at targets
  refine ⟨workspaces, ?_⟩
  obtain ⟨text⟩ := relative
  obtain ⟨otherText⟩ := rest
  split at targets
  · next empty =>
      split at targets
      · next alsoEmpty => exact congrArg FilePath.mk (empty.trans alsoEmpty.symm)
      · cases targets
  · split at targets
    · cases targets
    · exact congrArg FilePath.mk (String.toList_inj.mp (List.cons.inj targets).2)

end

theorem labelForPath_eq_ok_iff :
    layout.labelForPath p = .ok l ↔
      ∃ workspace relative, layout.locate? p = some (workspace, relative) ∧
        (labelIn workspace relative).WellFormed ∧ l = labelIn workspace relative := by
  rw [labelForPath_eq]
  cases layout.locate? p with
  | none => exact iff_of_false nofun nofun
  | some parts =>
      dsimp only
      rw [Label.parse_eq_ok_iff]
      constructor
      · rintro ⟨sound, same⟩
        have itself : l = labelIn parts.1 parts.2 := by
          cases l
          exact congrArg Label.mk same
        exact ⟨parts.1, parts.2, rfl, itself ▸ sound, itself⟩
      · rintro ⟨workspace, relative, found, sound, rfl⟩
        cases found
        exact ⟨sound, rfl⟩

/-- What can be said in a label: a workspace without a colon and names without blanks. -/
structure Sayable (workspace : String) (names : List (List Char)) : Prop where
  colonless : ':' ∉ workspace.toList
  workspace : Label.Clean workspace.toList
  names : ∀ name ∈ names, Label.Clean name

theorem clean_chars_iff (p : FilePath) :
    Label.Clean p.chars ↔ ∀ name ∈ p.names, Label.Clean name := by
  have spared (c : Char) (unclean : (isBlank c || isControl c) = true) : c ≠ '/' ∧ c ≠ '.' := by
    constructor
    · rintro rfl
      exact absurd unclean (by decide)
    · rintro rfl
      exact absurd unclean (by decide)
  constructor
  · intro clean name member c inside
    by_contra unclean
    rcases spared c (Bool.not_eq_false _ ▸ unclean) with ⟨slash, dot⟩
    exact unclean (clean c ((mem_chars_iff slash dot).mpr ⟨name, member, inside⟩))
  · intro each c inside
    by_contra unclean
    rcases spared c (Bool.not_eq_false _ ▸ unclean) with ⟨slash, dot⟩
    rcases (mem_chars_iff slash dot).mp inside with ⟨name, member, within⟩
    exact unclean (each name member c within)

theorem rooted_labelIn_iff (spoken : isSilent workspace.toList = false)
    (clear : '/' ∉ workspace.toList) (relative : FilePath) :
    (labelIn workspace relative).Rooted ↔ ':' ∉ workspace.toList := by
  have some_name : workspace.toList ≠ [] := by
    intro empty
    rw [empty] at spoken
    cases spoken
  rw [Label.rooted_iff, form_labelIn clear, root_labelIn clear, Label.IsRoot.absolute_iff,
    Label.forall_isSeparator_eq_false_iff]
  exact ⟨fun both => both.1.2.2, fun colonless => ⟨⟨some_name, clear, colonless⟩, trivial⟩⟩

theorem clean_labelIn_iff (clear : '/' ∉ workspace.toList) (relative : FilePath) :
    Label.Clean (labelIn workspace relative).chars ↔
      Label.Clean workspace.toList ∧ ∀ name ∈ relative.names, Label.Clean name := by
  have slashes : Label.Clean ['/', '/'] :=
    List.forall_mem_cons.mpr ⟨by decide, List.forall_mem_singleton.mpr (by decide)⟩
  rw [← Label.root_append_rest, root_labelIn clear, rest_labelIn clear, Label.clean_append_iff,
    Label.clean_append_iff, Label.clean_cons_iff (by decide), and_iff_left slashes,
    ← clean_chars_iff, and_congr_right_iff]
  intro _
  split
  · next empty =>
      rw [chars, empty]
      rfl
  · exact Label.clean_cons_iff (by decide)

theorem wellFormed_labelIn_iff (spoken : isSilent workspace.toList = false)
    (clear : '/' ∉ workspace.toList) (relative : FilePath) :
    (labelIn workspace relative).WellFormed ↔ Sayable workspace relative.names := by
  rw [Label.wellFormed_iff, clean_labelIn_iff clear, rooted_labelIn_iff spoken clear]
  constructor
  · rintro ⟨_, ⟨workspace, names⟩, colonless⟩
    exact ⟨colonless, workspace, names⟩
  · rintro ⟨colonless, workspace, names⟩
    refine ⟨?_, ⟨workspace, names⟩, colonless⟩
    rw [← Label.root_append_rest, root_labelIn clear]
    exact nofun

/-- A path has a label if it leads into a workspace and all of it can be said. -/
theorem exists_labelForPath_iff (absolute : layout.Absolute) :
    (∃ l, layout.labelForPath p = .ok l) ↔
      ∃ workspace names, layout.Enters p workspace names ∧ Sayable workspace names := by
  simp only [labelForPath_eq_ok_iff]
  constructor
  · rintro ⟨l, workspace, relative, found, sound, _⟩
    rcases enters_of_locate? absolute found with ⟨enters, spoken, clear⟩
    exact ⟨workspace, relative.names, enters, (wellFormed_labelIn_iff spoken clear _).mp sound⟩
  · rintro ⟨workspace, names, enters, sayable⟩
    rcases exists_locate?_of_enters absolute enters with ⟨relative, found, rfl⟩
    rcases enters_of_locate? absolute found with ⟨_, spoken, clear⟩
    exact ⟨_, workspace, relative, found,
      (wellFormed_labelIn_iff spoken clear _).mpr sayable, rfl⟩

theorem labelForPath_of_not_enters (absolute : layout.Absolute)
    (outside : ∀ workspace names, ¬ layout.Enters p workspace names) :
    layout.labelForPath p = .error (.notWorkspaceAbsolute p.text) := by
  rw [labelForPath_eq]
  cases found : layout.locate? p with
  | none => rfl
  | some parts => exact absurd (enters_of_locate? absolute found).1 (outside _ _)

/-- A path has its label from the workspace that it leads into. The source file of the label is the
path again exactly if no name behind the workspace's directory holds a colon and the workspace is not
just a namesake of the builtin one. Two paths have the same label only if they are the same or one of
them is in the directory of the builtin workspace and the other one in that of a namesake. -/
theorem sourcePath_of_labelForPath (absolute : layout.Absolute)
    (labelled : layout.labelForPath p = .ok l) :
    (∃ workspace names, layout.Enters p workspace names) ∧
    (∃ q, layout.sourcePath l = .ok q ∧
      ∀ workspace names, layout.Enters p workspace names →
        l.workspaceName? = some workspace ∧
        (q.components = p.components ↔
          (∀ name ∈ names, ':' ∉ name) ∧
          (workspace = Label.builtinWorkspace →
            layout.builtinRoot.components <+: p.components))) ∧
    ∀ other, layout.labelForPath other = .ok l →
      (other.components = p.components ↔
        (layout.builtinRoot.components <+: other.components ↔
          layout.builtinRoot.components <+: p.components)) := by
  rcases labelForPath_eq_ok_iff.mp labelled with ⟨workspace, relative, found, _, rfl⟩
  rcases enters_of_locate? absolute found with ⟨enters, spoken, clear⟩
  have named := workspaceName?_labelIn clear relative
  rcases sourcePath_eq absolute named with ⟨q, leads, rooted, inside⟩
  refine ⟨⟨workspace, relative.names, enters⟩, ⟨q, leads, ?_⟩, ?_⟩
  · intro entered names alike
    rcases exists_locate?_of_enters absolute alike with ⟨rest, again, rfl⟩
    cases found.symm.trans again
    refine ⟨named, ?_⟩
    rw [alike.eq_components_iff absolute spoken clear rooted inside, segments_labelIn_iff clear]
  · intro other alsoLabelled
    rcases labelForPath_eq_ok_iff.mp alsoLabelled with ⟨_, rest, alsoFound, _, same⟩
    rcases enters_of_locate? absolute alsoFound with ⟨alike, _, alsoClear⟩
    rcases labelIn_inj clear alsoClear same with ⟨rfl, rfl⟩
    exact enters.components_eq_iff alike

/-- A file in a directory whose slashes and dots do not count. -/
theorem sourcePath_of_labelForPath_copy :
    let p : FilePath := ⟨"/workspaces/./ws//rules/.//copy.rs/"⟩
    let l : Label := ⟨"@ws//:rules/.//copy.rs"⟩
    standard.Absolute ∧ standard.labelForPath p = .ok l ∧
    (∃ q, standard.sourcePath l = .ok q ∧ q.components = p.components) ∧
    ∀ other, standard.labelForPath other = .ok l →
      (other.components = p.components ↔
        (standard.builtinRoot.components <+: other.components ↔
          standard.builtinRoot.components <+: p.components)) := by
  intro p l
  have absolute : standard.Absolute := ⟨by decide, by decide⟩
  have labelled : standard.labelForPath p = .ok l := by decide +kernel
  rcases sourcePath_of_labelForPath absolute labelled with ⟨_, ⟨q, leads, each⟩, apart⟩
  have enters : standard.Enters p "ws" ["rules".toList, "copy.rs".toList] :=
    .named (by decide +kernel) (by decide +kernel)
  have same := (each _ _ enters).2.mpr ⟨by decide, fun builtin => absurd builtin (by decide)⟩
  exact ⟨absolute, labelled, ⟨q, leads, same⟩, apart⟩

/-- A colon in the name of a file leads astray, and so does a namesake of the builtin workspace. -/
theorem sourcePath_of_labelForPath_astray :
    (¬ ∀ (layout : Layout) (p : FilePath) (l : Label), layout.Absolute →
      layout.labelForPath p = .ok l →
        ∃ q, layout.sourcePath l = .ok q ∧ q.components = p.components) ∧
    ¬ ∀ (layout : Layout) (p other : FilePath) (l : Label), layout.Absolute →
      layout.labelForPath p = .ok l → layout.labelForPath other = .ok l →
        other.components = p.components := by
  have absolute : standard.Absolute := ⟨by decide, by decide⟩
  constructor
  · intro returns
    have labelled : standard.labelForPath ⟨"/workspaces/ws/a:b"⟩ = .ok ⟨"@ws//:a:b"⟩ := by
      decide +kernel
    have leads : standard.sourcePath ⟨"@ws//:a:b"⟩ = .ok ⟨"/workspaces/ws/a/b"⟩ := by
      decide +kernel
    rcases returns _ _ _ absolute labelled with ⟨q, found, same⟩
    cases leads.symm.trans found
    exact absurd same (by decide +kernel)
  · intro apart
    have installed : standard.labelForPath ⟨"/opt/trellis/builtin/exec.rs"⟩ =
        .ok ⟨"@trellis.builtin//:exec.rs"⟩ := by decide +kernel
    have namesake : standard.labelForPath ⟨"/workspaces/trellis.builtin/exec.rs"⟩ =
        .ok ⟨"@trellis.builtin//:exec.rs"⟩ := by decide +kernel
    exact absurd (apart _ _ _ _ absolute installed namesake) (by decide +kernel)

end Layout
end RuleAnalysis
