import RuleAnalysis.Proofs.Label.Join
import RuleAnalysis.Proofs.Workspace.Addresses

namespace RuleAnalysis

/-!
# The source files of labels

The source file of a label lies in the directory of its workspace. Behind the
directory stand the segments of the label, and nothing in a label can put
another directory in its place.

A label that lies below another is led to by a relative label, which is what
is left of its path. That is read as a label again, with all that this
implies: an at sign in front is taken for the beginning of a workspace.
-/

open Text FilePath

/-! ## Workspaces in the text of a label -/

namespace Text

/-- No double slash ends before the given one. -/
theorem cutDoubleSlash?_first {before : List Char} (first : ¬ ['/', '/'] <:+: before ++ ['/'])
    (after : List Char) :
    cutDoubleSlash? (before ++ '/' :: '/' :: after) = some (before, after) := by
  induction before with
  | nil => rfl
  | cons c before ih =>
      have later : ¬ ['/', '/'] <:+: before ++ ['/'] :=
        fun inside => first (inside.trans (List.suffix_cons c _).isInfix)
      have apart : ¬ (c = '/' ∧ (before ++ '/' :: '/' :: after).head? = some '/') := by
        rintro ⟨rfl, slash⟩
        apply first
        cases before with
        | nil => exact List.infix_rfl
        | cons d before =>
            cases slash
            exact ⟨[], before ++ ['/'], rfl⟩
      rw [List.cons_append, cutDoubleSlash?, if_neg (by simpa using apart), ih later]
      rfl

theorem mem_of_mem_pieces {p : Char → Bool} {cs piece : List Char} (member : piece ∈ pieces p cs)
    {c : Char} (inside : c ∈ piece) : c ∈ cs := by
  have among : c ∈ (pieces p cs).flatten := List.mem_flatten_of_mem member inside
  rw [flatten_pieces] at among
  exact List.mem_of_mem_filter among

end Text

namespace Label

/-- The label consists of a workspace's name between an at sign and the first double slash, and of
what stands behind. -/
def Reads (l : Label) (name rest : List Char) : Prop :=
  l.chars = '@' :: name ++ ['/', '/'] ++ rest ∧ ¬ ['/', '/'] <:+: '@' :: name ++ ['/']

variable {l : Label} {name rest : List Char}

theorem Reads.anatomy_eq (reads : l.Reads name rest) :
    anatomy l.chars = (.workspaceAbsolute, '@' :: name ++ ['/', '/'], rest) := by
  rcases reads with ⟨spelled, first⟩
  have early : ¬ ['/', '/'] <:+: name ++ ['/'] :=
    fun inside => first (inside.trans (List.suffix_cons '@' _).isInfix)
  have cut := cutDoubleSlash?_first early rest
  simp [spelled, anatomy, cut]

theorem Reads.form_eq (reads : l.Reads name rest) : l.form = .workspaceAbsolute := by
  rw [form, reads.anatomy_eq]

theorem Reads.rest_eq (reads : l.Reads name rest) : l.rest = rest := by
  rw [Label.rest, reads.anatomy_eq]

theorem Reads.root_eq (reads : l.Reads name rest) : l.root = '@' :: name ++ ['/', '/'] := by
  rw [root, reads.anatomy_eq]

/-- Every workspace-absolute label that is well formed reads in this way. -/
theorem WellFormed.exists_reads (sound : l.WellFormed) (absolute : l.form = .workspaceAbsolute) :
    ∃ name rest, l.Reads name rest := by
  have isRoot := sound.rooted.isRoot
  rw [absolute] at isRoot
  generalize spelled : l.root = r at isRoot
  cases isRoot with
  | @workspaceAbsolute name _ clear =>
      refine ⟨name, l.rest, ?_, ?_⟩
      · rw [← spelled, root_append_rest]
      · -- The only slash in front of the root's last one is the one before it.
        rintro ⟨before, after, same⟩
        have slash : '/' ∉ '@' :: name := by
          rw [List.mem_cons, not_or]
          exact ⟨by decide, (forall_isSeparator_eq_false_iff.mp clear).1⟩
        rcases List.eq_nil_or_concat after with rfl | ⟨front, c, rfl⟩
        · rw [List.append_nil] at same
          have two : before ++ ['/'] ++ ['/'] = ('@' :: name) ++ ['/'] := by simpa using same
          apply slash
          rw [← List.append_cancel_right two]
          exact List.mem_append_right before List.mem_cons_self
        · have longer : before ++ ['/', '/'] ++ front ++ [c] = ('@' :: name) ++ ['/'] := by
            simpa using same
          apply slash
          rw [← (List.append_inj' longer rfl).1]
          simp

end Label

/-! ## Where the source file lies -/

namespace Layout

variable {layout : Layout} {l : Label}

theorem sourcePath_of_relative (sound : l.WellFormed) (relative : l.form ≠ .workspaceAbsolute) :
    layout.sourcePath l = .error (.notWorkspaceAbsolute l.text) := by
  rw [sourcePath, sound.workspaceName?_eq_none relative]

/-- The directory of a workspace bears the name of the workspace, but for the builtin one. -/
theorem components_workspaceRoot (absolute : layout.Absolute) {workspace : String}
    (clear : '/' ∉ workspace.toList) :
    (layout.workspaceRoot workspace).components =
      if workspace = Label.builtinWorkspace then layout.builtinRoot.components
      else layout.workspacesRoot.components ++ (namesAmong [workspace.toList]).map .name := by
  split
  · next builtin => rw [workspaceRoot, if_pos builtin]
  · next other =>
      have home := isAbsolute_workspaceRoot absolute workspace
      rw [components_eq_append_iff absolute.workspacesRoot home, names_workspaceRoot other clear]

/-- The source file of a workspace-absolute label, component by component. -/
theorem exists_sourcePath (absolute : layout.Absolute) (sound : l.WellFormed)
    (absoluteLabel : l.form = .workspaceAbsolute) :
    ∃ workspace q, l.workspaceName? = some workspace ∧ layout.sourcePath l = .ok q ∧
      q.isAbsolute ∧ q.components =
        (layout.workspaceRoot workspace).components ++ l.segments.map .name := by
  have named := sound.rooted.workspaceName?_isSome_iff.mpr absoluteLabel
  rcases Option.isSome_iff_exists.mp named with ⟨workspace, named⟩
  rcases sourcePath_eq absolute named with ⟨q, leads, rooted, behind⟩
  have home := isAbsolute_workspaceRoot absolute workspace
  exact ⟨workspace, q, named, leads, rooted, (components_eq_append_iff home rooted).mpr behind⟩

/-- Only a workspace-absolute label has a source file. It lies in the directory of the workspace that
the label names, and its path goes on with the pieces of the label between slashes and colons. What
is joined to the directories is relative, whatever the label. -/
theorem sourcePath_components (absolute : layout.Absolute) (sound : l.WellFormed) :
    ((∃ e, layout.sourcePath l = .error e) ↔ l.form ≠ .workspaceAbsolute) ∧
    (l.form ≠ .workspaceAbsolute →
      layout.sourcePath l = .error (.notWorkspaceAbsolute l.text)) ∧
    (l.form = .workspaceAbsolute ↔ ∃ name rest, l.Reads name rest) ∧
    ∀ name rest, l.Reads name rest →
      let root := if String.ofList name = Label.builtinWorkspace then layout.builtinRoot.components
        else layout.workspacesRoot.components ++ (namesAmong [name]).map .name
      (∃ q, layout.sourcePath l = .ok q ∧
        q.components =
          root ++ (namesAmong (pieces Label.isSeparator rest)).map .name) ∧
      ¬ (FilePath.mk (String.ofList name)).isAbsolute ∧
      ¬ (FilePath.mk (relativePath l)).isAbsolute := by
  refine ⟨⟨?_, ?_⟩, sourcePath_of_relative sound, ⟨sound.exists_reads, ?_⟩, ?_⟩
  · rintro ⟨e, failed⟩ absoluteLabel
    rcases exists_sourcePath absolute sound absoluteLabel with ⟨_, q, _, leads, _⟩
    cases failed.symm.trans leads
  · exact fun relative => ⟨_, sourcePath_of_relative sound relative⟩
  · rintro ⟨name, rest, reads⟩
    exact reads.form_eq
  · intro name rest reads root
    rcases exists_sourcePath absolute sound reads.form_eq with
      ⟨workspace, q, named, leads, _, inside⟩
    -- The label's root spells out the workspace that its name is read as.
    have spelled : workspace.toList = name := by
      have roots := (sound.rooted.root_of_workspaceName? named).symm.trans reads.root_eq
      exact (List.cons.inj (List.append_cancel_right roots)).2
    have same : String.ofList name = workspace := by
      rw [← spelled, String.ofList_toList]
    have clear : '/' ∉ workspace.toList := (sound.rooted.clear_workspaceName named).1
    refine ⟨⟨q, leads, ?_⟩, ?_, ?_⟩
    · rw [inside, components_workspaceRoot absolute clear, spelled, Label.segments, reads.rest_eq,
        ← same]
    · rw [isAbsolute_iff, same]
      exact fun slash => clear (List.mem_of_head? slash)
    · rw [isAbsolute_iff]
      exact relativePath_head l

/-- Separators at the beginning, in the middle and at the end do not count, and neither do dots. -/
theorem sourcePath_components_slashes :
    let l : Label := ⟨"@ws//:/lib//.:a.rs/"⟩
    standard.Absolute ∧ l.WellFormed ∧ l.Reads ['w', 's'] ":/lib//.:a.rs/".toList ∧
    ∃ q, standard.sourcePath l = .ok q ∧
      q.components = (FilePath.mk "/workspaces/ws/lib/a.rs").components := by
  intro l
  have absolute : standard.Absolute := ⟨by decide, by decide⟩
  have sound : l.WellFormed := by decide +kernel
  have reads : l.Reads ['w', 's'] ":/lib//.:a.rs/".toList := ⟨by decide, by decide +kernel⟩
  rcases (sourcePath_components absolute sound).2.2.2 _ _ reads with ⟨⟨q, leads, spelled⟩, _, _⟩
  refine ⟨absolute, sound, reads, q, leads, ?_⟩
  rw [spelled]
  decide +kernel

end Layout

/-! ## What is left of a path, as a text -/

namespace FilePath

/-- A path of names alone begins as its first name does. -/
theorem Bare.head?_chars {p : FilePath} (bare : p.Bare) : p.chars.head? = p.names.flatten.head? := by
  have unanchored : p.anchor = none := by
    have same := p.components_eq.symm.trans bare
    rw [List.append_left_eq_self, Option.toList_eq_nil_iff] at same
    exact same
  rw [names]
  rw [anchor] at unanchored
  generalize p.chars = cs at unanchored
  cases cs with
  | nil => rfl
  | cons c cs =>
      have clear : c ≠ '/' := by
        rintro rfl
        cases unanchored
      rw [pieces, if_neg (by simpa using clear)]
      cases found : pieces (· = '/') cs with
      | nil => exact absurd found (pieces_ne_nil _ cs)
      | cons piece rest =>
          have named : isSilent (c :: piece) = false := by
            -- A dot that is a piece of its own would be what the path begins with.
            by_contra silent
            have dot : c = '.' ∧ piece = [] := by simpa [isSilent] using silent
            rcases dot with ⟨rfl, rfl⟩
            cases cs with
            | nil => cases unanchored
            | cons d cs =>
                have slash : d = '/' := by
                  by_contra other
                  rw [pieces, if_neg (by simpa using other)] at found
                  cases later : pieces (· = '/') cs with
                  | nil => exact absurd later (pieces_ne_nil _ cs)
                  | cons _ _ =>
                      rw [later] at found
                      cases found
                subst slash
                cases unanchored
          change _ = (namesAmong ((c :: piece) :: rest)).flatten.head?
          rw [namesAmong_cons named]
          rfl

theorem Bare.head?_chars_ne {p : FilePath} (bare : p.Bare) : p.chars.head? ≠ some '/' := by
  intro slash
  have rooted := components_of_isAbsolute (isAbsolute_iff.mpr slash)
  rw [bare] at rooted
  cases spelled : p.names with
  | nil =>
      rw [spelled] at rooted
      cases rooted
  | cons name rest =>
      rw [spelled] at rooted
      cases rooted

/-- Separators at the end of a text are passed over. -/
theorem namesAmong_pieces_dropTrailing {p : Char → Bool} (slash : p '/' = true) (cs : List Char) :
    namesAmong (pieces p (dropTrailing (· = '/') cs)) = namesAmong (pieces p cs) :=
  filter_pieces_dropTrailing slash rfl cs

end FilePath

/-! ## Joining a relative label -/

namespace Label

variable {a b : Label}

/-- Whatever separator is put between them, the segments of a package and of a relative label stay
apart. -/
theorem namesAmong_pieces_closed (root rest cs : List Char) :
    namesAmong (pieces isSeparator (closed root rest cs ++ cs)) =
      namesAmong (pieces isSeparator rest) ++ namesAmong (pieces isSeparator cs) := by
  have slash : isSeparator '/' = true := rfl
  have colon : isSeparator ':' = true := rfl
  rw [closed]
  split
  · next begins =>
      rcases List.head?_eq_some_iff.mp begins with ⟨tail, rfl⟩
      rw [pieces_append colon, namesAmong_append, namesAmong_pieces_dropTrailing slash, pieces,
        if_pos colon]
      rfl
  · split
    · next ends =>
        rcases List.eq_nil_or_concat rest with rfl | ⟨front, c, rfl⟩
        · rfl
        · have separator : isSeparator c = true := by simpa using ends
          rw [List.concat_eq_append, List.append_assoc, List.singleton_append,
            pieces_append separator, pieces_append separator, namesAmong_append, namesAmong_append]
          change _ = _ ++ [] ++ _
          rw [List.append_nil]
    · rw [List.append_assoc, List.singleton_append, pieces_append slash, namesAmong_append]

theorem segments_join (sound : a.WellFormed) (other : b.WellFormed)
    (relative : b.form = .packageRelative) : (a.join b).segments = a.segments ++ b.segments := by
  have own := other.rooted.rest_of_packageRelative relative
  rw [segments, (sound.join_packageRelative_parts relative).2, namesAmong_pieces_closed, segments,
    segments, own]

/-- A text that does not begin with a slash is a package-relative label exactly if it is not empty,
does not begin with an at sign and holds no blank. -/
theorem parse_packageRelative_iff {cs : List Char} (unslashed : cs.head? ≠ some '/') :
    (∃ r, parse (String.ofList cs) = .ok r ∧ r.form = .packageRelative) ↔
      cs ≠ [] ∧ Clean cs ∧ cs.head? ≠ some '@' := by
  have whole : (ofChars cs).chars = cs := chars_ofChars cs
  constructor
  · rintro ⟨r, parsed, relative⟩
    rcases parse_eq_ok_iff.mp parsed with ⟨sound, text⟩
    have same : r.chars = cs := by rw [chars, text, String.toList_ofList]
    have begins := sound.rooted.begins
    rw [relative, sound.rooted.rest_of_packageRelative relative, same] at begins
    exact ⟨same ▸ sound.chars_ne_nil, same ▸ sound.clean, begins.1⟩
  · rintro ⟨some_text, clean, plain⟩
    have begins : Begins .packageRelative cs := ⟨plain, unslashed⟩
    have rooted : (ofChars cs).Rooted := IsRoot.packageRelative.rooted_append begins
    have form : (ofChars cs).form = .packageRelative := IsRoot.packageRelative.form_append begins
    refine ⟨ofChars cs, parse_eq_ok_iff.mpr ⟨wellFormed_iff.mpr ?_, rfl⟩, form⟩
    rw [whole]
    exact ⟨some_text, clean, rooted⟩

end Label

/-! ## The label that leads down to another -/

namespace Layout

variable {layout : Layout} {l a : Label}

/-- The names of both roots could stand in labels. -/
def Plain (layout : Layout) : Prop :=
  ∀ name ∈ layout.workspacesRoot.names ++ layout.builtinRoot.names,
    Label.Clean name ∧ ':' ∉ name

theorem Plain.workspaceRoot (plain : layout.Plain) {workspace : String}
    (clean : Label.Clean workspace.toList)
    (clear : '/' ∉ workspace.toList ∧ ':' ∉ workspace.toList) :
    ∀ name ∈ (layout.workspaceRoot workspace).names, Label.Clean name ∧ ':' ∉ name := by
  intro name member
  by_cases builtin : workspace = Label.builtinWorkspace
  · rw [Layout.workspaceRoot, if_pos builtin] at member
    exact plain name (List.mem_append_right _ member)
  · rw [names_workspaceRoot builtin clear.1] at member
    rcases List.mem_append.mp member with above | own
    · exact plain name (List.mem_append_left _ above)
    · rw [List.mem_singleton.mp (List.mem_filter.mp own).1]
      exact ⟨clean, clear.2⟩

/-- Nothing stands in the path of a source file that could not stand in a label, unless it comes from
the roots. -/
theorem Plain.names_sourcePath (plain : layout.Plain) (absolute : layout.Absolute)
    (sound : l.WellFormed) {q : FilePath} (leads : layout.sourcePath l = .ok q) :
    ∀ name ∈ q.names, Label.Clean name ∧ ':' ∉ name := by
  have absoluteLabel : l.form = .workspaceAbsolute := by
    by_contra relative
    cases (sourcePath_of_relative sound relative).symm.trans leads
  rcases exists_sourcePath absolute sound absoluteLabel with
    ⟨workspace, _, named, again, rooted, inside⟩
  cases again.symm.trans leads
  have home := isAbsolute_workspaceRoot absolute workspace
  have whole := sound.clean
  rw [← Label.root_append_rest, sound.rooted.root_of_workspaceName? named,
    Label.clean_append_iff, Label.clean_append_iff, Label.clean_cons_iff (by decide)] at whole
  rw [(components_eq_append_iff home rooted).mp inside]
  intro name member
  rcases List.mem_append.mp member with above | behind
  · exact plain.workspaceRoot whole.1.1 (sound.rooted.clear_workspaceName named) name above
  · have piece := (List.mem_filter.mp behind).1
    refine ⟨fun c within => whole.2 c (mem_of_mem_pieces piece within), fun colon => ?_⟩
    exact absurd (not_mem_of_mem_pieces piece ':' colon) (by decide)

/-- The label that leads down is what is left of the path, read as a label. -/
theorem exists_relativeLabel {own base : FilePath}
    (leads : layout.sourcePath l = .ok own) (based : layout.sourcePath a = .ok base)
    (rooted : base.isAbsolute) {names : List (List Char)}
    (below : own.components = base.components ++ names.map .name) :
    ∃ rest : FilePath, layout.relativeLabel l a = Label.parse rest.text ∧ rest.names = names ∧
      rest.chars.head? = names.flatten.head? ∧ rest.chars.head? ≠ some '/' := by
  cases stripped : own.stripPrefix? base with
  | none =>
      have begins : base.components <+: own.components := ⟨_, below.symm⟩
      exact absurd begins (stripPrefix?_eq_none_iff.mp stripped)
  | some rest =>
      rcases eq_append_of_stripPrefix? rooted stripped with ⟨bare, again⟩
      rw [below, List.append_cancel_left_eq, map_name_inj] at again
      refine ⟨rest, ?_, again.symm, ?_, bare.head?_chars_ne⟩
      · simp only [relativeLabel, leads, based, stripped, bind, Except.bind]
      · rw [bare.head?_chars, again]

/-- Joining a relative label leads on from the source file by the segments of the label. -/
theorem exists_sourcePath_join (absolute : layout.Absolute) (sound : a.WellFormed)
    {base : FilePath} (based : layout.sourcePath a = .ok base) {r : Label} (other : r.WellFormed)
    (relative : r.form = .packageRelative) :
    ∃ q, layout.sourcePath (a.join r) = .ok q ∧
      q.components = base.components ++ r.segments.map .name := by
  have absoluteLabel : a.form = .workspaceAbsolute := by
    by_contra unrooted
    cases (sourcePath_of_relative sound unrooted).symm.trans based
  have joined := sound.form_join_packageRelative relative
  rcases exists_sourcePath absolute sound absoluteLabel with ⟨workspace, _, named, leads, _, inside⟩
  rcases exists_sourcePath absolute (sound.join other) (joined.1.trans absoluteLabel) with
    ⟨again, q, namedAgain, leadsTo, _, within⟩
  cases leads.symm.trans based
  cases (joined.2.symm.trans namedAgain).symm.trans named
  refine ⟨q, leadsTo, ?_⟩
  rw [within, inside, Label.segments_join sound other relative, List.map_append, List.append_assoc]

/-- A label and one above it in the file system, and the way down between them. The relative label
leads from the one to the file of the other exactly if the way does not begin with an at sign and all
names on it could stand in a label, which they do unless a root brings others. A way that begins with
an at sign is refused or taken for a label that leads elsewhere by itself. Where there is no way down
the answer is that the one label is not below the other. -/
theorem relativeLabel_rejoins (absolute : layout.Absolute) (sound : l.WellFormed)
    (absoluteLabel : l.form = .workspaceAbsolute) (other : a.WellFormed)
    (absoluteAncestor : a.form = .workspaceAbsolute) :
    ∃ own base, layout.sourcePath l = .ok own ∧ layout.sourcePath a = .ok base ∧
      (¬ base.components <+: own.components →
        layout.relativeLabel l a = .error (.notDescendant l.text a.text)) ∧
      ∀ names, names ≠ [] → own.components = base.components ++ names.map .name →
        ((∃ r q, layout.relativeLabel l a = .ok r ∧ r.form = .packageRelative ∧
            layout.sourcePath (a.join r) = .ok q ∧ q.components = own.components) ↔
          names.flatten.head? ≠ some '@' ∧ ∀ name ∈ names, Label.Clean name ∧ ':' ∉ name) ∧
        (layout.Plain → ∀ name ∈ names, Label.Clean name ∧ ':' ∉ name) ∧
        (names.flatten.head? = some '@' → ∀ r, layout.relativeLabel l a = .ok r →
          r.form = .workspaceAbsolute ∧ a.join r = r) := by
  rcases exists_sourcePath absolute sound absoluteLabel with ⟨_, own, _, leads, rooted, _⟩
  rcases exists_sourcePath absolute other absoluteAncestor with ⟨_, base, _, based, alike, _⟩
  refine ⟨own, base, leads, based, ?_, ?_⟩
  · intro apart
    simp only [relativeLabel, leads, based, stripPrefix?_eq_none_iff.mpr apart, bind, Except.bind]
  · intro names some_name below
    rcases exists_relativeLabel leads based alike below with
      ⟨rest, found, spelled, begins, unslashed⟩
    have behind := (components_eq_append_iff alike rooted).mp below
    have some_text : rest.chars ≠ [] := by
      intro empty
      rw [FilePath.names, empty] at spelled
      exact some_name spelled.symm
    have text : String.ofList rest.chars = rest.text := String.ofList_toList
    have reading := Label.parse_packageRelative_iff unslashed
    rw [text, clean_chars_iff, spelled, begins, ← found] at reading
    -- Behind the package the relative label has the names of the way, if these hold no colon.
    have rejoined (r : Label) (answered : layout.relativeLabel l a = .ok r)
        (relative : r.form = .packageRelative) :
        ∃ q, layout.sourcePath (a.join r) = .ok q ∧
          (q.components = own.components ↔ ∀ name ∈ names, ':' ∉ name) := by
      rcases Label.parse_eq_ok_iff.mp (found.symm.trans answered) with ⟨soundLabel, spelledLabel⟩
      rcases exists_sourcePath_join absolute other based soundLabel relative with
        ⟨q, leadsTo, within⟩
      have segments : r.segments = namesAmong (pieces Label.isSeparator rest.chars) := by
        rw [Label.segments, soundLabel.rooted.rest_of_packageRelative relative, Label.chars,
          spelledLabel]
        rfl
      refine ⟨q, leadsTo, ?_⟩
      rw [within, below, List.append_cancel_left_eq, map_name_inj, segments, ← spelled]
      exact namesAmong_pieces_isSeparator_iff rest
    refine ⟨⟨?_, ?_⟩, ?_, ?_⟩
    · rintro ⟨r, q, answered, relative, leadsTo, same⟩
      rcases reading.mp ⟨r, answered, relative⟩ with ⟨_, clean, plain⟩
      rcases rejoined r answered relative with ⟨q', leadsToo, back⟩
      cases leadsTo.symm.trans leadsToo
      exact ⟨plain, fun name member => ⟨clean name member, back.mp same name member⟩⟩
    · rintro ⟨plain, each⟩
      have clean : ∀ name ∈ names, Label.Clean name := fun name member => (each name member).1
      rcases reading.mpr ⟨some_text, clean, plain⟩ with ⟨r, answered, relative⟩
      rcases rejoined r answered relative with ⟨q, leadsTo, back⟩
      exact ⟨r, q, answered, relative, leadsTo, back.mpr fun name member => (each name member).2⟩
    · intro plain name member
      apply plain.names_sourcePath absolute sound leads name
      rw [behind]
      exact List.mem_append_right _ member
    · intro at_sign r answered
      have absoluteText : r.form = .workspaceAbsolute := by
        rw [Label.form_eq, Label.chars, (Label.parse_eq_ok_iff.mp (found.symm.trans answered)).2]
        exact if_pos (begins.trans at_sign)
      exact ⟨absoluteText, Label.join_workspaceAbsolute absoluteText⟩

theorem standard_plain : standard.Plain := by
  have workspaces : standard.workspacesRoot.names = ["workspaces".toList] := by decide +kernel
  have builtin : standard.builtinRoot.names =
      ["opt".toList, "trellis".toList, "builtin".toList] := by decide +kernel
  have clean : Label.Clean "workspaces".toList ∧ Label.Clean "opt".toList ∧
      Label.Clean "trellis".toList ∧ Label.Clean "builtin".toList := by decide +kernel
  rw [Plain, workspaces, builtin]
  simp only [List.singleton_append, List.forall_mem_cons]
  exact ⟨⟨clean.1, by decide⟩, ⟨clean.2.1, by decide⟩, ⟨clean.2.2.1, by decide⟩,
    ⟨clean.2.2.2, by decide⟩, nofun⟩

/-- A file some directories further down. -/
theorem relativeLabel_rejoins_nested :
    let l : Label := ⟨"@ws//pkg//sub/./dir:a.rs"⟩
    let a : Label := ⟨"@ws//pkg/"⟩
    standard.Absolute ∧ l.WellFormed ∧ l.form = .workspaceAbsolute ∧ a.WellFormed ∧
    a.form = .workspaceAbsolute ∧
    ∃ r q, standard.relativeLabel l a = .ok r ∧ r.form = .packageRelative ∧
      standard.sourcePath (a.join r) = .ok q ∧
      q.components = (FilePath.mk "/workspaces/ws/pkg/sub/dir/a.rs").components := by
  intro l a
  have absolute : standard.Absolute := ⟨by decide, by decide⟩
  have sound : l.WellFormed := by decide +kernel
  have other : a.WellFormed := by decide +kernel
  have leads : standard.sourcePath l = .ok ⟨"/workspaces/ws/pkg//sub/./dir/a.rs"⟩ := by
    decide +kernel
  have based : standard.sourcePath a = .ok ⟨"/workspaces/ws/pkg/"⟩ := by decide +kernel
  rcases relativeLabel_rejoins absolute sound (by decide) other (by decide) with
    ⟨own, base, own_leads, base_leads, _, below⟩
  cases leads.symm.trans own_leads
  cases based.symm.trans base_leads
  rcases below ["sub".toList, "dir".toList, "a.rs".toList] nofun (by decide +kernel) with
    ⟨returns, plain, _⟩
  rcases returns.mpr ⟨by decide, plain standard_plain⟩ with
    ⟨r, q, answered, relative, leadsTo, same⟩
  refine ⟨absolute, sound, by decide, other, by decide, r, q, answered, relative, leadsTo, ?_⟩
  rw [same]
  decide +kernel

/-- A directory that begins with an at sign is taken for a workspace, and the label leads to a file
of that workspace. Without a double slash behind it there is no label. -/
theorem relativeLabel_rejoins_astray :
    standard.relativeLabel ⟨"@ws//pkg/@x//y"⟩ ⟨"@ws//pkg"⟩ = .ok ⟨"@x//y"⟩ ∧
    standard.relativeLabel ⟨"@ws//pkg:@x"⟩ ⟨"@ws//pkg"⟩ = .error (.malformedWorkspace "@x") ∧
    ¬ ∀ (layout : Layout) (l a : Label) (own base : FilePath), layout.Absolute → l.WellFormed →
      l.form = .workspaceAbsolute → a.WellFormed → a.form = .workspaceAbsolute →
      layout.sourcePath l = .ok own → layout.sourcePath a = .ok base →
      base.components <+: own.components → own.components ≠ base.components →
        ∃ r q, layout.relativeLabel l a = .ok r ∧ r.form = .packageRelative ∧
          layout.sourcePath (a.join r) = .ok q ∧ q.components = own.components := by
  have refused : standard.relativeLabel ⟨"@ws//pkg:@x"⟩ ⟨"@ws//pkg"⟩ =
      .error (.malformedWorkspace "@x") := by decide +kernel
  refine ⟨by decide +kernel, refused, fun rejoins => ?_⟩
  rcases rejoins standard ⟨"@ws//pkg:@x"⟩ ⟨"@ws//pkg"⟩ ⟨"/workspaces/ws/pkg/@x"⟩
    ⟨"/workspaces/ws/pkg"⟩ ⟨by decide, by decide⟩ (by decide +kernel) (by decide)
    (by decide +kernel) (by decide) (by decide +kernel) (by decide +kernel) (by decide +kernel)
    (by decide +kernel) with ⟨r, q, answered, _⟩
  cases refused.symm.trans answered

end Layout

end RuleAnalysis
