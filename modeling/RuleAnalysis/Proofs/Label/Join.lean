import RuleAnalysis.Proofs.Label.Anatomy

namespace RuleAnalysis
namespace Label

/-!
# Joining labels

A join keeps one of the two roots and puts the segments of the right-hand side
behind it. Between the segments of a package and those of a relative label
stands one separator: the colon that the label brings along, the separator
that the package ends with, or else a slash. The last character of a package
and the first one of a label decide this alone, so labels can be joined in any
order.
-/

open Text

/-! ## What a join puts together -/

/-- The segments of a package in front of a relative label. -/
def closed (root rest label : List Char) : List Char :=
  if label.head? = some ':' then dropTrailing (· = '/') rest
  else if (root ++ rest).getLast?.any isSeparator then rest
  else rest ++ ['/']

variable {a b c : Label} {r s rest cs ds : List Char} {f : Form}

theorem join_packageRelative (relative : b.form = .packageRelative) :
    a.join b = ofChars (a.root ++ (closed a.root a.rest b.chars ++ b.chars)) := by
  rw [join, relative, closed, root_append_rest, trimmed]
  dsimp only
  split
  · rw [List.append_assoc]
  · split
    · rw [← List.append_assoc, root_append_rest]
    · rw [List.append_assoc, ← List.append_assoc, root_append_rest, List.singleton_append]

/-- In a package whose workspace has a name, the package's root takes the place of the label's. -/
theorem join_workspaceRelative {name : String} (sound : a.Rooted)
    (named : a.workspaceName? = some name) (other : b.Rooted)
    (relative : b.form = .workspaceRelative) : a.join b = ofChars (a.root ++ b.rest) := by
  rw [join, relative, named, eq_comm, ofChars_eq_iff, sound.root_of_workspaceName? named, chars,
    String.toList_append, String.toList_append]
  change _ = '@' :: name.toList ++ b.chars
  rw [← root_append_rest b, other.root_of_workspaceRelative relative, List.append_assoc]

theorem join_of_unnamed (relative : b.form = .workspaceRelative) (unnamed : a.workspaceName? = none) :
    a.join b = b := by
  rw [join, relative, unnamed]

/-- A workspace-relative label asks only for the workspace. -/
theorem join_congr (relative : c.form = .workspaceRelative)
    (same : a.workspaceName? = b.workspaceName?) : a.join c = b.join c := by
  rw [join, join, relative, same]

theorem join_workspaceAbsolute (absolute : b.form = .workspaceAbsolute) : a.join b = b := by
  rw [join, absolute]

/-! ## The separator -/

/-- Only the first character of the label counts. -/
theorem closed_congr (same : cs.head? = ds.head?) : closed r rest cs = closed r rest ds := by
  rw [closed, closed, same]

/-- All roots end alike. -/
theorem closed_root (isRoot : IsRoot f r) (rooted : f ≠ .packageRelative) :
    closed r rest cs = closed ['/', '/'] rest cs := by
  have ends : r.getLast? = ['/', '/'].getLast? := by
    cases isRoot with
    | workspaceAbsolute _ _ => rw [List.getLast?_append]; rfl
    | workspaceRelative => rfl
    | packageRelative => exact absurd rfl rooted
  rw [closed, closed, List.getLast?_append, List.getLast?_append, ends]

/-- What stands in front of a label whose first character is no slash stays in front of it. -/
theorem closed_append {d : Char} (kept : d ≠ '/') (before after : List Char) :
    closed r (before ++ d :: after) cs = before ++ closed [] (d :: after) cs := by
  have last : (r ++ (before ++ d :: after)).getLast? = ([] ++ d :: after).getLast? := by
    simp [List.getLast?_append, List.getLast?_cons]
  have trailing := dropTrailing_append_cons (p := (· = '/')) (decide_eq_false kept)
  rw [closed, closed, last]
  split
  · rw [trailing before, ← List.nil_append (d :: after), trailing []]
    rfl
  · split
    · rfl
    · rw [List.append_assoc]

/-- The first segment stays the first, unless it is a slash. -/
theorem head?_closed {d : Char} (kept : d ≠ '/') (begins : rest.head? = some d) :
    (closed r rest cs ++ ds).head? = some d := by
  rcases List.head?_eq_some_iff.mp begins with ⟨after, rfl⟩
  have trailing := dropTrailing_append_cons (p := (· = '/')) (decide_eq_false kept) [] after
  rw [List.nil_append, List.nil_append] at trailing
  rw [closed]
  split
  · rw [trailing]
    rfl
  · split <;> rfl

theorem clean_closed (clean : Clean rest) : Clean (closed r rest cs) := by
  rw [closed]
  split
  · exact fun d member => clean d (dropTrailing_subset _ rest member)
  · split
    · exact clean
    · exact clean_append_iff.mpr ⟨clean, List.forall_mem_singleton.mpr (by decide)⟩

/-! ## Well-formed labels -/

theorem WellFormed.begins_closed (sound : a.WellFormed) (cs ds : List Char) :
    Begins a.form (closed a.root a.rest cs ++ ds) := by
  by_cases relative : a.form = .packageRelative
  · rcases sound.exists_first relative with ⟨d, after, spelled, _, kept⟩
    have first : a.rest.head? = some d := by
      rw [sound.rooted.rest_of_packageRelative relative, spelled]
      rfl
    exact sound.rooted.begins.congr ((head?_closed kept first).trans first.symm)
  · exact .of_ne relative _

/-- A relative label joins the package's workspace. -/
theorem WellFormed.form_join_packageRelative (sound : a.WellFormed)
    (relative : b.form = .packageRelative) :
    (a.join b).form = a.form ∧ (a.join b).workspaceName? = a.workspaceName? := by
  have begins := sound.begins_closed b.chars b.chars
  rw [join_packageRelative relative]
  exact ⟨sound.rooted.form_behind begins, sound.rooted.workspaceName?_behind begins⟩

theorem WellFormed.join (sound : a.WellFormed) (other : b.WellFormed) : (a.join b).WellFormed := by
  cases form : b.form with
  | workspaceAbsolute =>
      rw [join_workspaceAbsolute form]
      exact other
  | workspaceRelative =>
      cases named : a.workspaceName? with
      | none =>
          rw [join_of_unnamed form named]
          exact other
      | some name =>
          have clean := other.clean
          rw [← root_append_rest, clean_append_iff] at clean
          rw [join_workspaceRelative sound.rooted named other.rooted form]
          refine sound.behind (.of_ne ?_ _) ?_ clean.2
          · have absolute := sound.rooted.workspaceName?_isSome_iff.mp (named ▸ rfl)
            rw [absolute]
            exact nofun
          · rw [sound.rooted.root_of_workspaceName? named]
            exact nofun
  | packageRelative =>
      have whole := sound.clean
      rw [← root_append_rest, clean_append_iff] at whole
      rw [join_packageRelative form]
      refine sound.behind (sound.begins_closed _ _) ?_ ?_
      · exact fun empty => other.chars_ne_nil
          (List.append_eq_nil_iff.mp (List.append_eq_nil_iff.mp empty).2).2
      · exact clean_append_iff.mpr ⟨clean_closed whole.2, other.clean⟩

/-! ## Step by step or at once -/

theorem WellFormed.form_of_workspaceName? {name : String} (sound : a.WellFormed)
    (named : a.workspaceName? = some name) : a.form = .workspaceAbsolute :=
  sound.rooted.workspaceName?_isSome_iff.mp (named ▸ rfl)

theorem WellFormed.workspaceName?_eq_none (sound : b.WellFormed)
    (relative : b.form ≠ .workspaceAbsolute) : b.workspaceName? = none := by
  cases named : b.workspaceName? with
  | none => rfl
  | some name => exact absurd (sound.form_of_workspaceName? named) relative

/-- What a join with a workspace-relative label has in front and behind. -/
theorem WellFormed.join_workspaceRelative_parts {name : String} (sound : a.WellFormed)
    (named : a.workspaceName? = some name) (other : b.WellFormed)
    (relative : b.form = .workspaceRelative) :
    (a.join b).form = .workspaceAbsolute ∧ (a.join b).workspaceName? = a.workspaceName? ∧
      (a.join b).root = a.root ∧ (a.join b).rest = b.rest := by
  have absolute := sound.form_of_workspaceName? named
  have begins : Begins a.form b.rest := .of_ne (absolute ▸ nofun) _
  rw [join_workspaceRelative sound.rooted named other.rooted relative, sound.rooted.form_behind begins,
    sound.rooted.workspaceName?_behind begins]
  exact ⟨absolute, rfl, sound.rooted.isRoot.root_append begins, sound.rooted.isRoot.rest_append begins⟩

/-- What a join with a package-relative label has in front and behind. -/
theorem WellFormed.join_packageRelative_parts (sound : a.WellFormed)
    (relative : b.form = .packageRelative) :
    (a.join b).root = a.root ∧ (a.join b).rest = closed a.root a.rest b.chars ++ b.chars := by
  have begins := sound.begins_closed b.chars b.chars
  rw [join_packageRelative relative]
  exact ⟨sound.rooted.isRoot.root_append begins, sound.rooted.isRoot.rest_append begins⟩

/-- The workspace stays unless the label brings its own. -/
theorem WellFormed.workspaceName?_join (sound : a.WellFormed) (other : b.WellFormed)
    (relative : b.form ≠ .workspaceAbsolute) : (a.join b).workspaceName? = a.workspaceName? := by
  cases form : b.form with
  | workspaceAbsolute => exact absurd form relative
  | workspaceRelative =>
      cases named : a.workspaceName? with
      | none => rw [join_of_unnamed form named, other.workspaceName?_eq_none relative]
      | some name => rw [(sound.join_workspaceRelative_parts named other form).2.1, named]
  | packageRelative => exact (sound.form_join_packageRelative form).2

/-- The segments of two package-relative labels may be put together first. -/
theorem join_join_packageRelative (sa : a.WellFormed) (sb : b.WellFormed)
    (relative : b.form = .packageRelative) (last : c.form = .packageRelative) :
    (a.join b).join c = a.join (b.join c) := by
  rcases sb.exists_first relative with ⟨d, after, spelled, _, kept⟩
  rcases sa.join_packageRelative_parts relative with ⟨root, rest⟩
  have joined : (b.join c).form = .packageRelative :=
    (sb.form_join_packageRelative last).1.trans relative
  have text : (b.join c).chars = closed [] b.chars c.chars ++ c.chars := by
    rw [join_packageRelative last, chars_ofChars, sb.rooted.root_of_packageRelative relative,
      sb.rooted.rest_of_packageRelative relative, List.nil_append]
  have first : (b.join c).chars.head? = b.chars.head? := by
    rw [text, spelled]
    exact head?_closed kept rfl
  have behind : closed a.root (closed a.root a.rest b.chars ++ b.chars) c.chars =
      closed a.root a.rest b.chars ++ closed [] b.chars c.chars := by
    rw [spelled]
    exact closed_append kept _ after
  rw [join_packageRelative last, join_packageRelative joined, root, rest, closed_congr first, text,
    behind, List.append_assoc]

/-- Segments may be put behind a workspace-relative label before or after its root gives way to that
of the package. -/
theorem join_join_workspaceRelative {name : String} (sa : a.WellFormed)
    (named : a.workspaceName? = some name) (sb : b.WellFormed)
    (relative : b.form = .workspaceRelative) (sc : c.WellFormed) (last : c.form = .packageRelative) :
    (a.join b).join c = a.join (b.join c) := by
  rcases sa.join_workspaceRelative_parts named sb relative with ⟨_, _, root, rest⟩
  rcases sb.join_packageRelative_parts last with ⟨_, behind⟩
  have joined : (b.join c).form = .workspaceRelative :=
    (sb.form_join_packageRelative last).1.trans relative
  have absolute := sa.form_of_workspaceName? named
  have rootedA : a.form ≠ .packageRelative := absolute ▸ nofun
  have rootedB : b.form ≠ .packageRelative := relative ▸ nofun
  rw [join_packageRelative last, root, rest,
    join_workspaceRelative sa.rooted named (sb.join sc).rooted joined, behind,
    closed_root sa.rooted.isRoot rootedA, closed_root sb.rooted.isRoot rootedB]

/-- Labels may be joined step by step or the last two first. -/
theorem join_assoc (sa : a.WellFormed) (sb : b.WellFormed) (sc : c.WellFormed) :
    (a.join b).join c = a.join (b.join c) := by
  -- The last label decides: what stands in front of one with a root matters for its workspace only.
  cases last : c.form with
  | workspaceAbsolute => rw [join_workspaceAbsolute last, join_workspaceAbsolute last,
      join_workspaceAbsolute last]
  | workspaceRelative =>
      cases named : b.workspaceName? with
      | some name =>
          have form := sb.form_of_workspaceName? named
          have joined := (sb.join_workspaceRelative_parts named sc last).1
          rw [join_workspaceAbsolute form, join_workspaceAbsolute joined]
      | none =>
          have relative : b.form ≠ .workspaceAbsolute := fun form => by
            have has_name := sb.rooted.workspaceName?_isSome_iff.mpr form
            rw [named] at has_name
            cases has_name
          rw [join_of_unnamed last named]
          exact join_congr last (sa.workspaceName?_join sb relative)
  | packageRelative =>
      cases form : b.form with
      | workspaceAbsolute =>
          have joined := (sb.form_join_packageRelative last).1.trans form
          rw [join_workspaceAbsolute form, join_workspaceAbsolute joined]
      | workspaceRelative =>
          cases named : a.workspaceName? with
          | none =>
              have joined := (sb.form_join_packageRelative last).1.trans form
              rw [join_of_unnamed form named, join_of_unnamed joined named]
          | some name => exact join_join_workspaceRelative sa named sb form sc last
      | packageRelative => exact join_join_packageRelative sa sb form last

/-- What a join is, for all forms of labels: it is well formed, it is the right-hand side with the
workspace of the package as far as it has none of its own, it stays in the package's workspace if the
right-hand side is package-relative, and it does not matter in which order labels are joined. -/
theorem join_well_formed_and_associative (sa : a.WellFormed) (sb : b.WellFormed)
    (sc : c.WellFormed) :
    parse (a.join b).text = .ok (a.join b) ∧
    (b.form = .workspaceAbsolute → a.join b = b) ∧
    (b.form = .workspaceRelative → a.workspaceName? = none → a.join b = b) ∧
    (b.form = .workspaceRelative → a.form = .workspaceAbsolute →
      ∃ name, a.workspaceName? = some name ∧ (a.join b).text = "@" ++ name ++ b.text) ∧
    (b.form = .packageRelative →
      (a.join b).form = a.form ∧ (a.join b).workspaceName? = a.workspaceName?) ∧
    (a.join b).join c = a.join (b.join c) := by
  refine ⟨parse_eq_ok_iff.mpr ⟨sa.join sb, rfl⟩, join_workspaceAbsolute, join_of_unnamed, ?_,
    sa.form_join_packageRelative, join_assoc sa sb sc⟩
  intro relative absolute
  rcases Option.isSome_iff_exists.mp (sa.rooted.workspaceName?_isSome_iff.mpr absolute)
    with ⟨name, named⟩
  refine ⟨name, named, ?_⟩
  rw [join, relative, named]

/-- Separators at both ends: the slashes of the package give way to the colon of the last label. -/
theorem join_well_formed_and_associative_slashes :
    let a : Label := ⟨"@ws//pkg"⟩
    let b : Label := ⟨"//sub//"⟩
    let c : Label := ⟨":file"⟩
    a.WellFormed ∧ b.WellFormed ∧ c.WellFormed ∧
    (a.join b).text = "@ws//sub//" ∧ (b.join c).text = "//sub:file" ∧
    (a.join b).join c = a.join (b.join c) := by
  intro a b c
  have sa : a.WellFormed := by decide
  have sb : b.WellFormed := by decide
  have sc : c.WellFormed := by decide
  exact ⟨sa, sb, sc, by decide, by decide, (join_well_formed_and_associative sa sb sc).2.2.2.2.2⟩

end Label
end RuleAnalysis
