import Mathlib.Data.List.Infix
import RuleAnalysis.Text.Replace

namespace RuleAnalysis
namespace Text

/-!
# Replacing marks all at once

Marks that stand in a text are replaced at one stroke if each occurrence gives
way to the text of its mark and the rest is copied. What is inserted is not
looked at again. Which occurrence is replaced first makes no difference as long
as occurrences cannot overlap, and the replaced text is found in a single scan
from left to right.
-/

/-- What is replaced, each with the text that takes its place. -/
abbrev Table := List (List Char × List Char)

/-- The second text is the first one with every mark replaced and the rest copied. -/
inductive Replaced (table : Table) : List Char → List Char → Prop
  | clear {cs : List Char} : (∀ entry ∈ table, ¬ entry.1 <:+: cs) → Replaced table cs cs
  | mark {entry : List Char × List Char} {before after x y : List Char} : entry ∈ table →
      Replaced table before x → Replaced table after y →
      Replaced table (before ++ entry.1 ++ after) (x ++ entry.2 ++ y)

/-- The first mark of the table with which a text begins. -/
def markAt? (table : Table) (cs : List Char) : Option (List Char × List Char) :=
  table.find? fun entry => entry.1.isPrefixOf cs

/-- Replaces marks in one scan. The count tells how many characters of a found occurrence are still
to be passed over. -/
def replaceEach (table : Table) : Nat → List Char → List Char
  | _, [] => []
  | passed + 1, _ :: cs => replaceEach table passed cs
  | 0, c :: cs =>
      match markAt? table (c :: cs) with
      | some entry => entry.2 ++ replaceEach table (entry.1.length - 1) cs
      | none => c :: replaceEach table 0 cs

/-- To replace one pattern is to replace the only mark of a table. -/
theorem replaceFrom_eq_replaceEach (pattern replacement : List Char) (passed : Nat)
    (cs : List Char) :
    replaceFrom pattern replacement passed cs =
      replaceEach [(pattern, replacement)] passed cs := by
  induction cs generalizing passed with
  | nil => rw [replaceFrom, replaceEach]
  | cons c cs ih =>
      cases passed with
      | succ passed => rw [replaceFrom, replaceEach, ih]
      | zero =>
          rw [replaceFrom, replaceEach, markAt?, List.find?_singleton]
          by_cases here : pattern.isPrefixOf (c :: cs) = true
          · simp only [here, if_true, ih]
          · simp only [here, if_false, ih, Bool.false_eq_true]

variable {table : Table} {entry : List Char × List Char} {m u v s cs out : List Char}

theorem markAt?_congr {cs cs' : List Char}
    (alike : ∀ entry ∈ table, entry.1 <+: cs ↔ entry.1 <+: cs') :
    markAt? table cs = markAt? table cs' := by
  unfold markAt?
  induction table with
  | nil => rfl
  | cons entry table ih =>
      have here : entry.1.isPrefixOf cs = entry.1.isPrefixOf cs' := by
        apply Bool.eq_iff_iff.mpr
        rw [List.isPrefixOf_iff_prefix, List.isPrefixOf_iff_prefix]
        exact alike entry List.mem_cons_self
      rw [List.find?_cons, List.find?_cons, here, ih]
      intro other member
      exact alike other (List.mem_cons_of_mem entry member)

theorem markAt?_eq_none (clear : ∀ entry ∈ table, ¬ entry.1 <+: cs) : markAt? table cs = none := by
  apply List.find?_eq_none.mpr
  intro entry member begins
  exact clear entry member (List.isPrefixOf_iff_prefix.mp begins)

theorem prefix_of_markAt? (found : markAt? table cs = some entry) :
    entry ∈ table ∧ entry.1 <+: cs := by
  unfold markAt? at found
  have begins := List.find?_some found
  exact ⟨List.mem_of_find?_eq_some found, List.isPrefixOf_iff_prefix.mp begins⟩

/-! ## Scanning a text in two parts -/

/-- A mark stands across the border of two texts. -/
def Straddles (m u v : List Char) : Prop :=
  ∃ a b, a ≠ [] ∧ b ≠ [] ∧ m = a ++ b ∧ a <:+ u ∧ b <+: v

theorem Straddles.cons (c : Char) (across : Straddles m u v) : Straddles m (c :: u) v := by
  rcases across with ⟨a, b, left, right, whole, ends, begins⟩
  exact ⟨a, b, left, right, whole, ends.trans (List.suffix_cons c u), begins⟩

/-- A mark that begins with a text and goes on stands across its end. -/
theorem prefix_or_straddles (some_text : u ≠ []) (begins : m <+: u ++ v) :
    m <+: u ∨ Straddles m u v := by
  rcases List.prefix_or_prefix_of_prefix begins (List.prefix_append u v) with inside | beyond
  · exact Or.inl inside
  · rcases beyond with ⟨b, rfl⟩
    by_cases more : b = []
    · left
      rw [more, List.append_nil]
    · right
      refine ⟨u, b, some_text, more, rfl, List.suffix_refl u, ?_⟩
      exact (List.prefix_append_right_inj u).mp begins

theorem replaceEach_append_of_le {passed : Nat} (few : passed ≤ u.length)
    (apart : ∀ entry ∈ table, ¬ Straddles entry.1 u v) :
    replaceEach table passed (u ++ v) = replaceEach table passed u ++ replaceEach table 0 v := by
  induction u generalizing passed with
  | nil =>
      rw [Nat.le_zero.mp few]
      cases v <;> simp [replaceEach]
  | cons c u ih =>
      have later : ∀ entry ∈ table, ¬ Straddles entry.1 u v := by
        intro entry member across
        exact apart entry member (across.cons c)
      cases passed with
      | succ passed =>
          rw [List.cons_append, replaceEach, replaceEach]
          exact ih (Nat.le_of_succ_le_succ few) later
      | zero =>
          have seen : markAt? table (c :: (u ++ v)) = markAt? table (c :: u) := by
            apply markAt?_congr
            intro entry member
            constructor
            · intro begins
              rcases prefix_or_straddles (List.cons_ne_nil c u) begins with inside | across
              · exact inside
              · exact absurd across (apart entry member)
            · intro begins
              exact begins.trans (List.prefix_append (c :: u) v)
          rw [List.cons_append, replaceEach, replaceEach, seen]
          cases found : markAt? table (c :: u) with
          | none =>
              dsimp only
              rw [ih (Nat.zero_le _) later, List.cons_append]
          | some entry =>
              -- The mark ends within the first text, so what is to be passed over does as well.
              have bound := (prefix_of_markAt? found).2.length_le
              rw [List.length_cons] at bound
              dsimp only
              rw [ih (by omega) later, List.append_assoc]

theorem replaceEach_append (apart : ∀ entry ∈ table, ¬ Straddles entry.1 u v) :
    replaceEach table 0 (u ++ v) = replaceEach table 0 u ++ replaceEach table 0 v :=
  replaceEach_append_of_le (Nat.zero_le _) apart

theorem replaceEach_passed (s v : List Char) :
    replaceEach table s.length (s ++ v) = replaceEach table 0 v := by
  induction s with
  | nil => rfl
  | cons c s ih => rw [List.length_cons, List.cons_append, replaceEach, ih]

/-- A text without marks is copied. -/
theorem replaceEach_of_clear (clear : ∀ entry ∈ table, ¬ entry.1 <:+: s) :
    replaceEach table 0 s = s := by
  induction s with
  | nil => rw [replaceEach]
  | cons c s ih =>
      have none : markAt? table (c :: s) = none := by
        apply markAt?_eq_none
        intro entry member begins
        exact clear entry member begins.isInfix
      have later : ∀ entry ∈ table, ¬ entry.1 <:+: s := by
        intro entry member inside
        exact clear entry member (inside.trans (List.suffix_cons c s).isInfix)
      rw [replaceEach, none]
      dsimp only
      rw [ih later]

/-- A scan copies a text that no mark overlaps and goes on in front of it and behind it. -/
theorem replaceEach_copy (clear : ∀ entry ∈ table, ¬ entry.1 <:+: m)
    (front : ∀ entry ∈ table, ¬ Straddles entry.1 u (m ++ v))
    (back : ∀ entry ∈ table, ¬ Straddles entry.1 m v) :
    replaceEach table 0 (u ++ m ++ v) = replaceEach table 0 u ++ m ++ replaceEach table 0 v := by
  rw [List.append_assoc, replaceEach_append front, replaceEach_append back,
    replaceEach_of_clear clear, List.append_assoc]

/-- Nothing changes if every mark is replaced by itself. -/
theorem Replaced.eq_self (same : ∀ entry ∈ table, entry.2 = entry.1)
    (replaced : Replaced table cs out) : out = cs := by
  induction replaced with
  | clear _ => rfl
  | mark member _ _ ihBefore ihAfter => rw [same _ member, ihBefore, ihAfter]

/-! ## Marks that begin with a sign -/

/-- Every mark begins with a sign that does not occur in it again, and no mark begins with
another. -/
structure Marks (sign : Char) (table : Table) : Prop where
  opens : ∀ entry ∈ table, ∃ name, entry.1 = sign :: name ∧ sign ∉ name
  apart : ∀ entry ∈ table, ∀ other ∈ table, entry.1 <+: other.1 → entry = other

namespace Marks

variable {sign : Char} {other : List Char × List Char} {before after : List Char}

theorem ne_nil (marks : Marks sign table) (member : entry ∈ table) : entry.1 ≠ [] := by
  rcases marks.opens entry member with ⟨name, spelled, _⟩
  rw [spelled]
  exact List.cons_ne_nil _ _

/-- What stands behind the beginning of a mark has no sign. -/
theorem sign_not_mem (marks : Marks sign table) (member : entry ∈ table) {a b : List Char}
    (whole : entry.1 = a ++ b) (some_text : a ≠ []) : sign ∉ b := by
  rcases marks.opens entry member with ⟨name, spelled, clear⟩
  rcases List.exists_cons_of_ne_nil some_text with ⟨c, a, rfl⟩
  rw [whole, List.cons_append] at spelled
  rw [← (List.cons.inj spelled).2] at clear
  intro inside
  exact clear (List.mem_append_right a inside)

/-- The sign stands in every beginning of a mark. -/
theorem sign_mem (marks : Marks sign table) (member : entry ∈ table) {a b : List Char}
    (whole : entry.1 = a ++ b) (some_text : a ≠ []) : sign ∈ a := by
  rcases marks.opens entry member with ⟨name, spelled, _⟩
  rcases List.exists_cons_of_ne_nil some_text with ⟨c, a, rfl⟩
  rw [whole, List.cons_append] at spelled
  rw [(List.cons.inj spelled).1]
  exact List.mem_cons_self

/-- Nothing of a mark stands in front of its sign. -/
theorem eq_nil_of_sign_mem (marks : Marks sign table) (member : entry ∈ table) {a b : List Char}
    (whole : entry.1 = a ++ b) (inside : sign ∈ b) : a = [] := by
  by_contra more
  exact marks.sign_not_mem member whole more inside

/-- No mark stands across the beginning of a mark. -/
theorem not_straddles_before (marks : Marks sign table) (member : entry ∈ table)
    (among : other ∈ table) : ¬ Straddles other.1 before (entry.1 ++ after) := by
  rintro ⟨a, b, left, right, whole, _, begins⟩
  rcases marks.opens entry member with ⟨name, spelled, _⟩
  rcases List.exists_cons_of_ne_nil right with ⟨c, b, rfl⟩
  rw [spelled, List.cons_append, List.cons_prefix_cons] at begins
  apply marks.sign_not_mem among whole left
  rw [begins.1]
  exact List.mem_cons_self

/-- No mark stands across the end of a mark. -/
theorem not_straddles_after (marks : Marks sign table) (member : entry ∈ table)
    (among : other ∈ table) : ¬ Straddles other.1 entry.1 after := by
  rintro ⟨a, b, left, right, whole, ⟨front, ends⟩, _⟩
  -- The sign with which the other mark begins stands nowhere but at the front of this one.
  have atFront := marks.eq_nil_of_sign_mem member ends.symm (marks.sign_mem among whole left)
  rw [atFront, List.nil_append] at ends
  have one := marks.apart entry member other among ⟨b, by rw [whole, ends]⟩
  rw [one, whole] at ends
  exact right (List.append_right_eq_self.mp ends.symm)

/-- A mark that stands in a mark is that mark. -/
theorem eq_of_infix (marks : Marks sign table) (member : entry ∈ table) (among : other ∈ table)
    (inside : other.1 <:+: entry.1) : other = entry := by
  rcases inside with ⟨front, rest, whole⟩
  apply marks.apart other among entry member
  rw [List.append_assoc] at whole
  have signed := marks.sign_mem among (List.append_nil other.1).symm (marks.ne_nil among)
  have atFront := marks.eq_nil_of_sign_mem member whole.symm (List.mem_append_left rest signed)
  exact ⟨rest, by rw [← whole, atFront, List.nil_append]⟩

/-- No mark stands in a part of a mark. -/
theorem clear_of_part (marks : Marks sign table) (member : entry ∈ table) {part : List Char}
    (inside : part <:+: entry.1) (proper : part ≠ entry.1) :
    ∀ other ∈ table, ¬ other.1 <:+: part := by
  intro other among found
  have one := marks.eq_of_infix member among (found.trans inside)
  rw [one] at found
  apply proper
  exact inside.eq_of_length (Nat.le_antisymm inside.length_le found.length_le)

theorem markAt?_eq (marks : Marks sign table) (member : entry ∈ table) (after : List Char) :
    markAt? table (entry.1 ++ after) = some entry := by
  cases found : markAt? table (entry.1 ++ after) with
  | none =>
      have unseen := List.find?_eq_none.mp found entry member
      exact absurd (List.isPrefixOf_iff_prefix.mpr (List.prefix_append entry.1 after)) unseen
  | some other =>
      rcases prefix_of_markAt? found with ⟨among, begins⟩
      rcases List.prefix_or_prefix_of_prefix begins (List.prefix_append entry.1 after) with
        short | long
      · rw [marks.apart other among entry member short]
      · rw [marks.apart entry member other among long]

/-- A scan replaces a mark and goes on in front of it and behind it. -/
theorem replaceEach_mark (marks : Marks sign table) (member : entry ∈ table)
    (before after : List Char) :
    replaceEach table 0 (before ++ entry.1 ++ after) =
      replaceEach table 0 before ++ entry.2 ++ replaceEach table 0 after := by
  have first : replaceEach table 0 (entry.1 ++ after) = entry.2 ++ replaceEach table 0 after := by
    have found := marks.markAt?_eq member after
    rcases List.exists_cons_of_ne_nil (marks.ne_nil member) with ⟨c, name, spelled⟩
    rw [spelled, List.cons_append] at found ⊢
    rw [replaceEach, found]
    dsimp only
    rw [spelled, List.length_cons, Nat.add_sub_cancel, replaceEach_passed]
  rw [List.append_assoc, replaceEach_append, first, List.append_assoc]
  intro other among
  exact marks.not_straddles_before member among

theorem replaceEach_eq (marks : Marks sign table) (replaced : Replaced table cs out) :
    replaceEach table 0 cs = out := by
  induction replaced with
  | clear clear => exact replaceEach_of_clear clear
  | mark member _ _ ihBefore ihAfter => rw [marks.replaceEach_mark member, ihBefore, ihAfter]

/-- Every text has a replaced one. The induction is on its length: what stands in front of a mark
and what stands behind it are both shorter. -/
theorem exists_replaced (marks : Marks sign table) (cs : List Char) :
    ∃ out, Replaced table cs out := by
  generalize size : cs.length = n
  induction n using Nat.strong_induction_on generalizing cs with
  | _ n ih =>
      by_cases clear : ∀ entry ∈ table, ¬ entry.1 <:+: cs
      · exact ⟨cs, .clear clear⟩
      · push Not at clear
        rcases clear with ⟨entry, member, before, after, rfl⟩
        have some_text := List.length_pos_of_ne_nil (marks.ne_nil member)
        rw [List.length_append, List.length_append] at size
        rcases ih before.length (by omega) before rfl with ⟨x, front⟩
        rcases ih after.length (by omega) after rfl with ⟨y, rest⟩
        exact ⟨_, .mark member front rest⟩

/-- The replaced text is what a scan yields. -/
theorem replaced_iff (marks : Marks sign table) :
    Replaced table cs out ↔ out = replaceEach table 0 cs := by
  rcases marks.exists_replaced cs with ⟨own, replaced⟩
  have scan := marks.replaceEach_eq replaced
  constructor
  · intro other
    exact (marks.replaceEach_eq other).symm
  · intro same
    rw [same, scan]
    exact replaced

/-- Part of a table is a table of marks as well. -/
theorem of_subset {part : Table} (marks : Marks sign table) (subset : part ⊆ table) :
    Marks sign part where
  opens entry member := marks.opens entry (subset member)
  apart entry member other among := marks.apart entry (subset member) other (subset among)

end Marks

/-! ## One mark -/

variable {sign : Char}

/-- Each occurrence of a mark changes the length of a text by as much. -/
theorem Replaced.exists_length (replaced : Replaced [entry] cs out) :
    ∃ count, out.length + count * entry.1.length = cs.length + count * entry.2.length := by
  induction replaced with
  | clear _ => exact ⟨0, by omega⟩
  | mark member _ _ ihBefore ihAfter =>
      rw [List.mem_singleton] at member
      rcases ihBefore with ⟨i, front⟩
      rcases ihAfter with ⟨j, rest⟩
      refine ⟨i + j + 1, ?_⟩
      simp only [List.length_append, member, Nat.add_mul, Nat.one_mul]
      omega

/-- A text in which a mark stands and that is not changed has that mark replaced by itself. -/
theorem Marks.eq_of_unchanged (marks : Marks sign [entry]) (inside : entry.1 <:+: cs)
    (unchanged : replaceEach [entry] 0 cs = cs) : entry.2 = entry.1 := by
  rcases inside with ⟨before, after, rfl⟩
  have member : entry ∈ [entry] := List.mem_singleton_self entry
  rw [marks.replaceEach_mark member] at unchanged
  rcases (marks.replaced_iff.mpr rfl : Replaced [entry] before _).exists_length with ⟨i, front⟩
  rcases (marks.replaced_iff.mpr rfl : Replaced [entry] after _).exists_length with ⟨j, rest⟩
  -- Every occurrence adds or removes as much, and there is one at least.
  have lengths := congrArg List.length unchanged
  simp only [List.length_append] at lengths
  have scaled : (i + j + 1) * entry.2.length = (i + j + 1) * entry.1.length := by
    simp only [Nat.add_mul, Nat.one_mul]
    omega
  have even : entry.2.length = entry.1.length := Nat.eq_of_mul_eq_mul_left (Nat.succ_pos _) scaled
  have fronts : (replaceEach [entry] 0 before).length = before.length := by
    rw [even] at front
    omega
  rw [List.append_assoc, List.append_assoc] at unchanged
  exact List.append_inj_left (List.append_inj_right unchanged fronts) even

/-! ## Two marks, one after the other -/

/-- A text and what may stand around it make up a mark, although neither side is the whole mark. -/
def Completes (m d : List Char) : Prop :=
  ∃ x y, x <+: m ∧ x ≠ m ∧ y <:+ m ∧ y ≠ m ∧ m <:+: x ++ d ++ y

variable {first second : List Char × List Char} {d : List Char}

/-- A mark that stands across the beginning of a text is made up with what stands around it. -/
theorem completes_of_straddles_before (some_text : m ≠ []) (across : Straddles m u (d ++ v)) :
    Completes m d := by
  rcases across with ⟨a, b, left, right, rfl, _, begins⟩
  have front : a ≠ a ++ b := fun same => right (List.append_right_eq_self.mp same.symm)
  rcases List.prefix_or_prefix_of_prefix begins (List.prefix_append d v) with inside | beyond
  · rcases inside with ⟨rest, rfl⟩
    refine ⟨a, [], List.prefix_append a b, front, List.nil_suffix, some_text.symm, ?_⟩
    exact ⟨[], rest, by simp⟩
  · rcases beyond with ⟨rest, rfl⟩
    refine ⟨a, rest, List.prefix_append a _, front, ⟨a ++ d, by simp⟩, ?_, ?_⟩
    · intro same
      have lengths := congrArg List.length same
      have more := List.length_pos_of_ne_nil left
      simp only [List.length_append] at lengths
      omega
    · exact ⟨[], [], by simp⟩

theorem completes_of_straddles_after (some_text : m ≠ []) (across : Straddles m d v) :
    Completes m d := by
  rcases across with ⟨a, b, left, _, rfl, ⟨front, rfl⟩, _⟩
  refine ⟨[], b, List.nil_prefix, some_text.symm, List.suffix_append a b, ?_, ?_⟩
  · intro same
    exact left (List.append_left_eq_self.mp same.symm)
  · exact ⟨front, [], by simp⟩

/-- A text that does not make up a mark is copied wherever it stands. -/
theorem replaceEach_copy_of_not_completes (some_text : entry.1 ≠ [])
    (never : ¬ Completes entry.1 d) (u v : List Char) :
    replaceEach [entry] 0 (u ++ d ++ v) =
      replaceEach [entry] 0 u ++ d ++ replaceEach [entry] 0 v := by
  apply replaceEach_copy
  all_goals
    intro other member
    rw [List.mem_singleton.mp member]
    intro found
    apply never
  · refine ⟨[], [], List.nil_prefix, some_text.symm, List.nil_suffix, some_text.symm, ?_⟩
    rw [List.nil_append, List.append_nil]
    exact found
  · exact completes_of_straddles_before some_text found
  · exact completes_of_straddles_after some_text found

theorem Marks.left (marks : Marks sign [first, second]) : Marks sign [first] :=
  marks.of_subset (List.cons_subset_cons first (List.nil_subset [second]))

theorem Marks.right (marks : Marks sign [first, second]) : Marks sign [second] :=
  marks.of_subset (List.subset_cons_self first [second])

/-- A scan for one mark copies the other one. -/
theorem Marks.replaceEach_other (marks : Marks sign [first, second]) (apart : first.1 ≠ second.1)
    (before after : List Char) :
    replaceEach [first] 0 (before ++ second.1 ++ after) =
      replaceEach [first] 0 before ++ second.1 ++ replaceEach [first] 0 after := by
  have here : first ∈ [first, second] := List.mem_cons_self
  have there : second ∈ [first, second] := List.mem_cons_of_mem first List.mem_cons_self
  apply replaceEach_copy
  all_goals
    intro other only
    rw [List.mem_singleton.mp only]
  · intro inside
    exact apart (congrArg Prod.fst (marks.eq_of_infix there here inside))
  · exact marks.not_straddles_before there here
  · exact marks.not_straddles_after there here

/-- A text without both marks is one without either. -/
theorem clear_pair_iff :
    (∀ entry ∈ [first, second], ¬ entry.1 <:+: s) ↔
      (∀ entry ∈ [first], ¬ entry.1 <:+: s) ∧ ∀ entry ∈ [second], ¬ entry.1 <:+: s := by
  simp only [List.forall_mem_cons, List.not_mem_nil, false_implies, implies_true, and_true]

/-- To replace one mark after the other is to replace both at once if the text that takes the place
of the first mark is copied by the scan for the second. -/
theorem replaceEach_replaceEach (marks : Marks sign [first, second]) (apart : first.1 ≠ second.1)
    (copied : first.1 <:+: cs → ∀ u v, replaceEach [second] 0 (u ++ first.2 ++ v) =
      replaceEach [second] 0 u ++ first.2 ++ replaceEach [second] 0 v)
    (replaced : Replaced [first, second] cs out) :
    replaceEach [second] 0 (replaceEach [first] 0 cs) = out := by
  induction replaced with
  | clear clear =>
      rcases clear_pair_iff.mp clear with ⟨clearFirst, clearSecond⟩
      rw [replaceEach_of_clear clearFirst, replaceEach_of_clear clearSecond]
  | @mark entry before after x y member _ _ ihBefore ihAfter =>
      have front : before <:+: before ++ entry.1 ++ after := ⟨[], entry.1 ++ after, by simp⟩
      have back : after <:+: before ++ entry.1 ++ after := ⟨before ++ entry.1, [], by simp⟩
      specialize ihBefore fun found => copied (found.trans front)
      specialize ihAfter fun found => copied (found.trans back)
      rcases List.mem_pair.mp member with rfl | rfl
      · have found : entry.1 <:+: before ++ entry.1 ++ after := ⟨before, after, rfl⟩
        rw [marks.left.replaceEach_mark (List.mem_singleton_self entry), copied found, ihBefore,
          ihAfter]
      · rw [marks.replaceEach_other apart,
          marks.right.replaceEach_mark (List.mem_singleton_self entry), ihBefore, ihAfter]

/-- Replacing one mark after the other replaces both at once in every text exactly if the text that
takes the place of the first one cannot make up the second one, or the second one is replaced by
itself. -/
theorem replaced_one_by_one_iff (marks : Marks sign [first, second])
    (apart : first.1 ≠ second.1) :
    (∀ cs, Replaced [first, second] cs (replaceEach [second] 0 (replaceEach [first] 0 cs))) ↔
      second.2 = second.1 ∨ ¬ Completes second.1 first.2 := by
  have here : first ∈ [first, second] := List.mem_cons_self
  have there : second ∈ [first, second] := List.mem_cons_of_mem first List.mem_cons_self
  constructor
  · intro always
    by_contra neither
    push Not at neither
    rcases neither with ⟨other, x, y, begins, properFront, ends, properBack, made⟩
    -- The first mark between the two sides is the text that goes wrong.
    have front := marks.clear_of_part there begins.isInfix properFront
    have back := marks.clear_of_part there ends.isInfix properBack
    have right : Replaced [first, second] (x ++ first.1 ++ y) (x ++ first.2 ++ y) :=
      .mark here (.clear front) (.clear back)
    have half : Replaced [first] (x ++ first.1 ++ y) (x ++ first.2 ++ y) :=
      .mark (List.mem_singleton_self first) (.clear (clear_pair_iff.mp front).1)
        (.clear (clear_pair_iff.mp back).1)
    have unchanged := marks.replaceEach_eq (always (x ++ first.1 ++ y))
    rw [marks.replaceEach_eq right, marks.left.replaceEach_eq half] at unchanged
    exact other (marks.right.eq_of_unchanged made unchanged.symm)
  · intro harmless cs
    rcases marks.exists_replaced cs with ⟨out, replaced⟩
    rw [replaceEach_replaceEach marks apart ?_ replaced]
    · exact replaced
    · intro _ u v
      rcases harmless with same | never
      · have unchanged : ∀ cs, replaceEach [second] 0 cs = cs := by
          intro cs
          rcases marks.right.exists_replaced cs with ⟨out, one⟩
          rw [marks.right.replaceEach_eq one]
          exact one.eq_self (by simpa using same)
        rw [unchanged, unchanged, unchanged]
      · exact replaceEach_copy_of_not_completes (marks.ne_nil there) never u v

/-- A text without the first mark is replaced at once whatever the marks stand for. -/
theorem replaced_one_by_one (marks : Marks sign [first, second]) (apart : first.1 ≠ second.1)
    (absent : ¬ first.1 <:+: cs) :
    Replaced [first, second] cs (replaceEach [second] 0 (replaceEach [first] 0 cs)) := by
  rcases marks.exists_replaced cs with ⟨out, replaced⟩
  rw [replaceEach_replaceEach marks apart (fun found => absurd found absent) replaced]
  exact replaced

/-- A mark without a character stands on one side of it. -/
theorem infix_of_infix_append_cons {c : Char} {p q : List Char} (foreign : c ∉ m)
    (inside : m <:+: p ++ c :: q) : m <:+: p ∨ m <:+: q := by
  rcases inside with ⟨l, r, whole⟩
  rw [List.append_assoc] at whole
  rcases List.append_eq_append_iff.mp whole with ⟨a, rfl, rest⟩ | ⟨a, rfl, rest⟩
  · left
    rcases List.append_eq_append_iff.mp rest with ⟨b, rfl, _⟩ | ⟨b, rfl, later⟩
    · exact ⟨l, b, List.append_assoc l m b⟩
    · cases b with
      | nil => exact ⟨l, [], by simp⟩
      | cons d b =>
          have same := (List.cons.inj later).1
          exact absurd (by simp [same]) foreign
  · cases a with
    | nil =>
        cases m with
        | nil => exact Or.inl List.nil_infix
        | cons d m =>
            have same := (List.cons.inj rest).1
            exact absurd (by simp [same]) foreign
    | cons d a =>
        right
        refine ⟨a, r, ?_⟩
        rw [List.append_assoc]
        exact (List.cons.inj rest).2.symm

/-- A text without the sign that begins with a character of no mark makes up none. -/
theorem Marks.not_completes (marks : Marks sign table) (member : entry ∈ table) {c : Char}
    (foreign : c ∉ entry.1) (clear : sign ∉ c :: d) : ¬ Completes entry.1 (c :: d) := by
  rintro ⟨x, y, begins, properFront, ⟨front, whole⟩, properBack, made⟩
  rw [List.append_assoc, List.cons_append] at made
  rcases infix_of_infix_append_cons foreign made with inside | inside
  · exact properFront (begins.eq_of_length (Nat.le_antisymm begins.length_le inside.length_le))
  · have some_text : front ≠ [] := by
      rintro rfl
      exact properBack whole
    have signed := marks.sign_mem member (List.append_nil entry.1).symm (marks.ne_nil member)
    rcases List.mem_append.mp (inside.subset signed) with first | last
    · exact clear (List.mem_cons_of_mem c first)
    · exact marks.sign_not_mem member whole.symm some_text last

end Text
end RuleAnalysis
