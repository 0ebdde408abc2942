namespace RuleAnalysis
namespace Text

/-!
# Cutting texts

Texts are cut at separators. Each cut names the parts before and after the
separator; the pieces of a text are what stands between its separators.
-/

/-- Cuts a text at its last separator. -/
def cutLast? (isSeparator : Char → Bool) : List Char → Option (List Char × List Char)
  | [] => none
  | c :: cs =>
      match cutLast? isSeparator cs with
      | some (before, after) => some (c :: before, after)
      | none => if isSeparator c then some ([], cs) else none

/-- Cuts a text at its first separator. -/
def cutFirst? (isSeparator : Char → Bool) : List Char → Option (List Char × List Char)
  | [] => none
  | c :: cs =>
      if isSeparator c then some ([], cs)
      else (cutFirst? isSeparator cs).map fun parts => (c :: parts.1, parts.2)

/-- Cuts a text at its first double slash. -/
def cutDoubleSlash? : List Char → Option (List Char × List Char)
  | [] => none
  | c :: cs =>
      if c = '/' && cs.head? = some '/' then some ([], cs.tail)
      else (cutDoubleSlash? cs).map fun parts => (c :: parts.1, parts.2)

def dropTrailing (p : Char → Bool) (cs : List Char) : List Char :=
  (cs.reverse.dropWhile p).reverse

/-- The pieces between separators, empty ones included; a text without separators is one piece. -/
def pieces (isSeparator : Char → Bool) : List Char → List (List Char)
  | [] => [[]]
  | c :: cs =>
      if isSeparator c then [] :: pieces isSeparator cs
      else
        match pieces isSeparator cs with
        | [] => [[c]]
        | piece :: rest => (c :: piece) :: rest

/-- Writes pieces one after the other with a separator between neighbours. -/
def glue (separator : Char) : List (List Char) → List Char
  | [] => []
  | [piece] => piece
  | piece :: next :: rest => piece ++ separator :: glue separator (next :: rest)

theorem pieces_ne_nil (p : Char → Bool) (cs : List Char) : pieces p cs ≠ [] := by
  induction cs with
  | nil => simp [pieces]
  | cons c cs ih =>
      by_cases separator : p c = true
      · simp [pieces, separator]
      · cases found : pieces p cs with
        | nil => exact absurd found ih
        | cons piece rest => simp [pieces, separator, found]

theorem not_mem_of_mem_pieces {p : Char → Bool} {cs piece : List Char}
    (member : piece ∈ pieces p cs) :
    ∀ c ∈ piece, p c = false := by
  induction cs generalizing piece with
  | nil =>
      rw [pieces, List.mem_singleton] at member
      subst member
      exact List.forall_mem_nil _
  | cons c cs ih =>
      by_cases separator : p c = true
      · rw [pieces, if_pos separator] at member
        rcases List.mem_cons.1 member with rfl | later
        · exact List.forall_mem_nil _
        · exact ih later
      · rw [pieces, if_neg separator] at member
        cases found : pieces p cs with
        | nil => exact absurd found (pieces_ne_nil p cs)
        | cons first rest =>
            simp only [found, List.mem_cons] at member ih
            rcases member with rfl | later
            · have clear : p c = false := by simpa using separator
              exact List.forall_mem_cons.2 ⟨clear, ih (.inl rfl)⟩
            · exact ih (.inr later)

/-- A piece without separators stays whole, up to the separator behind it. -/
theorem pieces_append_separator {p : Char → Bool} {piece : List Char}
    (clear : ∀ c ∈ piece, p c = false) {separator : Char} (isSeparator : p separator = true)
    (cs : List Char) : pieces p (piece ++ separator :: cs) = piece :: pieces p cs := by
  induction piece with
  | nil => rw [List.nil_append, pieces, if_pos isSeparator]
  | cons c piece ih =>
      rcases List.forall_mem_cons.1 clear with ⟨first, others⟩
      rw [List.cons_append, pieces, if_neg (by simp [first]), ih others]

theorem pieces_of_clear {p : Char → Bool} {piece : List Char} (clear : ∀ c ∈ piece, p c = false) :
    pieces p piece = [piece] := by
  induction piece with
  | nil => rw [pieces]
  | cons c piece ih =>
      rcases List.forall_mem_cons.1 clear with ⟨first, others⟩
      rw [pieces, if_neg (by simp [first]), ih others]

/-- The pieces of a text that has been glued together are those it has been glued from. -/
theorem pieces_glue {separator : Char} {parts : List (List Char)} (some_part : parts ≠ [])
    (clear : ∀ part ∈ parts, separator ∉ part) :
    pieces (· = separator) (glue separator parts) = parts := by
  have spared : ∀ part ∈ parts, ∀ c ∈ part, decide (c = separator) = false := by
    intro part member c inside
    exact decide_eq_false fun same => clear part member (same ▸ inside)
  induction parts with
  | nil => exact absurd rfl some_part
  | cons part rest ih =>
      rcases List.forall_mem_cons.1 clear with ⟨_, later⟩
      rcases List.forall_mem_cons.1 spared with ⟨first, others⟩
      cases rest with
      | nil => rw [glue, pieces_of_clear first]
      | cons next rest =>
          rw [glue, pieces_append_separator first (decide_eq_true rfl),
            ih (List.cons_ne_nil _ _) later others]

/-- Two texts with a separator between them have the pieces of the first and those of the second. -/
theorem pieces_append {p : Char → Bool} {separator : Char} (isSeparator : p separator = true)
    (cs ds : List Char) : pieces p (cs ++ separator :: ds) = pieces p cs ++ pieces p ds := by
  induction cs with
  | nil =>
      rw [List.nil_append, pieces, pieces, if_pos isSeparator]
      rfl
  | cons c cs ih =>
      rw [List.cons_append, pieces, pieces, ih]
      by_cases separates : p c = true
      · rw [if_pos separates, if_pos separates, List.cons_append]
      · rw [if_neg separates, if_neg separates]
        cases found : pieces p cs with
        | nil => exact absurd found (pieces_ne_nil p cs)
        | cons piece rest => rfl

/-- A text keeps its pieces if separators are exchanged for one another. -/
theorem pieces_map {p q : Char → Bool} {f : Char → Char} {cs : List Char}
    (alike : ∀ c ∈ cs, q (f c) = p c) (kept : ∀ c ∈ cs, p c = false → f c = c) :
    pieces q (cs.map f) = pieces p cs := by
  induction cs with
  | nil => rfl
  | cons c cs ih =>
      rcases List.forall_mem_cons.1 alike with ⟨first, others⟩
      rcases List.forall_mem_cons.1 kept with ⟨stays, remain⟩
      rw [List.map_cons, pieces, pieces, ih others remain, first]
      by_cases separates : p c = true
      · rw [if_pos separates, if_pos separates]
      · rw [if_neg separates, if_neg separates, stays (Bool.eq_false_iff.2 separates)]

/-- Only the characters that occur matter. -/
theorem pieces_congr {p q : Char → Bool} {cs : List Char} (alike : ∀ c ∈ cs, q c = p c) :
    pieces q cs = pieces p cs := by
  have same := pieces_map (f := fun c => c) alike fun _ _ _ => rfl
  rwa [List.map_id''] at same
  exact fun _ => rfl

/-- The pieces hold all characters but the separators. -/
theorem flatten_pieces (p : Char → Bool) (cs : List Char) :
    (pieces p cs).flatten = cs.filter fun c => !p c := by
  induction cs with
  | nil => rfl
  | cons c cs ih =>
      rw [pieces]
      by_cases separates : p c = true
      · rw [if_pos separates, List.flatten_cons, List.nil_append, ih,
          List.filter_cons_of_neg (by simp [separates])]
      · rw [if_neg separates, List.filter_cons_of_pos (by simp [separates]), ← ih]
        cases found : pieces p cs with
        | nil => exact absurd found (pieces_ne_nil p cs)
        | cons piece rest => rfl

theorem eq_of_cutFirst? {p : Char → Bool} {cs before after : List Char}
    (h : cutFirst? p cs = some (before, after)) :
    ∃ c, p c = true ∧ cs = before ++ c :: after ∧ ∀ x ∈ before, p x = false := by
  induction cs generalizing before with
  | nil => simp [cutFirst?] at h
  | cons c cs ih =>
      by_cases separator : p c = true
      · simp [cutFirst?, separator] at h
        exact ⟨c, separator, by simp [h.1, h.2], by simp [h.1]⟩
      · simp only [cutFirst?, separator, Bool.false_eq_true, if_false] at h
        obtain ⟨parts, found, same⟩ := Option.map_eq_some_iff.1 h
        obtain ⟨rfl, rfl⟩ := Prod.mk.inj same
        obtain ⟨d, hd, rfl, clear⟩ := ih found
        refine ⟨d, hd, rfl, ?_⟩
        intro x member
        rcases List.mem_cons.1 member with rfl | inside
        · simpa using separator
        · exact clear x inside

theorem cutLast?_eq_none_iff {p : Char → Bool} {cs : List Char} :
    cutLast? p cs = none ↔ ∀ c ∈ cs, p c = false := by
  induction cs with
  | nil => simp [cutLast?]
  | cons c cs ih =>
      rw [List.forall_mem_cons, ← ih, cutLast?]
      cases cutLast? p cs with
      | some parts => simp
      | none => by_cases separator : p c = true <;> simp [separator]

theorem eq_of_cutLast? {p : Char → Bool} {cs before after : List Char}
    (h : cutLast? p cs = some (before, after)) :
    ∃ c, p c = true ∧ cs = before ++ c :: after ∧ ∀ x ∈ after, p x = false := by
  induction cs generalizing before with
  | nil => simp [cutLast?] at h
  | cons c cs ih =>
      cases found : cutLast? p cs with
      | some parts =>
          simp only [cutLast?, found, Option.some.injEq, Prod.mk.injEq] at h
          obtain ⟨rfl, rfl⟩ := h
          obtain ⟨d, hd, rfl, clear⟩ := ih found
          exact ⟨d, hd, rfl, clear⟩
      | none =>
          by_cases separator : p c = true
          · simp [cutLast?, found, separator] at h
            obtain ⟨rfl, rfl⟩ := h
            exact ⟨c, separator, rfl, cutLast?_eq_none_iff.1 found⟩
          · simp [cutLast?, found, separator] at h

theorem eq_of_cutDoubleSlash? {cs before after : List Char}
    (h : cutDoubleSlash? cs = some (before, after)) :
    cs = before ++ '/' :: '/' :: after := by
  induction cs generalizing before with
  | nil => simp [cutDoubleSlash?] at h
  | cons c cs ih =>
      by_cases double : (c = '/' && cs.head? = some '/') = true
      · simp only [cutDoubleSlash?, double, if_true, Option.some.injEq, Prod.mk.injEq] at h
        simp only [Bool.and_eq_true, decide_eq_true_eq] at double
        obtain ⟨rfl, second⟩ := double
        obtain ⟨rfl, rfl⟩ := h
        cases cs with
        | nil => simp at second
        | cons d ds => simp_all
      · simp only [cutDoubleSlash?, double, if_false, Bool.false_eq_true] at h
        obtain ⟨parts, found, same⟩ := Option.map_eq_some_iff.1 h
        obtain ⟨rfl, rfl⟩ := Prod.mk.inj same
        rw [ih found]
        rfl

/-- The first double slash stands behind a part without slashes. -/
theorem cutDoubleSlash?_append {before : List Char} (clear : '/' ∉ before) (after : List Char) :
    cutDoubleSlash? (before ++ '/' :: '/' :: after) = some (before, after) := by
  induction before with
  | nil => rfl
  | cons c before ih =>
      have apart : c ≠ '/' := Ne.symm (List.ne_of_not_mem_cons clear)
      simp [cutDoubleSlash?, apart, ih (List.not_mem_of_not_mem_cons clear)]

/-- What stands before a character that is kept is kept as well. -/
theorem dropTrailing_append_cons {p : Char → Bool} {c : Char} (kept : p c = false)
    (before after : List Char) :
    dropTrailing p (before ++ c :: after) = before ++ c :: dropTrailing p after := by
  simp only [dropTrailing, List.reverse_append, List.reverse_cons, List.append_assoc,
    List.dropWhile_append]
  split
  · next gone =>
      rw [List.isEmpty_iff.1 gone]
      simp [kept]
  · simp

/-- What is left of a text without its trailing characters, and those characters. -/
theorem exists_trailing (p : Char → Bool) (cs : List Char) :
    ∃ trailing, dropTrailing p cs ++ trailing = cs ∧ ∀ c ∈ trailing, p c = true := by
  refine ⟨(cs.reverse.takeWhile p).reverse, ?_, ?_⟩
  · rw [dropTrailing, ← List.reverse_append, List.takeWhile_append_dropWhile, List.reverse_reverse]
  · intro c member
    rw [List.mem_reverse] at member
    exact List.all_eq_true.1 List.all_takeWhile c member

/-- Dropping at the end leaves the beginning as it is. -/
theorem dropTrailing_prefix_self (p : Char → Bool) (cs : List Char) : dropTrailing p cs <+: cs := by
  rcases exists_trailing p cs with ⟨trailing, whole, _⟩
  exact ⟨trailing, whole⟩

theorem dropTrailing_concat {p : Char → Bool} {c : Char} (gone : p c = true) (cs : List Char) :
    dropTrailing p (cs ++ [c]) = dropTrailing p cs := by
  simp [dropTrailing, gone]

/-- Nothing is dropped from a text exactly if its last character is kept. -/
theorem dropTrailing_eq_self_iff {p : Char → Bool} {cs : List Char} :
    dropTrailing p cs = cs ↔ ∀ c, cs.getLast? = some c → p c = false := by
  constructor
  · intro same c last
    rcases List.getLast?_eq_some_iff.mp last with ⟨before, rfl⟩
    apply Bool.eq_false_iff.mpr
    intro gone
    rw [dropTrailing_concat gone] at same
    have shorter := (dropTrailing_prefix_self p before).length_le
    have counted := congrArg List.length same
    rw [List.length_append, List.length_singleton] at counted
    omega
  · intro kept
    cases last : cs.getLast? with
    | none =>
        rw [List.getLast?_eq_none_iff.mp last]
        rfl
    | some c =>
        rcases List.getLast?_eq_some_iff.mp last with ⟨before, rfl⟩
        exact dropTrailing_append_cons (kept c last) before []

theorem dropTrailing_subset (p : Char → Bool) (cs : List Char) : dropTrailing p cs ⊆ cs :=
  (dropTrailing_prefix_self p cs).subset

theorem pieces_replicate {p : Char → Bool} {separator : Char} (isSeparator : p separator = true)
    (n : Nat) : pieces p (List.replicate n separator) = List.replicate (n + 1) [] := by
  induction n with
  | zero => rfl
  | succ n ih =>
      rw [List.replicate_succ, pieces, if_pos isSeparator, ih]
      rfl

/-- Separators at the end of a text add only empty pieces. -/
theorem filter_pieces_dropTrailing {p : Char → Bool} {separator : Char}
    (isSeparator : p separator = true) {keep : List Char → Bool} (passed : keep [] = false)
    (cs : List Char) :
    (pieces p (dropTrailing (· = separator) cs)).filter keep = (pieces p cs).filter keep := by
  rcases exists_trailing (· = separator) cs with ⟨trailing, whole, each⟩
  have same : trailing = List.replicate trailing.length separator :=
    List.eq_replicate_of_mem fun c member => of_decide_eq_true (each c member)
  rw [same] at whole
  cases counted : trailing.length with
  | zero =>
      rw [counted, List.replicate_zero, List.append_nil] at whole
      rw [whole]
  | succ n =>
      rw [counted, List.replicate_succ] at whole
      have empty : (List.replicate (n + 1) []).filter keep = [] :=
        List.filter_eq_nil_iff.2 fun piece member => by
          rw [List.eq_of_mem_replicate member, passed]
          exact Bool.false_ne_true
      calc (pieces p (dropTrailing (· = separator) cs)).filter keep
          = (pieces p (dropTrailing (· = separator) cs) ++ pieces p (List.replicate n separator)).filter
              keep := by
            rw [pieces_replicate isSeparator, List.filter_append, empty, List.append_nil]
        _ = (pieces p cs).filter keep := by rw [← pieces_append isSeparator, whole]

end Text
end RuleAnalysis
