import RuleAnalysis.Proofs.Analysis.Conduct
import RuleAnalysis.Proofs.Label.ActionAddress
import RuleAnalysis.Proofs.Label.Normalization

namespace RuleAnalysis

/-!
# Depmaps that are declared call by call

A depmap takes every entry that stays beneath its root and no other. Whether a
call fails depends on its path alone, so a call that has failed might as well
not have been made. What the calls have laid is recorded as one action, whose
id is final as soon as it is recorded: the address that is told is the one at
which the tree will be.
-/

namespace LabelPath

open Text

/-- Some beginning of the path has more climbs than names. -/
def LeadsOut (p : LabelPath) : Prop :=
  ∃ front, front <+: p.components ∧
    (front.countP fun component => decide (IsName component)) < front.count ['.', '.']

/-- The path of the root, or a path of names with one slash between each two of them. -/
def Plain (p : LabelPath) : Prop :=
  p = .top ∨ ∀ piece ∈ pieces (· = '/') p.chars, piece ≠ [] ∧ IsName piece

variable {p : LabelPath}

theorem leadsOut_iff : p.LeadsOut ↔ ¬ StaysWithin 0 p.components := by
  simp only [LeadsOut, StaysWithin, Nat.zero_add, not_forall, Nat.not_le, exists_prop]

/-- A path is refused for being absolute or else for leading out. -/
theorem normalizeDescending_eq_error_iff (p : LabelPath) (e : LabelError) :
    p.normalizeDescending = .error e ↔
      p.isAbsolute = true ∧ e = .absolutePath p.text ∨
        p.isAbsolute = false ∧ p.LeadsOut ∧ e = .escapesRoot p.text := by
  rw [leadsOut_iff]
  cases rooted : p.isAbsolute with
  | true => simp [normalizeDescending, rooted, eq_comm]
  | false =>
      by_cases inside : StaysWithin 0 p.components
      · have accepted := (p.normalizeDescending_eq_ok_iff p.normalize).mpr ⟨rfl, rooted, inside⟩
        simp [accepted, inside]
      · have climbing : ['.', '.'] ∈ p.normalize.components := by
          apply p.climb_mem_normalize_iff.mpr
          intro level
          exact inside ((destination_climbs_le_iff p rooted 0).mp (Nat.le_of_eq level))
        simp [normalizeDescending, rooted, climbing, inside, eq_comm]

theorem plain_of_normalizeDescending {q : LabelPath} (accepted : p.normalizeDescending = .ok q) :
    q.Plain := by
  rcases (p.normalizeDescending_eq_ok_iff q).mp accepted with ⟨rfl, relative, inside⟩
  have level : p.destination.climbs = 0 :=
    Nat.le_zero.mp ((destination_climbs_le_iff p relative 0).mpr inside)
  have straight : p.destination.path = p.destination.names.reverse := by
    rw [Position.path, level, List.replicate_zero, List.nil_append]
  have clear : ∀ name ∈ p.destination.names.reverse, name ≠ [] ∧ '/' ∉ name := by
    intro name member
    exact p.destination_path_clear (straight ▸ member)
  rw [Plain, normalize_eq, relative, straight, chars_ofComponents, if_neg Bool.false_ne_true]
  cases none : p.destination.names.reverse with
  | nil => exact .inl rfl
  | cons first others =>
      right
      rw [← none, pieces_glue (none ▸ List.cons_ne_nil _ _) fun name member => (clear name member).2]
      intro name member
      exact ⟨(clear name member).1, p.destination_proper.names name (List.mem_reverse.mp member)⟩

theorem isAbsolute_eq_false_of_normalizeDescending {q : LabelPath}
    (accepted : p.normalizeDescending = .ok q) : q.isAbsolute = false := by
  rcases (p.normalizeDescending_eq_ok_iff q).mp accepted with ⟨rfl, relative, _⟩
  rw [isAbsolute_normalize, relative]

/-- A path that comes to the root is accepted for it. -/
theorem normalizeDescending_of_normalize_eq_top (comes : p.normalize = .top) :
    p.normalizeDescending = .ok .top := by
  have relative : p.isAbsolute = false := by
    rw [← isAbsolute_normalize, comes]
    rfl
  have clear : ['.', '.'] ∉ top.components := by decide +kernel
  simp [normalizeDescending, relative, comes, clear]

end LabelPath

namespace Depmap

open LabelPath

/-- A call on a depmap that is being declared. -/
inductive Call where
  | insert (path : LabelPath) (entry : DepmapEntry)
  | merge (entry : DepmapEntry)

namespace Call

/-- Why a call fails. -/
inductive Fails : Call → LabelError → Prop
  | absolute {path : LabelPath} (entry : DepmapEntry) :
      path.isAbsolute = true → Fails (insert path entry) (.absolutePath path.text)
  | escaping {path : LabelPath} (entry : DepmapEntry) :
      path.isAbsolute = false → path.LeadsOut → Fails (insert path entry) (.escapesRoot path.text)

/-- The entry that a call lays, with its place. -/
def laid : Call → LabelPath × DepmapEntry
  | insert path entry => (path.normalize, entry)
  | merge entry => (.top, entry)

theorem fails_insert_iff (path : LabelPath) (entry : DepmapEntry) (e : LabelError) :
    (insert path entry).Fails e ↔ path.normalizeDescending = .error e := by
  rw [normalizeDescending_eq_error_iff]
  constructor
  · intro fails
    cases fails with
    | absolute _ rooted => exact .inl ⟨rooted, rfl⟩
    | escaping _ relative leadsOut => exact .inr ⟨relative, leadsOut, rfl⟩
  · rintro (⟨rooted, rfl⟩ | ⟨relative, leadsOut, rfl⟩)
    · exact .absolute entry rooted
    · exact .escaping entry relative leadsOut

theorem Fails.unique {c : Call} {e e' : LabelError} (fails : c.Fails e) (fails' : c.Fails e') :
    e = e' := by
  cases c with
  | merge entry => cases fails
  | insert path entry =>
      rw [fails_insert_iff] at fails fails'
      exact Except.error.inj (fails.symm.trans fails')

end Call

/-- What a call yields, and the depmap behind it. -/
def call (d : Depmap) : Call → Except LabelError Unit × Depmap
  | .insert path entry =>
      match d.insert path entry with
      | .ok laid => (.ok (), laid)
      | .error e => (.error e, d)
  | .merge entry => (.ok (), d.merge entry)

/-- What calls yield one after another, and the depmap behind them all. -/
def calls (d : Depmap) : List Call → List (Except LabelError Unit) × Depmap
  | [] => ([], d)
  | c :: rest =>
      let (outcome, d) := d.call c
      let (outcomes, d) := calls d rest
      (outcome :: outcomes, d)

/-- All that a call can do. -/
inductive Effect (d : Depmap) (c : Call) : Except LabelError Unit × Depmap → Prop
  | failed {e : LabelError} : c.Fails e → Effect d c (.error e, d)
  | laid : (∀ e, ¬ c.Fails e) → c.laid.1.isAbsolute = false → c.laid.1.Plain →
      Effect d c (.ok (), { d with entries := d.entries ++ [c.laid] })

theorem call_effect (d : Depmap) (c : Call) : d.Effect c (d.call c) := by
  cases c with
  | merge entry => exact .laid nofun rfl (.inl rfl)
  | insert path entry =>
      cases accepted : path.normalizeDescending with
      | error e =>
          have failed : d.call (.insert path entry) = (.error e, d) := by
            simp [call, insert, accepted, bind, Except.bind]
          rw [failed]
          exact .failed ((Call.fails_insert_iff path entry e).mpr accepted)
      | ok q =>
          have named : q = path.normalize := ((path.normalizeDescending_eq_ok_iff q).mp accepted).1
          subst named
          have laid : d.call (.insert path entry) =
              (.ok (), { d with entries := d.entries ++ [(path.normalize, entry)] }) := by
            simp [call, insert, accepted, bind, Except.bind, pure, Except.pure]
          rw [laid]
          refine .laid ?_ (isAbsolute_eq_false_of_normalizeDescending accepted)
            (plain_of_normalizeDescending accepted)
          intro e fails
          rw [Call.fails_insert_iff, accepted] at fails
          cases fails

/-! ## Calls one after another -/

section

variable (d : Depmap)

theorem calls_cons (c : Call) (rest : List Call) :
    d.calls (c :: rest) =
      ((d.call c).1 :: ((d.call c).2.calls rest).1, ((d.call c).2.calls rest).2) := rfl

theorem calls_append (earlier later : List Call) :
    d.calls (earlier ++ later) =
      ((d.calls earlier).1 ++ ((d.calls earlier).2.calls later).1,
        ((d.calls earlier).2.calls later).2) := by
  induction earlier generalizing d with
  | nil => rfl
  | cons c earlier ih =>
      rw [List.cons_append, calls_cons, ih, calls_cons]
      rfl

theorem calls_length (cs : List Call) : (d.calls cs).1.length = cs.length := by
  induction cs generalizing d with
  | nil => rfl
  | cons c rest ih => rw [calls_cons, List.length_cons, ih, List.length_cons]

/-- A call fails whenever it must and never otherwise, whatever has been laid before. -/
theorem calls_fail (cs : List Call) :
    List.Forall₂ (fun c outcome => ∀ e, outcome = .error e ↔ c.Fails e) cs (d.calls cs).1 := by
  induction cs generalizing d with
  | nil => exact .nil
  | cons c rest ih =>
      rw [calls_cons]
      refine .cons ?_ (ih _)
      intro e
      have effect := d.call_effect c
      generalize d.call c = made at effect ⊢
      cases effect with
      | laid unfailing => exact iff_of_false nofun (unfailing e)
      | failed fails =>
          constructor
          · intro same
            cases same
            exact fails
          · intro fails'
            rw [fails.unique fails']

/-- The entries of the calls that have succeeded stand behind those before, in the order of the
calls. -/
theorem calls_entries (cs : List Call) :
    (d.calls cs).2 = { d with
      entries := d.entries ++
        ((cs.zip (d.calls cs).1).filter fun made => made.2.isOk).map fun made => made.1.laid } := by
  induction cs generalizing d with
  | nil => simp [calls]
  | cons c rest ih =>
      rw [calls_cons]
      simp only
      rw [ih]
      have effect := d.call_effect c
      generalize d.call c = made at effect ⊢
      cases effect with
      | failed fails => simp [Except.isOk, Except.toBool]
      | laid _ _ _ => simp [Except.isOk, Except.toBool]

theorem calls_plain (cs : List Call)
    (before : ∀ entry ∈ d.entries, entry.1.isAbsolute = false ∧ entry.1.Plain) :
    ∀ entry ∈ (d.calls cs).2.entries, entry.1.isAbsolute = false ∧ entry.1.Plain := by
  induction cs generalizing d with
  | nil => exact before
  | cons c rest ih =>
      rw [calls_cons]
      apply ih
      have effect := d.call_effect c
      generalize d.call c = made at effect ⊢
      cases effect with
      | failed _ => exact before
      | laid _ relative plain =>
          intro entry member
          rcases List.mem_append.mp member with earlier | last
          · exact before entry earlier
          · rw [List.mem_singleton.mp last]
            exact ⟨relative, plain⟩

end

/-- A call that fails might as well not have been made. -/
theorem calls_without_failed (d : Depmap) (earlier later : List Call) {c : Call} {e : LabelError}
    (fails : c.Fails e) :
    d.calls (earlier ++ later) =
      ((d.calls (earlier ++ c :: later)).1.eraseIdx earlier.length,
        (d.calls (earlier ++ c :: later)).2) := by
  have unchanged (before : Depmap) : (before.call c).2 = before := by
    have effect := before.call_effect c
    generalize before.call c = made at effect ⊢
    cases effect with
    | failed _ => rfl
    | laid unfailing => exact absurd fails (unfailing e)
  have sized := d.calls_length earlier
  rw [calls_append, calls_append, calls_cons, unchanged, ← sized]
  simp only [List.eraseIdx_append_of_length_le (Nat.le_refl _), Nat.sub_self, List.eraseIdx_zero,
    List.tail_cons]

/-- Laying an entry at a path that comes to the root is laying it over the whole tree. -/
theorem call_insert_top (d : Depmap) {path : LabelPath} (comes : path.normalize = .top)
    (entry : DepmapEntry) : d.call (.insert path entry) = d.call (.merge entry) := by
  simp [call, insert, merge, normalizeDescending_of_normalize_eq_top comes, bind, Except.bind, pure,
    Except.pure]

/-! ## Building -/

/-- The action that a depmap is recorded as. -/
theorem action_eq (d : Depmap) : d.action = ⟨d.id, "BuildDepmap", "", .buildDepmap d.entries⟩ := by
  rcases d with ⟨id, entries⟩
  cases id <;> rfl

/-- A depmap is declared by calls and then built. A call fails exactly if its path is absolute or
leads above the root somewhere on its way; the other calls then do what they would have done without
it. The entries are those of the calls that have succeeded, in their order and each at a plain path.
An entry for the whole tree may be laid at any path that comes to the root. Building records one
action with these entries and tells its address: its id, behind a colon, behind the owner without a
single slash at its end. The action stays as it is whatever becomes of the others. -/
theorem building_records_what_stays_beneath (id : Option String) (calls : List Call) {ν : Type}
    (desk : Desk ν) (next : Label → Routine ν) :
    let made := (empty id).calls calls
    let action : Action := ⟨id, "BuildDepmap", "", .buildDepmap made.2.entries⟩
    let address : Label := .ofChars (desk.context.label.front ++ ':' :: action.id.toList)
    List.Forall₂ (fun call outcome => ∀ e, outcome = .error e ↔ call.Fails e) calls made.1 ∧
    (∀ earlier call later e, calls = earlier ++ call :: later → call.Fails e →
      (empty id).calls (earlier ++ later) = (made.1.eraseIdx earlier.length, made.2)) ∧
    made.2.entries =
      ((calls.zip made.1).filter fun called => called.2.isOk).map (fun called => called.1.laid) ∧
    (∀ entry ∈ made.2.entries, entry.1.isAbsolute = false ∧ entry.1.Plain) ∧
    (∀ earlier path entry later, calls = earlier ++ .merge entry :: later →
      path.normalize = .top ∨ path = .parse "" ∨ path = .parse "." →
        (empty id).calls (earlier ++ .insert path entry :: later) = made) ∧
    (Routine.build made.2 next).program.settle desk =
      (next address).program.settle
        { desk with context :=
          { desk.context with actions := desk.context.actions ++ [action] } } ∧
    action.files desk.context.label = address ∧
    ∀ given later, Action.Evolve given (desk.context.actions ++ [action]) later →
      later[desk.context.actions.length]? = some action := by
  intro made action address
  have entries := (empty id).calls_entries calls
  have built : made.2.action = action := by
    rw [action_eq]
    have named : made.2.id = id := congrArg Depmap.id entries
    rw [named]
  have told : action.files desk.context.label = address :=
    desk.context.label.joinAction_eq action.id
  refine ⟨(empty id).calls_fail calls, ?_, congrArg Depmap.entries entries,
    (empty id).calls_plain calls nofun, ?_, ?_, told, ?_⟩
  · intro earlier call later e listed fails
    have without := calls_without_failed (empty id) earlier later fails
    rwa [← listed] at without
  · intro earlier path entry later listed place
    have comes : path.normalize = .top := by
      rcases place with comes | rfl | rfl
      · exact comes
      · decide
      · decide
    have same := call_insert_top ((empty id).calls earlier).2 comes entry
    change _ = (empty id).calls calls
    rw [listed, calls_append, calls_append, calls_cons, calls_cons, same]
  · rw [Routine.program, built, ← told]
    rfl
  · intro given later evolve
    have prepared : action.needsPlatform = false := rfl
    exact evolve.prepared List.getElem?_concat_length prepared

/-! ## A tree of headers

The owner's label ends with a slash. Of three calls the one whose path climbs out and comes back is
refused, and what is behind it is laid all the same.
-/

namespace HeaderTree

def header : DepmapEntry := .file "int answer;" false

def lib : DepmapEntry := .reference ⟨"//lib:headers"⟩

def inside : Call := .insert ⟨"include/./a.h"⟩ header

def outside : Call := .insert ⟨"include/../../pkg/b.h"⟩ header

def declared : List (Except LabelError Unit) × Depmap :=
  (empty (some "headers")).calls [inside, outside, .merge lib]

/-- An action has been recorded before. -/
def desk : Desk Unit :=
  ⟨{ Context.ofTarget ⟨.builtin "rules" "Headers", []⟩ "headers" ⟨"//pkg/"⟩ [] ⟨[], []⟩ with
    actions := [.ofData (.buildDepmap [])] }, (), .empty⟩

/-- The target comes to the address of the tree. -/
def routine : Routine Unit := .build declared.2 fun tree => .finish (.ok (.label tree))

def recorded : Action :=
  ⟨some "headers", "BuildDepmap", "", .buildDepmap [(⟨"include/a.h"⟩, header), (⟨""⟩, lib)]⟩

end HeaderTree

open HeaderTree in
/-- The calls that succeed are recorded, and the tree will be at `//pkg:headers`. -/
theorem building_records_headers :
    declared.1 = [.ok (), .error (.escapesRoot "include/../../pkg/b.h"), .ok ()] ∧
    (∀ e, ¬ inside.Fails e) ∧ outside.Fails (.escapesRoot "include/../../pkg/b.h") ∧
    (empty (some "headers")).calls [inside, .merge lib] = ([.ok (), .ok ()], declared.2) ∧
    (empty (some "headers")).calls [inside, outside, .insert ⟨"include/.."⟩ lib] = declared ∧
    declared.2.entries = [(⟨"include/a.h"⟩, header), (⟨""⟩, lib)] ∧
    routine.program.settle desk =
      (.done (.ok (.label ⟨"//pkg:headers"⟩)),
        { desk with context :=
          { desk.context with actions := desk.context.actions ++ [recorded] } }) := by
  rcases building_records_what_stays_beneath (some "headers") [inside, outside, .merge lib] desk
    (fun tree => .finish (.ok (.label tree))) with ⟨fail, without, _, _, place, built, _, _⟩
  have outcomes : declared.1 = [.ok (), .error (.escapesRoot "include/../../pkg/b.h"), .ok ()] := by
    decide +kernel
  have entries : declared.2.entries = [(⟨"include/a.h"⟩, header), (⟨""⟩, lib)] := by decide +kernel
  have address : Label.ofChars (desk.context.label.front ++ ':' :: "headers".toList) =
      ⟨"//pkg:headers"⟩ := by decide +kernel
  change List.Forall₂ _ _ declared.1 at fail
  rw [outcomes] at fail
  rcases List.forall₂_cons.mp fail with ⟨first, fail⟩
  have refused := ((List.forall₂_cons.mp fail).1 _).mp rfl
  refine ⟨outcomes, ?_, refused, ?_, ?_, entries, ?_⟩
  · intro e fails
    cases (first e).mpr fails
  · have omitted := without [inside] outside [.merge lib] _ rfl refused
    change _ = (declared.1.eraseIdx 1, declared.2) at omitted
    rw [outcomes] at omitted
    exact omitted
  · exact place [inside, outside] ⟨"include/.."⟩ lib [] rfl (.inl (by decide))
  · rw [← address, recorded, ← entries]
    exact built

end Depmap

end RuleAnalysis
