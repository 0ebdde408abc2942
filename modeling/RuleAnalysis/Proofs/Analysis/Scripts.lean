import RuleAnalysis.Analysis.Script
import RuleAnalysis.Proofs.Depmap.Building
import RuleAnalysis.Proofs.Schedule.Passage
import RuleAnalysis.Proofs.Schema.Bindings

namespace RuleAnalysis

/-!
# Scripts thread their tree

The steps of a script are recorded two actions at a time: the program, and the
depmap that lays what the program puts out over the tree in which it works. The
tree of the next step is the address of that depmap, which takes in the digest
of the program as it is once it has been given a platform. So each step names
its past, and what it names is there.
-/

variable {ν : Type}

/-! ## Work that yields something -/

/-- The work succeeds, whatever is to be done with its result. -/
def Work.Yields {α : Type} (work : Work ν α) (desk : Desk ν) (trips : List (Trip (Desk ν) Request))
    (a : α) (desk' : Desk ν) : Prop :=
  ∀ next : Except AnalysisError α → Routine ν,
    (work next).program.Leads desk trips (next (.ok a)).program desk'

namespace Work.Yields

variable {α β : Type} {desk desk' desk'' : Desk ν} {xs ys : List (Trip (Desk ν) Request)}

theorem pure (a : α) (desk : Desk ν) : (Pure.pure a : Work ν α).Yields desk [] a desk :=
  fun next => .here (next (.ok a)).program desk

theorem bind {work : Work ν α} {more : α → Work ν β} {a : α} {b : β}
    (first : work.Yields desk xs a desk') (later : (more a).Yields desk' ys b desk'') :
    (work >>= more).Yields desk (xs ++ ys) b desk'' :=
  fun next => (first _).trans (later next)

theorem record (a : Action) (desk : Desk ν) :
    (Work.record a).Yields desk [] desk.context.actions.length
      (desk.changeContext (·.record a)) :=
  fun next => .read (.write (.here (next (.ok _)).program _))

theorem build (depmap : Depmap) (desk : Desk ν) :
    (Work.build depmap).Yields desk [] (depmap.action.files desk.context.label)
      (desk.changeContext (·.record depmap.action)) :=
  fun next => .read (.write (.here (next (.ok _)).program _))

theorem files {place : Nat} {tree : Label}
    (located : (AnalysisProcedure.locate place).Yields desk xs (.ok tree) desk') :
    (Work.files place).Yields desk xs tree desk' :=
  fun next => .perform located fun tree => (next tree).program

end Work.Yields

/-! ## Hosts that supply their platform -/

/-- The platform of the host is not needed, or it has been kept, or the host is asked for it once
and hands it over. Files may be handed over on the same occasion. -/
inductive Context.Supplied (c : Context) (platform : Provider) (needed : Bool) :
    List (Trip (Desk ν) Request) → (OpenFiles → OpenFiles) → Prop
  | needless : needed = false → Supplied c platform needed [] id
  | kept : c.executePlatform = some platform → Supplied c platform needed [] id
  | asked {type : TypeRef} (files : OpenFiles → OpenFiles) :
      needed = true → c.executePlatform = none → c.executePlatformType = .ok type →
      Supplied c platform needed
        [⟨.query (.loadGlobalProvider type (c.config.forRequest true)), .provider platform,
          fun desk => { desk with files := files desk.files }⟩] files

namespace Context

/-- A context in which some actions have been recorded and, if it was needed, the platform of the
host has been kept. -/
def recording (c : Context) (platform : Provider) (needed : Bool) (recorded : List Action) :
    Context :=
  { c with
    actions := c.actions ++ recorded
    executePlatform := if needed then some platform else c.executePlatform }

variable {c : Context} {platform : Provider}

theorem recording_recording (needed needed' : Bool) (recorded recorded' : List Action) :
    (c.recording platform needed recorded).recording platform needed' recorded' =
      c.recording platform (needed || needed') (recorded ++ recorded') := by
  cases needed <;> cases needed' <;> simp [recording]

theorem Supplied.of_alike {c c' : Context} {needed : Bool} {trips : List (Trip (Desk ν) Request)}
    {files : OpenFiles → OpenFiles} (supplied : c.Supplied platform needed trips files)
    (platforms : c'.executePlatform = c.executePlatform) (configs : c'.config = c.config) :
    c'.Supplied platform needed trips files := by
  cases supplied with
  | needless none_needed => exact .needless none_needed
  | kept kept => exact .kept (platforms.trans kept)
  | asked _ some_needed absent known =>
      rw [← configs]
      refine .asked files some_needed (platforms.trans absent) ?_
      rw [executePlatformType, configs]
      exact known

theorem Supplied.eq_of_needless {trips : List (Trip (Desk ν) Request)}
    {files : OpenFiles → OpenFiles} (supplied : c.Supplied platform false trips files) :
    trips = [] ∧ files = id := by
  cases supplied with
  | needless _ => exact ⟨rfl, rfl⟩
  | kept _ => exact ⟨rfl, rfl⟩
  | asked _ impossible => cases impossible

/-- Where two need the platform one after the other, the host is asked by one of them at most. -/
theorem Supplied.split {needed needed' : Bool} {trips : List (Trip (Desk ν) Request)}
    {files : OpenFiles → OpenFiles}
    (supplied : c.Supplied platform (needed || needed') trips files) :
    ∃ xs ys opened opened', trips = xs ++ ys ∧ files = opened' ∘ opened ∧
      c.Supplied platform needed xs opened ∧
      ∀ recorded, (c.recording platform needed recorded).Supplied platform needed' ys opened' := by
  cases supplied with
  | needless none_needed =>
      rcases Bool.or_eq_false_iff.mp none_needed with ⟨first, second⟩
      exact ⟨[], [], id, id, rfl, rfl, .needless first, fun _ => .needless second⟩
  | kept kept =>
      refine ⟨[], [], id, id, rfl, rfl, .kept kept, fun _ => .kept ?_⟩
      rw [recording]
      split
      · rfl
      · exact kept
  | asked _ some_needed absent known =>
      cases needed with
      | true =>
          exact ⟨_, [], files, id, rfl, rfl, .asked files rfl absent known, fun _ => .kept rfl⟩
      | false =>
          exact ⟨[], _, id, files, rfl, rfl, .needless rfl,
            fun _ => .asked files some_needed absent known⟩

end Context

namespace Desk

variable {desk : Desk ν} {platform : Provider}

def recording (desk : Desk ν) (platform : Provider) (needed : Bool) (recorded : List Action)
    (files : OpenFiles → OpenFiles) : Desk ν :=
  ⟨desk.context.recording platform needed recorded, desk.notes, files desk.files⟩

theorem actions_recording (needed : Bool) (recorded : List Action) (files : OpenFiles → OpenFiles) :
    (desk.recording platform needed recorded files).context.actions =
      desk.context.actions ++ recorded := rfl

theorem recording_recording (needed needed' : Bool) (recorded recorded' : List Action)
    (files files' : OpenFiles → OpenFiles) :
    (desk.recording platform needed recorded files).recording platform needed' recorded' files' =
      desk.recording platform (needed || needed') (recorded ++ recorded') (files' ∘ files) := by
  rw [recording, recording, recording, Context.recording_recording]
  rfl

theorem recording_nothing (desk : Desk ν) (platform : Provider) :
    desk.recording platform false [] id = desk := by
  simp [recording, Context.recording]

theorem changeContext_record (desk : Desk ν) (platform : Provider) (a : Action) :
    desk.changeContext (·.record a) = desk.recording platform false [a] id := rfl

theorem changeContext_keepPlatform (desk : Desk ν) (platform : Provider)
    (files : OpenFiles → OpenFiles) :
    Desk.changeContext { desk with files := files desk.files } (·.keepPlatform platform) =
      desk.recording platform true [] files := by
  simp [recording, Context.recording, changeContext, Context.keepPlatform]

theorem recording_record (needed : Bool) (recorded : List Action) (files : OpenFiles → OpenFiles)
    (a : Action) :
    (desk.recording platform needed recorded files).changeContext (·.record a) =
      desk.recording platform needed (recorded ++ [a]) files := by
  rw [changeContext_record _ platform, recording_recording, Bool.or_false, Function.id_comp]

theorem recording_fillPlatforms (a : Action) (files : OpenFiles → OpenFiles) :
    (desk.recording platform true [a] files).changeContext
        (·.fillPlatforms [desk.context.actions.length] platform) =
      desk.recording platform true [a.fillPlatform platform] files := by
  simp [recording, Context.recording, changeContext, Context.fillPlatforms, modify_length_append]

theorem recording_kept (kept : desk.context.executePlatform = some platform) :
    desk.recording platform true [] id = desk := by
  simp [recording, Context.recording, ← kept]

end Desk

namespace AnalysisProcedure

variable {desk : Desk ν} {platform : Provider} {trips : List (Trip (Desk ν) Request)}
  {files : OpenFiles → OpenFiles}

theorem yields_hostPlatform (supplied : desk.context.Supplied platform true trips files) :
    hostPlatform.Yields desk trips (.ok platform) (desk.recording platform true [] files) := by
  refine .read ?_
  cases supplied with
  | needless impossible => cases impossible
  | kept kept =>
      rw [kept, Desk.recording_kept kept]
      exact .done (Except.ok platform) desk
  | asked files _ absent known =>
      simp only [absent, known]
      rw [← Desk.changeContext_keepPlatform]
      exact .ask (.modify _ _ _)

/-- The last action that has been recorded is given the platform if it lacks one. -/
theorem yields_prepare_last {a : Action}
    (supplied : desk.context.Supplied platform a.needsPlatform trips files) :
    (prepare desk.context.actions.length).Yields (desk.changeContext (·.record a)) trips (.ok ())
      (desk.recording platform a.needsPlatform [a.fillPlatform platform] files) := by
  rw [Desk.changeContext_record desk platform]
  refine .read ?_
  rw [Desk.actions_recording, List.getElem?_concat_length, Option.any_some]
  cases needs : a.needsPlatform with
  | false =>
      rw [needs] at supplied
      rcases supplied.eq_of_needless with ⟨rfl, rfl⟩
      rw [Action.fillPlatform_prepared needs]
      exact .done (Except.ok ()) _
  | true =>
      rw [needs] at supplied
      have still : (desk.recording platform false [a] id).context.Supplied platform true trips
          files := supplied.of_alike rfl rfl
      have asked := yields_hostPlatform still
      rw [Desk.recording_recording] at asked
      rw [← Desk.recording_fillPlatforms]
      exact asked.andThen_quiet (.modify _ _ _)

theorem yields_recorded {place : Nat} {a : Action}
    (found : desk.context.actions[place]? = some a) :
    (recorded place).Yields desk [] (.ok (a, desk.context.actions)) desk := by
  refine .read ?_
  rw [found]
  exact .done (Except.ok (a, desk.context.actions)) desk

/-- Its address is told as it is then. -/
theorem yields_locate_last {a : Action}
    (supplied : desk.context.Supplied platform a.needsPlatform trips files) :
    (locate desk.context.actions.length).Yields (desk.changeContext (·.record a)) trips
      (.ok ((a.fillPlatform platform).files desk.context.label))
      (desk.recording platform a.needsPlatform [a.fillPlatform platform] files) := by
  have last : (desk.recording platform a.needsPlatform [a.fillPlatform platform]
      files).context.actions[desk.context.actions.length]? = some (a.fillPlatform platform) :=
    List.getElem?_concat_length
  have identified : (identify desk.context.actions.length).Yields
      (desk.changeContext (·.record a)) trips (.ok (a.fillPlatform platform).id)
      (desk.recording platform a.needsPlatform [a.fillPlatform platform] files) := by
    refine (yields_prepare_last supplied).andThen_quiet ?_
    exact (yields_recorded last).andThen_quiet (.done _ _)
  exact identified.andThen_quiet (.read (.done _ _))

end AnalysisProcedure

/-! ## One step -/

theorem Action.fillPlatform_run (r : Run) (platform : Provider) :
    (Action.ofData (.run r)).fillPlatform platform =
      .ofData (.run { r with platform := some (r.platform.getD platform) }) := by
  rcases r with ⟨e, args, input, cwd, env, files, held, out, err, messages⟩
  cases held <;> rfl

/-- The trees that an action names: the one it works in, or those it lays over each other. -/
def Action.trees (a : Action) : List Label :=
  match a.data with
  | .run r => r.input.toList
  | .buildDepmap entries => entries.filterMap fun entry =>
      match entry.2 with
      | .reference tree => some tree
      | .filter tree _ _ => some tree
      | _ => none
  | _ => []

namespace Depmap

/-- A depmap of trees that are laid over each other. -/
theorem action_foldl_mergeTree (trees : List Label) :
    (trees.foldl mergeTree (.empty none)).action =
      .ofData (.buildDepmap (trees.map fun tree => (.top, .reference tree))) := by
  have entries : ∀ d : Depmap, trees.foldl mergeTree d =
      { d with entries := d.entries ++ trees.map fun tree => (.top, .reference tree) } := by
    induction trees with
    | nil => intro d; simp
    | cons tree rest ih => intro d; simp [ih, mergeTree, merge]
  rw [entries]
  rfl

end Depmap

namespace Script

section

variable (owner : Label) (platform : Provider)

/-- What a step runs: the step as it was given, with the environment of the script beneath its own,
in the tree that the script has come to. -/
def program (s : Script) (r : Run) : Action :=
  .ofData (.run { r with
    environment := Dictionary.override s.environment r.environment
    input := s.tree
    platform := some (r.platform.getD platform) })

/-- What a step builds: its outputs over the tree in which it has worked. -/
def overlay (s : Script) (r : Run) : Action :=
  .ofData (.buildDepmap ((s.tree.toList ++ [(s.program platform r).files owner]).map fun tree =>
    (.top, .reference tree)))

/-- The script behind a step. -/
def behind (s : Script) (r : Run) : Script :=
  { s with tree := some ((s.overlay owner platform r).files owner) }

end

section

variable {desk : Desk ν} {platform : Provider} {trips : List (Trip (Desk ν) Request)}
  {files : OpenFiles → OpenFiles}

/-- One step records its program and its overlay, which goes with the program as it is behind the
preparation. -/
theorem yields_run (s : Script) {r : Run}
    (supplied : desk.context.Supplied platform r.platform.isNone trips files) :
    let owner := desk.context.label
    (s.run r : Work ν (Nat × Script)).Yields desk trips
      (desk.context.actions.length, s.behind owner platform r)
      (desk.recording platform r.platform.isNone
        [s.program platform r, s.overlay owner platform r] files) := by
  intro owner
  let given : Action := .ofData (.run { r with
    environment := Dictionary.override s.environment r.environment
    input := s.tree })
  let prepared := desk.recording platform r.platform.isNone [s.program platform r] files
  have located : (AnalysisProcedure.locate desk.context.actions.length).Yields
      (desk.changeContext (·.record given)) trips (.ok ((s.program platform r).files owner))
      prepared := by
    have filled : given.fillPlatform platform = s.program platform r :=
      Action.fillPlatform_run _ platform
    have located := AnalysisProcedure.yields_locate_last (a := given) supplied
    rwa [filled] at located
  have recorded : prepared.changeContext (·.record (s.overlay owner platform r)) =
      desk.recording platform r.platform.isNone
        [s.program platform r, s.overlay owner platform r] files :=
    Desk.recording_record _ _ _ _
  have built := Work.Yields.build ((s.tree.toList ++ [(s.program platform r).files owner]).foldl
    Depmap.mergeTree (.empty none)) prepared
  rw [Depmap.action_foldl_mergeTree] at built
  rw [← recorded]
  have whole : trips = [] ++ (trips ++ ([] ++ [])) := by simp
  rw [whole]
  exact (Work.Yields.record given desk).bind
    ((Work.Yields.files located).bind (built.bind (.pure _ _)))

end

/-! ## All steps -/

/-- Does steps one after another. Yields the place of each and the script behind it. -/
def runAll (s : Script) : List Run → Work ν (List (Nat × Script))
  | [] => return []
  | r :: rest => do
      let result ← s.run r
      return result :: (← runAll result.2 rest)

section

variable (owner : Label) (platform : Provider)

/-- What the steps record. -/
def recorded (s : Script) : List Run → List Action
  | [] => []
  | r :: rest =>
      s.program platform r :: s.overlay owner platform r ::
        recorded (s.behind owner platform r) rest

/-- What the steps yield if the first is recorded in the given place. -/
def results (s : Script) (place : Nat) : List Run → List (Nat × Script)
  | [] => []
  | r :: rest =>
      (place, s.behind owner platform r) ::
        results (s.behind owner platform r) (place + 2) rest

end

theorem yields_runAll (s : Script) {runs : List Run} {desk : Desk ν} {platform : Provider}
    {trips : List (Trip (Desk ν) Request)} {files : OpenFiles → OpenFiles}
    (supplied : desk.context.Supplied platform (runs.any (·.platform.isNone)) trips files) :
    let owner := desk.context.label
    (s.runAll runs : Work ν (List (Nat × Script))).Yields desk trips
      (s.results owner platform desk.context.actions.length runs)
      (desk.recording platform (runs.any (·.platform.isNone))
        (s.recorded owner platform runs) files) := by
  induction runs generalizing s desk trips files with
  | nil =>
      intro owner
      rcases supplied.eq_of_needless with ⟨rfl, rfl⟩
      have same : desk.recording platform false (s.recorded owner platform []) id = desk :=
        desk.recording_nothing platform
      rw [List.any_nil, same]
      exact .pure [] desk
  | cons r rest ih =>
      intro owner
      rw [List.any_cons] at supplied
      rcases supplied.split with ⟨xs, ys, opened, opened', rfl, rfl, first, later⟩
      let next := desk.recording platform r.platform.isNone
        [s.program platform r, s.overlay owner platform r] opened
      have counted : next.context.actions.length = desk.context.actions.length + 2 := by
        rw [Desk.actions_recording, List.length_append]
        rfl
      have others : ((s.behind owner platform r).runAll rest :
          Work ν (List (Nat × Script))).Yields next ys
          ((s.behind owner platform r).results owner platform next.context.actions.length rest)
          (next.recording platform (rest.any (·.platform.isNone))
            ((s.behind owner platform r).recorded owner platform rest) opened') :=
        ih (s.behind owner platform r) (later _)
      rw [counted, Desk.recording_recording] at others
      have whole : xs ++ ys = xs ++ (ys ++ []) := by rw [List.append_nil]
      rw [List.any_cons, whole]
      exact (s.yields_run first).bind (others.bind (.pure _ _))

/-! ## What a step names -/

/-- The tree in which a step works: that of the script at first, and then the one behind the step
before. -/
def treeBefore (s : Script) (results : List (Nat × Script)) : Nat → Option Label
  | 0 => s.tree
  | i + 1 => results[i]?.bind fun result => result.2.tree

section

variable (owner : Label) (platform : Provider)

theorem length_recorded (s : Script) (runs : List Run) :
    (s.recorded owner platform runs).length = 2 * runs.length := by
  induction runs generalizing s with
  | nil => rfl
  | cons r rest ih =>
      rw [recorded, List.length_cons, List.length_cons, ih, List.length_cons]
      omega

theorem length_results (s : Script) (place : Nat) (runs : List Run) :
    (s.results owner platform place runs).length = runs.length := by
  induction runs generalizing s place with
  | nil => rfl
  | cons r rest ih => rw [results, List.length_cons, ih, List.length_cons]

/-- Behind some steps there is a script with the environment of the first one, and it does the next
step. -/
theorem exists_step (s : Script) (place : Nat) {runs : List Run} {i : Nat} {r : Run}
    (given : runs[i]? = some r) :
    ∃ here : Script, here.environment = s.environment ∧
      here.tree = s.treeBefore (s.results owner platform place runs) i ∧
      (s.recorded owner platform runs)[2 * i]? = some (here.program platform r) ∧
      (s.recorded owner platform runs)[2 * i + 1]? = some (here.overlay owner platform r) ∧
      (s.results owner platform place runs)[i]? =
        some (place + 2 * i, here.behind owner platform r) := by
  induction runs generalizing s place i with
  | nil => cases given
  | cons first rest ih =>
      cases i with
      | zero =>
          cases given
          exact ⟨s, rfl, rfl, rfl, rfl, rfl⟩
      | succ i =>
          rcases ih (s.behind owner platform first) (place + 2) given with
            ⟨here, environment, tree, program, overlay, result⟩
          refine ⟨here, environment, ?_, program, overlay, ?_⟩
          · rw [tree]
            cases i <;> rfl
          · have moved : place + 2 + 2 * i = place + 2 * (i + 1) := by omega
            rw [moved] at result
            exact result

theorem mem_trees_program {s : Script} {r : Run} {tree : Label} :
    tree ∈ (s.program platform r).trees ↔ s.tree = some tree :=
  Option.mem_toList

theorem mem_trees_overlay {s : Script} {r : Run} {tree : Label} :
    tree ∈ (s.overlay owner platform r).trees ↔
      s.tree = some tree ∨ (s.program platform r).files owner = tree := by
  simp [overlay, Action.trees, Action.ofData, List.filterMap_append, eq_comm]

/-- The trees that are named are those of earlier actions, apart from the first. -/
theorem named_earlier (s : Script) {runs : List Run} {k : Nat} {a : Action} {tree : Label}
    (found : (s.recorded owner platform runs)[k]? = some a) (named : tree ∈ a.trees) :
    s.tree = some tree ∨ ∃ j b, j < k ∧ (s.recorded owner platform runs)[j]? = some b ∧
      b.files owner = tree := by
  induction runs generalizing s k with
  | nil => cases found
  | cons r rest ih =>
      match k with
      | 0 =>
          cases found
          exact .inl ((mem_trees_program platform).mp named)
      | 1 =>
          cases found
          rcases (mem_trees_overlay owner platform).mp named with before | output
          · exact .inl before
          · exact .inr ⟨0, s.program platform r, Nat.one_pos, rfl, output⟩
      | k + 2 =>
          right
          rcases ih (s.behind owner platform r) found with before | ⟨j, b, earlier, there, same⟩
          · exact ⟨1, s.overlay owner platform r, by omega, rfl, Option.some.inj before⟩
          · exact ⟨j + 2, b, by omega, there, same⟩

theorem recorded_prepared (s : Script) (runs : List Run) :
    ∀ a ∈ s.recorded owner platform runs, a.needsPlatform = false := by
  induction runs generalizing s with
  | nil =>
      intro a member
      cases member
  | cons r rest ih =>
      rw [recorded, List.forall_mem_cons, List.forall_mem_cons]
      exact ⟨rfl, rfl, ih (s.behind owner platform r)⟩

end

/-- A name has the value that the step gives it, or else the one that the script does. -/
theorem get?_environment (s : Script) {r : Run} (ordered : r.environment.Ordered) (name : String) :
    (Dictionary.override s.environment r.environment).get? name =
      (r.environment.get? name).or (s.environment.get? name) := by
  rw [Dictionary.get?_override, Dictionary.lookup_reverse ordered.nodup]

/-- A script threads its tree through its steps. With a host that supplies its platform if it is
asked, all steps are done, one after another, and what comes behind them finds what they have
recorded: for each step a program and a depmap, in this order. The program is the step as it was
given, in the tree of the step before, with a platform, and with the environment of the script
beneath its own and nothing else. The depmap lays what the program puts out over that tree, and its
address is the tree of the script behind the step. All of it is prepared, and whatever tree it names
is that of an action recorded earlier, but for the one that the script was given at first. -/
theorem steps_thread_tree (s : Script) (runs : List Run) (desk : Desk ν) (platform : Provider)
    {trips : List (Trip (Desk ν) Request)} {files : OpenFiles → OpenFiles}
    (supplied : desk.context.Supplied platform (runs.any (·.platform.isNone)) trips files) :
    let owner := desk.context.label
    let place := desk.context.actions.length
    ∃ (results : List (Nat × Script)) (recorded : List Action),
      let final := desk.recording platform (runs.any (·.platform.isNone)) recorded files
      (∀ (next : Except AnalysisError (List (Nat × Script)) → Routine ν)
          (more : List (Visit (Desk ν))),
        (TaskOf.ofProgram (s.runAll runs next).program).course desk
            (⟨[], id⟩ :: (trips.map Trip.visit ++ more)) =
          (trips.map fun trip => [trip.request]).foldr Course.after
            ((TaskOf.ofProgram (next (.ok results)).program).course final (⟨[], id⟩ :: more))) ∧
      results.length = runs.length ∧ recorded.length = 2 * runs.length ∧
      (∀ i r, runs[i]? = some r →
        let before := s.treeBefore results i
        let run : Run := { r with
          environment := Dictionary.override s.environment r.environment
          input := before
          platform := some (r.platform.getD platform) }
        let program : Action := .ofData (.run run)
        let overlay : Action := .ofData (.buildDepmap
          ((before.toList ++ [program.files owner]).map fun tree => (.top, .reference tree)))
        recorded[2 * i]? = some program ∧ recorded[2 * i + 1]? = some overlay ∧
        (r.environment.Ordered → ∀ name, run.environment.get? name =
          (r.environment.get? name).or (s.environment.get? name)) ∧
        results[i]? = some (place + 2 * i, ⟨s.environment, some (overlay.files owner)⟩)) ∧
      (∀ a ∈ recorded, a.needsPlatform = false) ∧
      ∀ (k : Nat) (a : Action) (tree : Label), recorded[k]? = some a → tree ∈ a.trees →
        s.tree = some tree ∨
          ∃ (j : Nat) (b : Action), j < k ∧ recorded[j]? = some b ∧ b.files owner = tree := by
  intro owner place
  refine ⟨s.results owner platform place runs, s.recorded owner platform runs, ?_,
    s.length_results owner platform place runs, s.length_recorded owner platform runs, ?_,
    s.recorded_prepared owner platform runs, ?_⟩
  · intro next more
    exact (s.yields_runAll supplied next).course (Routine.live _) more
  · intro i r given before run program' overlay'
    rcases s.exists_step owner platform place given with
      ⟨here, environment, tree, program, overlay, result⟩
    rcases here with ⟨_, _⟩
    cases environment
    cases tree
    exact ⟨program, overlay, fun ordered => s.get?_environment ordered, result⟩
  · intro k a tree found named
    exact s.named_earlier owner platform found named

/-! ## Two steps -/

namespace Configured

open PlainTarget

def source : Label := ⟨"//pkg:src"⟩

def script : Script := ⟨[("LANG", "C")], some source⟩

def command (name : String) (environment : Dictionary String) : Run :=
  { Run.ofCommand ⟨none, none, name, [], []⟩ [] with environment := environment }

def configure : Run := command "configure" [("CC", "clang")]

def make : Run := command "make" []

def asked : Request :=
  .query (.loadGlobalProvider LinuxExecutePlatform.reference (desk.context.config.forRequest true))

def trip : Trip (Desk Unit) Request := ⟨asked, .provider platform, fun desk => desk⟩

theorem supplied :
    desk.context.Supplied platform ([configure, make].any (·.platform.isNone)) [trip] id :=
  .asked id (by decide) rfl (by decide +kernel)

/-- The course of a routine that does both steps. -/
def course : Course (Desk Unit) Outcome Request :=
  (TaskOf.ofProgram (script.runAll [configure, make] fun _ => .finish (.ok .null)).program).course
    desk [⟨[], id⟩, trip.visit]

end Configured

open Configured PlainTarget in
/-- The compiler that is set for the first step is not set for the second. -/
theorem steps_thread_tree_configured :
    course.batches = [[asked]] ∧ course.ending = some (.ok (.ok .null)) ∧
    ∃ (configured made : Run) (overlay : Action),
      course.state.context.actions[0]? = some (.ofData (.run configured)) ∧
      course.state.context.actions[1]? = some overlay ∧
      course.state.context.actions[2]? = some (.ofData (.run made)) ∧
      configured.input = some source ∧
      made.input = some (overlay.files desk.context.label) ∧
      configured.environment.get? "CC" = some "clang" ∧ made.environment.get? "CC" = none ∧
      made.environment.get? "LANG" = some "C" := by
  rcases steps_thread_tree script [configure, make] desk platform supplied with
    ⟨results, recorded, goes, _, _, steps, _, _⟩
  have whole : course = ⟨[[asked]], some (.ok (.ok .null)),
      desk.recording platform true recorded id⟩ := goes (fun _ => .finish (.ok .null)) []
  have actions : course.state.context.actions = recorded := by
    rw [whole]
    rfl
  rcases steps 0 configure rfl with ⟨first, overlay, own, result⟩
  rcases steps 1 make rfl with ⟨second, _, none_own, _⟩
  have own := own (List.pairwise_singleton _ _)
  have none_own := none_own .nil
  have behindFirst := congrArg (fun found => found.bind fun result => result.2.tree) result
  rw [actions]
  refine ⟨by rw [whole], by rw [whole], _, _, _, first, overlay, second, rfl, behindFirst,
    ?_, ?_, ?_⟩
  · rw [own]
    rfl
  · rw [none_own]
    decide
  · rw [none_own]
    rfl

end Script

end RuleAnalysis
