import RuleAnalysis.Proofs.Analysis.Trace

namespace RuleAnalysis

/-!
# How an analysis evolves

Recorded actions are never taken back and never change places. One that lacks
an execution platform may be given one, once; any other stays what it is. So
whatever has been said of a prepared action, its id and the address of its
tree, holds of it ever after.
-/

namespace Action

/-- What may become of a recorded action, if only some providers are given. -/
inductive Becomes (given : Provider → Prop) (a : Action) : Action → Prop
  | same : Becomes given a a
  | filled {platform : Provider} :
      a.needsPlatform = true → given platform → Becomes given a (a.fillPlatform platform)

variable {given : Provider → Prop}

theorem Becomes.prepared {a b : Action} (becomes : a.Becomes given b)
    (prepared : a.needsPlatform = false) : b = a := by
  cases becomes with
  | same => rfl
  | filled needs _ => rw [prepared] at needs; cases needs

theorem Becomes.trans {a b c : Action} (first : a.Becomes given b) (second : b.Becomes given c) :
    a.Becomes given c := by
  cases first with
  | same => exact second
  | filled needs platform =>
      rw [second.prepared (needsPlatform_fillPlatform _ _)]
      exact .filled needs platform

theorem Becomes.fill (a : Action) {platform : Provider} (isGiven : given platform) :
    a.Becomes given (a.fillPlatform platform) := by
  cases needs : a.needsPlatform with
  | true => exact .filled needs isGiven
  | false =>
      rw [fillPlatform_prepared needs]
      exact .same

/-- Every action of the first list has its place in the second, as what has become of it. -/
def Evolve (given : Provider → Prop) (as bs : List Action) : Prop :=
  ∀ (i : Nat) (a : Action), as[i]? = some a → ∃ b, bs[i]? = some b ∧ a.Becomes given b

theorem Evolve.refl (as : List Action) : Evolve given as as :=
  fun _ a found => ⟨a, found, .same⟩

theorem Evolve.trans {as bs cs : List Action} (first : Evolve given as bs)
    (second : Evolve given bs cs) : Evolve given as cs := by
  intro i a found
  rcases first i a found with ⟨b, found, before⟩
  rcases second i b found with ⟨c, found, after⟩
  exact ⟨c, found, before.trans after⟩

theorem Evolve.length_le {as bs : List Action} (evolve : Evolve given as bs) :
    as.length ≤ bs.length := by
  apply Nat.le_of_not_lt
  intro more
  rcases evolve bs.length _ (List.getElem?_eq_getElem more) with ⟨b, found, _⟩
  rw [List.getElem?_eq_none (Nat.le_refl _)] at found
  cases found

theorem Evolve.append {as bs : List Action} (evolve : Evolve given as bs) (more : List Action) :
    Evolve given as (bs ++ more) := by
  intro i a found
  rcases evolve i a found with ⟨b, found, becomes⟩
  rcases List.getElem?_eq_some_iff.mp found with ⟨inside, _⟩
  exact ⟨b, by rw [List.getElem?_append_left inside, found], becomes⟩

theorem Evolve.snoc {as bs : List Action} (evolve : Evolve given as bs)
    (sized : as.length = bs.length) (a : Action) : Evolve given (as ++ [a]) (bs ++ [a]) := by
  intro i b found
  rcases Nat.lt_or_ge i as.length with inside | behind
  · rw [List.getElem?_append_left inside] at found
    exact (evolve.append [a]) i b found
  · rw [List.getElem?_append_right behind, sized] at found
    exact ⟨b, by rw [List.getElem?_append_right (sized ▸ behind), found], .same⟩

/-- What holds of a prepared action in its place goes on to hold. -/
theorem Evolve.prepared {as bs : List Action} (evolve : Evolve given as bs) {i : Nat} {a : Action}
    (found : as[i]? = some a) (prepared : a.needsPlatform = false) : bs[i]? = some a := by
  rcases evolve i a found with ⟨b, found, becomes⟩
  rw [found, becomes.prepared prepared]

end Action

namespace Context

theorem fillPlatforms_getElem? (c : Context) (places : List Nat) (platform : Provider) (i : Nat) :
    (c.fillPlatforms places platform).actions[i]? =
      c.actions[i]?.map fun a => if i ∈ places then a.fillPlatform platform else a := by
  unfold fillPlatforms
  simp only
  generalize c.actions = as
  induction places generalizing as with
  | nil => simp
  | cons place rest ih =>
      rw [List.foldl_cons, ih, List.getElem?_modify]
      cases as[i]? with
      | none => rfl
      | some a =>
          by_cases here : place = i
          · subst here
            by_cases again : place ∈ rest <;>
              simp [again, Action.fillPlatform_prepared (a.needsPlatform_fillPlatform platform)]
          · have elsewhere : (i ∈ place :: rest) = (i ∈ rest) := by
              simp [Ne.symm here]
            simp [here, elsewhere]

theorem fillPlatforms_length (c : Context) (places : List Nat) (platform : Provider) :
    (c.fillPlatforms places platform).actions.length = c.actions.length := by
  unfold fillPlatforms
  simp only
  generalize c.actions = as
  induction places generalizing as with
  | nil => rfl
  | cons place rest ih => rw [List.foldl_cons, ih, List.length_modify]

theorem fillPlatforms_evolve {given : Provider → Prop} (c : Context) (places : List Nat)
    {platform : Provider} (isGiven : given platform) :
    Action.Evolve given c.actions (c.fillPlatforms places platform).actions := by
  intro i a found
  rw [fillPlatforms_getElem?, found]
  refine ⟨_, rfl, ?_⟩
  split
  · exact .fill a isGiven
  · exact .same

/-- An action in one of the places has been prepared. -/
theorem fillPlatforms_prepared (c : Context) {places : List Nat} (platform : Provider) {i : Nat}
    (member : i ∈ places) {a : Action}
    (found : (c.fillPlatforms places platform).actions[i]? = some a) : a.needsPlatform = false := by
  rw [fillPlatforms_getElem?, Option.map_eq_some_iff] at found
  rcases found with ⟨b, _, rfl⟩
  rw [if_pos member]
  exact b.needsPlatform_fillPlatform platform

theorem mem_unprepared (c : Context) (i : Nat) :
    i ∈ c.unprepared ↔ ∃ a, c.actions[i]? = some a ∧ a.needsPlatform = true := by
  rw [unprepared, List.mem_filter, List.mem_range, Option.any_eq_true]
  constructor
  · rintro ⟨_, a, found, needs⟩
    exact ⟨a, found, needs⟩
  · rintro ⟨a, found, needs⟩
    exact ⟨(List.getElem?_eq_some_iff.mp found).1, a, found, needs⟩

end Context

/-! ## Traced states -/

namespace Traced

variable {ν : Type} {given : Provider → Prop}

/-- How a traced state may come to change. -/
structure Advances (given : Provider → Prop) (t t' : Traced ν) : Prop where
  label : t'.context.label = t.context.label
  config : t'.context.config = t.context.config
  actions : Action.Evolve given t.actions t'.actions
  /-- A platform that has been kept is not forgotten. -/
  platform : t.context.executePlatform ≠ none → t'.context.executePlatform ≠ none

/-- What has been noted is still so. -/
structure Sound (given : Provider → Prop) (t : Traced ν) : Prop where
  counted : t.recorded.length = t.actions.length
  recorded : Action.Evolve given t.recorded t.actions
  told : ∀ place id, (place, id) ∈ t.told →
    ∃ a, t.actions[place]? = some a ∧ a.id = id ∧ a.needsPlatform = false
  addressed : ∀ place tree, (place, tree) ∈ t.addressed →
    ∃ a, t.actions[place]? = some a ∧ a.files t.context.label = tree ∧ a.needsPlatform = false
  platform : ∀ p, t.context.executePlatform = some p → given p

namespace Advances

theorem refl (t : Traced ν) : Advances given t t :=
  ⟨rfl, rfl, .refl _, id⟩

theorem trans {t t' t'' : Traced ν} (first : Advances given t t') (second : Advances given t' t'') :
    Advances given t t'' :=
  ⟨second.label.trans first.label, second.config.trans first.config,
    first.actions.trans second.actions, fun kept => second.platform (first.platform kept)⟩

/-- What holds of a prepared action in its place goes on to hold. -/
theorem prepared {t t' : Traced ν} (advances : Advances given t t') {place : Nat} {a : Action}
    (found : t.actions[place]? = some a) (isPrepared : a.needsPlatform = false) :
    t'.actions[place]? = some a :=
  advances.actions.prepared found isPrepared

/-- The platform that is to be asked for stays the same. -/
theorem executePlatformType {t t' : Traced ν} (advances : Advances given t t') :
    t'.context.executePlatformType = t.context.executePlatformType := by
  rw [Context.executePlatformType, advances.config]
  rfl

end Advances

/-- Nothing has changed that notes are about. -/
structure Unmoved (t t' : Traced ν) : Prop where
  label : t'.context.label = t.context.label
  config : t'.context.config = t.context.config
  actions : t'.actions = t.actions
  platform : t'.context.executePlatform = t.context.executePlatform
  recorded : t'.recorded = t.recorded
  told : t'.told = t.told
  addressed : t'.addressed = t.addressed

theorem Unmoved.advances {t t' : Traced ν} (unmoved : Unmoved t t') : Advances given t t' := by
  refine ⟨unmoved.label, unmoved.config, ?_, ?_⟩
  · rw [unmoved.actions]
    exact .refl _
  · rw [unmoved.platform]
    exact id

namespace Sound

theorem begin {desk : Desk ν} (fresh : desk.context.actions = [])
    (unasked : desk.context.executePlatform = none) : Sound given (Traced.begin desk) := by
  refine ⟨?_, fun i a found => ?_, nofun, nofun, fun p kept => ?_⟩
  · exact (congrArg List.length fresh).symm
  · cases found
  · exact absurd (unasked.symm.trans kept) nofun

theorem unmoved {t t' : Traced ν} (sound : Sound given t) (unmoved : Unmoved t t') :
    Sound given t' := by
  constructor
  · rw [unmoved.recorded, unmoved.actions, sound.counted]
  · rw [unmoved.recorded, unmoved.actions]
    exact sound.recorded
  · rw [unmoved.told, unmoved.actions]
    exact sound.told
  · rw [unmoved.addressed, unmoved.actions, unmoved.label]
    exact sound.addressed
  · rw [unmoved.platform]
    exact sound.platform

/-- Notes that have been taken outlast any advance that takes none. -/
theorem advanced {t t' : Traced ν} (sound : Sound given t) (advances : Advances given t t')
    (counted : t'.actions.length = t.actions.length) (recorded : t'.recorded = t.recorded)
    (told : t'.told = t.told) (addressed : t'.addressed = t.addressed)
    (platform : ∀ p, t'.context.executePlatform = some p → given p) : Sound given t' := by
  refine ⟨?_, ?_, fun place id noted => ?_, fun place tree noted => ?_, platform⟩
  · rw [recorded, counted, sound.counted]
  · rw [recorded]
    exact sound.recorded.trans advances.actions
  · rw [told] at noted
    rcases sound.told place id noted with ⟨a, found, same, isPrepared⟩
    exact ⟨a, advances.prepared found isPrepared, same, isPrepared⟩
  · rw [addressed] at noted
    rcases sound.addressed place tree noted with ⟨a, found, same, isPrepared⟩
    rw [advances.label]
    exact ⟨a, advances.prepared found isPrepared, same, isPrepared⟩

theorem tell {t : Traced ν} (sound : Sound given t) {place : Nat}
    {told : Except AnalysisError String}
    (final : ∀ id, told = .ok id →
      ∃ a, t.actions[place]? = some a ∧ a.id = id ∧ a.needsPlatform = false) :
    Sound given (t.tell place told) := by
  cases told with
  | error e => exact sound
  | ok id =>
      refine ⟨sound.counted, sound.recorded, fun place' id' noted => ?_, sound.addressed,
        sound.platform⟩
      rcases List.mem_append.mp noted with before | now
      · exact sound.told place' id' before
      · cases List.mem_singleton.mp now
        exact final id rfl

theorem address {t : Traced ν} (sound : Sound given t) {place : Nat}
    {given' : Except AnalysisError Label}
    (final : ∀ tree, given' = .ok tree →
      ∃ a, t.actions[place]? = some a ∧ a.files t.context.label = tree ∧ a.needsPlatform = false) :
    Sound given (t.address place given') := by
  cases given' with
  | error e => exact sound
  | ok tree =>
      refine ⟨sound.counted, sound.recorded, sound.told, fun place' tree' noted => ?_,
        sound.platform⟩
      rcases List.mem_append.mp noted with before | now
      · exact sound.addressed place' tree' before
      · cases List.mem_singleton.mp now
        exact final tree rfl

theorem record {t : Traced ν} (sound : Sound given t) (a : Action) :
    Sound given (t.record a) ∧ Advances given t (t.record a) := by
  have advances : Advances given t (t.record a) := ⟨rfl, rfl, (Action.Evolve.refl _).append [a], id⟩
  refine ⟨⟨?_, sound.recorded.snoc sound.counted a, fun place id noted => ?_,
    fun place tree noted => ?_, sound.platform⟩, advances⟩
  · change (t.recorded ++ [a]).length = (t.actions ++ [a]).length
    rw [List.length_append, List.length_append, sound.counted]
  · rcases sound.told place id noted with ⟨b, found, same, isPrepared⟩
    exact ⟨b, advances.prepared found isPrepared, same, isPrepared⟩
  · rcases sound.addressed place tree noted with ⟨b, found, same, isPrepared⟩
    exact ⟨b, advances.prepared found isPrepared, same, isPrepared⟩

theorem keep {t : Traced ν} (sound : Sound given t) {platform : Provider}
    (isGiven : given platform) :
    Sound given (t.changeContext (·.keepPlatform platform)) ∧
      Advances given t (t.changeContext (·.keepPlatform platform)) := by
  have advances : Advances given t (t.changeContext (·.keepPlatform platform)) :=
    ⟨rfl, rfl, .refl _, fun _ => nofun⟩
  refine ⟨sound.advanced advances rfl rfl rfl rfl fun p kept => ?_, advances⟩
  cases kept
  exact isGiven

theorem fill {t : Traced ν} (sound : Sound given t) (places : List Nat) {platform : Provider}
    (isGiven : given platform) :
    Sound given (t.changeContext (·.fillPlatforms places platform)) ∧
      Advances given t (t.changeContext (·.fillPlatforms places platform)) := by
  have advances : Advances given t (t.changeContext (·.fillPlatforms places platform)) :=
    ⟨rfl, rfl, t.context.fillPlatforms_evolve places isGiven, id⟩
  exact ⟨sound.advanced advances (t.context.fillPlatforms_length places platform) rfl rfl rfl
    sound.platform, advances⟩

end Sound

end Traced

end RuleAnalysis
