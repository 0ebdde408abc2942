import RuleAnalysis.Config.Family
import RuleAnalysis.Proofs.Config.Families
import RuleAnalysis.Proofs.Rule.ResolvedValues

namespace RuleAnalysis
namespace BuildConfig

/-!
# Options of one family exclude each other

A configuration that selections have made lists no family twice. One that comes
over the wire is taken as it is listed. An option that is listed behind another
of its family is hidden from whoever asks for the family, and still it counts as
selected. How the two ways of looking at a configuration differ is therefore a
matter of what is hidden; where each family is listed with one option only they
agree.
-/

/-- Two options that are listed under one family are the same. -/
def Exclusive (c : BuildConfig) : Prop :=
  ∀ family option other, (family, option) ∈ c.options → (family, other) ∈ c.options →
    option = other

/-- The option is listed, and wherever it is listed another option of the family stands in front of
it. -/
def Hidden (c : BuildConfig) (option : TypeRef) : Prop :=
  (∃ family, (family, option) ∈ c.options) ∧
    ∀ before family after, c.options = before ++ (family, option) :: after →
      ∃ other, other ≠ option ∧ (family, other) ∈ before

variable {c : BuildConfig} {family option : TypeRef}

/-! ## What is found and what is hidden -/

theorem Hidden.get?_ne (hidden : c.Hidden option) (family : TypeRef) :
    c.get? family ≠ some option := by
  intro found
  rcases List.lookup_eq_some_iff.mp found with ⟨before, after, listed, first⟩
  rcases hidden.2 before family after listed with ⟨other, _, member⟩
  have apart := first _ member
  simp at apart

/-- What stands first of its family is found. -/
theorem get?_of_no_other {before after : List (TypeRef × TypeRef)}
    (listed : c.options = before ++ (family, option) :: after)
    (alone : ∀ other, other ≠ option → (family, other) ∉ before) : c.get? family = some option := by
  rw [get?, listed, List.lookup_append, List.lookup_cons_self]
  cases found : before.lookup family with
  | none => rfl
  | some other =>
      by_cases same : other = option
      · rw [same, Option.some_or]
      · exact absurd (mem_of_lookup found) (alone other same)

theorem isSelected_iff_found_or_hidden (c : BuildConfig) (option : TypeRef) :
    c.isSelected option = true ↔ (∃ family, c.get? family = some option) ∨ c.Hidden option := by
  rw [isSelected_iff_mem]
  constructor
  · intro listed
    by_cases found : ∃ family, c.get? family = some option
    · exact .inl found
    · refine .inr ⟨listed, ?_⟩
      intro before family after place
      by_contra alone
      refine found ⟨family, get?_of_no_other place ?_⟩
      intro other differs member
      exact alone ⟨other, differs, member⟩
  · rintro (⟨family, found⟩ | hidden)
    · exact ⟨family, mem_of_lookup found⟩
    · exact hidden.1

/-! ## Families with one option -/

theorem exclusive_iff_get? (c : BuildConfig) :
    c.Exclusive ↔ ∀ entry ∈ c.options, c.get? entry.1 = some entry.2 := by
  constructor
  · rintro exclusive ⟨family, option⟩ member
    rcases List.append_of_mem member with ⟨before, after, listed⟩
    apply get?_of_no_other listed
    intro other differs earlier
    have present : (family, other) ∈ c.options := by
      rw [listed]
      exact List.mem_append_left _ earlier
    exact differs (exclusive _ _ _ present member)
  · intro found family option other member member'
    exact Option.some.inj ((found _ member).symm.trans (found _ member'))

/-- All that is listed is selected, so options exclude each other only by not being listed. -/
theorem exclusive_iff_selected (c : BuildConfig) :
    c.Exclusive ↔ ∀ family option other, (family, option) ∈ c.options →
      (family, other) ∈ c.options → c.isSelected option = true → c.isSelected other = true →
        option = other := by
  constructor
  · intro exclusive family option other member member' _ _
    exact exclusive family option other member member'
  · intro never family option other member member'
    have selected := (isSelected_iff_mem c option).mpr ⟨family, member⟩
    have selected' := (isSelected_iff_mem c other).mpr ⟨family, member'⟩
    exact never family option other member member' selected selected'

theorem Exclusive.not_hidden (exclusive : c.Exclusive) (option : TypeRef) : ¬ c.Hidden option := by
  intro hidden
  rcases hidden.1 with ⟨family, member⟩
  exact hidden.get?_ne family ((exclusive_iff_get? c).mp exclusive _ member)

theorem exclusive_of_nodup (once : (families c.options).Nodup) : c.Exclusive := by
  intro family option other member member'
  have found := lookup_of_mem once member
  have found' := lookup_of_mem once member'
  exact Option.some.inj (found.symm.trans found')

end BuildConfig

/-! ## Configurations that are accepted -/

variable {ν : Type}

theorem Session.config_of_ofTarget {rule : Rule ν} {target : TargetText} {session : Session ν}
    (started : Session.ofTarget rule target = .ok session) :
    Decoder.text BuildConfig.decode target.config = .ok session.desk.context.config := by
  rcases Success.bind_eq_ok_iff.mp started with ⟨l, _, started⟩
  rcases Success.bind_eq_ok_iff.mp started with ⟨attributes, _, started⟩
  rcases Success.bind_eq_ok_iff.mp started with ⟨config, decoded, started⟩
  rcases Success.bind_eq_ok_iff.mp started with ⟨invocation, _, started⟩
  cases started
  exact Success.mapError_eq_ok_iff.mp decoded

namespace BuildConfig

/-- A target that is started has the configuration that its text lists. An option is selected in it
if it is found for some family or hidden behind another of its family, and never both. The options
of a family exclude each other exactly if no family is listed with two, which is to say that every
option is found where it is listed. Then nothing is hidden, and what is selected is what is
found. -/
theorem accepted_options_exclude_iff {server server' : Server ν} {source name : String}
    {target : TargetText} (started : server.start source name target = (.ok (), server')) :
    ∃ session, server'.session = some session ∧
      let c := session.desk.context.config
      Decoder.text BuildConfig.decode target.config = .ok c ∧
      (∀ option, c.isSelected option = true ↔
        (∃ family, c.get? family = some option) ∨ c.Hidden option) ∧
      (∀ family option, c.get? family = some option → ¬ c.Hidden option) ∧
      (c.Exclusive ↔ ∀ family option other, (family, option) ∈ c.options →
        (family, other) ∈ c.options → c.isSelected option = true → c.isSelected other = true →
          option = other) ∧
      (c.Exclusive ↔ ∀ entry ∈ c.options, c.get? entry.1 = some entry.2) ∧
      (c.Exclusive → ∀ option, c.isSelected option = true ↔ ∃ family, c.get? family = some option) ∧
      ((families c.options).Nodup → c.Exclusive) := by
  rcases Server.start_eq_ok started with ⟨rule, session, _, opened, inProgress⟩
  refine ⟨session, inProgress, Session.config_of_ofTarget opened, isSelected_iff_found_or_hidden _,
    ?_, exclusive_iff_selected _, exclusive_iff_get? _, ?_, exclusive_of_nodup⟩
  · intro family option found hidden
    exact hidden.get?_ne family found
  · intro exclusive option
    rw [isSelected_iff_found_or_hidden]
    exact or_iff_left (exclusive.not_hidden option)

/-! ## A target with two modes -/

namespace ModeTarget

def mode : TypeRef := OptionFamily.family CompilationMode

def fastbuild : TypeRef := OptionFamily.reference CompilationMode.fastbuild

def debug : TypeRef := OptionFamily.reference CompilationMode.debug

def linux : TypeRef × TypeRef := (OptionFamily.family Os, OptionFamily.reference Os.linux)

def rule : Rule Unit := ⟨⟨.builtin "rules" "Plain", []⟩, .finish (.ok .null), ()⟩

def server : Server Unit := .ofRegistry (.ofList [rule]) .standard

/-- The characters of a configuration with two entries. -/
def configText (entry other : List String) : List Char :=
  ("\x7b\"options\":[" :: entry ++ "," :: other ++ ["],\"host_options\":[]\x7d"]).flatMap
    String.toList

def debugEntry : List String := BuildConfig.entryText "config" "CompilationMode" "Debug"

def oneMode : List Char := configText debugEntry (BuildConfig.entryText "platform" "Os" "Linux")

def twoModes : List Char :=
  configText (BuildConfig.entryText "config" "CompilationMode" "Fastbuild") debugEntry

def started (config : String) : Except SessionError Unit × Server Unit :=
  server.start rule.schema.reference.sourceLabel.text "Plain"
    ⟨"tool", "//pkg:tool", "\x7b\x7d", config⟩

/-- The configuration of the session in progress. -/
def config? (server : Server Unit) : Option BuildConfig :=
  server.session.map fun session => session.desk.context.config

/-- The target is started under whatever configuration is listed. -/
theorem started_of_decoded {config : String} {c : BuildConfig}
    (decoded : Decoder.text BuildConfig.decode config = .ok c) :
    ∃ server', started config = (.ok (), server') ∧ config? server' = some c := by
  simp only [started, Server.start, Session.ofTarget, decoded]
  exact ⟨_, rfl, rfl⟩

theorem decode_oneMode :
    Decoder.text BuildConfig.decode (.ofList oneMode) = .ok ⟨[(mode, debug), linux], []⟩ :=
  (Decoder.text_ofList _ _).trans (by decide +kernel)

theorem decode_twoModes :
    Decoder.text BuildConfig.decode (.ofList twoModes) =
      .ok ⟨[(mode, fastbuild), (mode, debug)], []⟩ :=
  (Decoder.text_ofList _ _).trans (by decide +kernel)

end ModeTarget

open ModeTarget

/-- With one mode and one operating system, what is selected is what is found. -/
theorem accepted_options_exclude_iff_modes :
    let c : BuildConfig := ⟨[(mode, debug), linux], []⟩
    ∃ server', started (.ofList oneMode) = (.ok (), server') ∧ config? server' = some c ∧
      (∀ option, c.isSelected option = true ↔ ∃ family, c.get? family = some option) ∧
      ∀ family option other, (family, option) ∈ c.options → (family, other) ∈ c.options →
        option = other := by
  intro c
  rcases started_of_decoded decode_oneMode with ⟨server', begins, listed⟩
  rcases accepted_options_exclude_iff begins with ⟨session, inProgress, _, _, _, _, _, agree, once⟩
  have same : session.desk.context.config = c := by
    rw [config?, inProgress] at listed
    exact Option.some.inj listed
  rw [same] at agree once
  have exclusive : c.Exclusive := once (by decide +kernel)
  exact ⟨server', begins, listed, agree exclusive, exclusive⟩

/-- A target is started under two modes. Debugging is not the mode, and it is selected beside the
mode, so that a selection picks the branch for it. -/
theorem hidden_mode_selected :
    let c : BuildConfig := ⟨[(mode, fastbuild), (mode, debug)], []⟩
    ∃ server', started (.ofList twoModes) = (.ok (), server') ∧ config? server' = some c ∧
      c.isSelected fastbuild = true ∧ c.isSelected debug = true ∧ fastbuild ≠ debug ∧
      (∀ family, c.get? family ≠ some debug) ∧
      Selection.resolve ⟨[(debug, .string "-g")], .string "-O0"⟩ c = .string "-g" := by
  intro c
  have apart : fastbuild ≠ debug := by decide +kernel
  rcases started_of_decoded decode_twoModes with ⟨server', begins, listed⟩
  refine ⟨server', begins, listed, by decide +kernel, by decide +kernel, apart, ?_, by rfl⟩
  intro family
  change List.lookup family [(mode, fastbuild), (mode, debug)] ≠ some debug
  rw [lookup_cons, lookup_cons]
  by_cases here : family = mode
  · rw [if_pos here]
    exact fun same => apart (Option.some.inj same)
  · rw [if_neg here, if_neg here]
    exact nofun

end BuildConfig
end RuleAnalysis
