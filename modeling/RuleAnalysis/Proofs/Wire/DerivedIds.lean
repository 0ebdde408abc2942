import RuleAnalysis.Action.Held
import RuleAnalysis.Proofs.Wire.Identity

namespace RuleAnalysis

/-!
# Ids that are worked out

An action that bears no id of its own is asked for its id again and again, and
between the questions it is renamed, given a platform and copied. What it
remembers of earlier answers must be the hash of what it has become. The host
may work the same id out from the tree of the action, since the id that is
written there does not enter into it.
-/

/-! ## What is done with actions -/

inductive ActionCall where
  | rename (mnemonic : String)
  | describe (message : String)
  | fillPlatform (platform : Provider)
  | duplicate
  | identify
  deriving DecidableEq

namespace ActionCall

variable {α β : Type}

/-- A call of the action in a place, if there is one. A copy comes behind all others. -/
def perform (after : α → ActionCall → α) (pool : List α) (place : Nat) (call : ActionCall) :
    List α :=
  match pool[place]? with
  | none => pool
  | some a => if call = .duplicate then pool ++ [a] else pool.set place (after a call)

/-- Calls one after the other, each with the place of the action that it is made on. -/
def performAll (after : α → ActionCall → α) (pool : List α) (calls : List (Nat × ActionCall)) :
    List α :=
  calls.foldl (fun pool entry => perform after pool entry.1 entry.2) pool

variable {after : α → ActionCall → α} {after' : β → ActionCall → β}

theorem map_perform {f : α → β} (same : ∀ a call, f (after a call) = after' (f a) call)
    (pool : List α) (place : Nat) (call : ActionCall) :
    (perform after pool place call).map f = perform after' (pool.map f) place call := by
  rw [perform, perform, List.getElem?_map]
  cases pool[place]? with
  | none => rfl
  | some a =>
      simp only [Option.map_some]
      split
      · rw [List.map_append, List.map_singleton]
      · rw [List.map_set, same]

theorem map_performAll {f : α → β} (same : ∀ a call, f (after a call) = after' (f a) call)
    (pool : List α) (calls : List (Nat × ActionCall)) :
    (performAll after pool calls).map f = performAll after' (pool.map f) calls := by
  induction calls generalizing pool with
  | nil => rfl
  | cons entry rest ih =>
      rw [performAll, List.foldl_cons, ← performAll, ih, map_perform same]
      rfl

/-- What holds of an action and is kept by the calls of it holds of all actions. -/
theorem forall_perform {P : α → Prop} (kept : ∀ a call, P a → P (after a call)) {pool : List α}
    (every : ∀ a ∈ pool, P a) (place : Nat) (call : ActionCall) :
    ∀ a ∈ perform after pool place call, P a := by
  intro b member
  rw [perform] at member
  split at member
  · exact every b member
  · next a found =>
      have before : P a := every a (List.mem_of_getElem? found)
      split at member
      · rcases List.mem_append.mp member with old | copy
        · exact every b old
        · exact List.mem_singleton.mp copy ▸ before
      · rcases List.mem_or_eq_of_mem_set member with old | rfl
        · exact every b old
        · exact kept a call before

theorem forall_performAll {P : α → Prop} (kept : ∀ a call, P a → P (after a call)) {pool : List α}
    (every : ∀ a ∈ pool, P a) (calls : List (Nat × ActionCall)) :
    ∀ a ∈ performAll after pool calls, P a := by
  induction calls generalizing pool with
  | nil => exact every
  | cons entry rest ih => exact ih (forall_perform kept every entry.1 entry.2)

end ActionCall

/-! ## The memory of an action -/

namespace Action

/-- What becomes of the content. Whoever asks for the id or copies the action leaves it alone. -/
def after (a : Action) : ActionCall → Action
  | .rename mnemonic => a.withMnemonic mnemonic
  | .describe message => a.withProgressMessage message
  | .fillPlatform platform => a.fillPlatform platform
  | .duplicate | .identify => a

theorem explicitId_fillPlatform (a : Action) (platform : Provider) :
    (a.fillPlatform platform).explicitId = a.explicitId := by
  unfold fillPlatform
  split
  · split <;> rfl
  · rfl

end Action

namespace HeldAction

variable {h : HeldAction}

def after (h : HeldAction) : ActionCall → HeldAction
  | .rename mnemonic => h.withMnemonic mnemonic
  | .describe message => h.withProgressMessage message
  | .fillPlatform platform => h.fillPlatform platform
  | .duplicate => h
  | .identify => h.id.2

theorem action_id (h : HeldAction) : h.id.2.action = h.action := by
  unfold id
  split <;> rfl

/-- Remembering does not change the content. -/
theorem action_after (h : HeldAction) (call : ActionCall) :
    (h.after call).action = h.action.after call := by
  cases call with
  | rename mnemonic => rfl
  | describe message => rfl
  | fillPlatform platform =>
      rw [after, fillPlatform, Action.after]
      cases needs : h.action.needsPlatform with
      | true => rfl
      | false => exact (Action.fillPlatform_prepared needs platform).symm
  | duplicate => rfl
  | identify => exact h.action_id

/-- The action bears no id of its own, and the id that it remembers is the hash of its content. -/
structure Derives (h : HeldAction) : Prop where
  unnamed : h.action.explicitId = none
  coherent : ∀ id ∈ h.computedId, id = h.action.derivedId

theorem derives_ofAction {a : Action} (unnamed : a.explicitId = none) : (ofAction a).Derives :=
  ⟨unnamed, nofun⟩

namespace Derives

/-- The answer is the same whether or not it has been remembered. -/
theorem id_eq (derives : h.Derives) :
    h.id = (h.action.derivedId, ⟨h.action, some h.action.derivedId⟩) := by
  rcases derives with ⟨unnamed, coherent⟩
  unfold HeldAction.id
  rw [unnamed]
  cases remembered : h.computedId with
  | none => rfl
  | some id =>
      have current : id = h.action.derivedId := coherent id remembered
      simp only [← current, ← remembered]

theorem encode_eq (derives : h.Derives) : h.encode.1 = h.action.encodeWith h.action.derivedId := by
  rw [encode, derives.id_eq]

/-- All calls keep the memory true: whatever changes the content empties it. -/
theorem after (derives : h.Derives) (call : ActionCall) : (h.after call).Derives := by
  cases call with
  | rename mnemonic => exact derives_ofAction derives.unnamed
  | describe message => exact derives_ofAction derives.unnamed
  | fillPlatform platform =>
      rw [HeldAction.after, fillPlatform]
      -- An action that needs no platform keeps its content, so it may keep the memory too.
      split
      · exact derives_ofAction ((h.action.explicitId_fillPlatform platform).trans derives.unnamed)
      · exact derives
  | duplicate => exact derives
  | identify =>
      rw [HeldAction.after, derives.id_eq]
      exact ⟨derives.unnamed, fun _ same => (Option.some.inj same).symm⟩

end Derives

end HeldAction

/-! ## The id worked out by the host -/

/-- The tree with an empty text in place of the id. -/
def Json.withEmptyId : Json → Json
  | .object members =>
      .object (members.map fun entry => (entry.1, if entry.1 = "id" then .string "" else entry.2))
  | tree => tree

namespace Action

/-- No member of the work is called an id. -/
theorem withEmptyId_encodeWith (a : Action) (id : String) :
    (a.encodeWith id).withEmptyId = a.encodeWith "" := by
  have work : (a.data.members.map fun entry =>
      (entry.1, if entry.1 = "id" then Json.string "" else entry.2)) = a.data.members := by
    refine (List.map_congr_left fun entry member => ?_).trans (List.map_id _)
    have apart : entry.1 ≠ "id" := fun same =>
      not_text_of_mem_members (Dictionary.mem_keys_of_mem member) (same ▸ by decide)
    rw [if_neg apart]
    rfl
  have emptied := Dictionary.map_insert fun key tree => if key = "id" then Json.string "" else tree
  rw [encodeWith_eq, encodeWith_eq, Json.withEmptyId, membersWith, emptied, emptied, emptied, work]
  rfl

/-- Work that can be written is got back with the action. -/
theorem exists_sameContent_of_encodable {a : Action} (sound : a.Encodable) :
    ∃ b, decode.Takes a.encode b ∧ SameContent b a :=
  ⟨a.withId a.id, decode_takes_encode sound, rfl, rfl, rfl⟩

end Action

/-- However an action that bears no id of its own and its copies are named, described, prepared,
copied and asked for their ids, each of them is what it would be if it had never been asked, and
answers with the hash of its content of that moment, as if nothing were remembered. The host finds
the same id by emptying the one that it has been sent. -/
theorem HeldAction.derived_ids (a : Action) (unnamed : a.explicitId = none)
    (calls : List (Nat × ActionCall)) :
    (ActionCall.performAll after [ofAction a] calls).map HeldAction.action =
      ActionCall.performAll Action.after [a] calls ∧
    ∀ h ∈ ActionCall.performAll after [ofAction a] calls,
      h.id.1 = Digest.sha256Text (h.action.encodeWith "").render ∧ h.action.id = h.id.1 ∧
      ((∃ b, Action.decode.Takes h.encode.1 b ∧ b.SameContent h.action) →
        ∃ b, HeldAction.decode.Takes h.encode.1.withEmptyId b ∧
          b.action.SameContent h.action ∧ b.action.explicitId = none ∧ b.id.1 = h.id.1) := by
  refine ⟨ActionCall.map_performAll action_after _ calls, fun h member => ?_⟩
  have derives : h.Derives :=
    ActionCall.forall_performAll (fun _ call kept => kept.after call)
      (List.forall_mem_singleton.mpr (derives_ofAction unnamed)) calls h member
  have answer : h.id.1 = h.action.derivedId := congrArg Prod.fst derives.id_eq
  have workedOut : h.action.id = h.action.derivedId := by
    rw [Action.id, derives.unnamed]
    rfl
  refine ⟨answer, workedOut.trans answer.symm, ?_⟩
  rintro ⟨b, read, same⟩
  rw [derives.encode_eq] at read ⊢
  rcases Action.decode_takes_encodeWith_iff.mp read with ⟨data, taken, rfl⟩
  have again : Action.decode.Takes (h.action.encodeWith "") h.action := by
    have current : data = h.action.data := same.data
    refine Action.decode_takes_encodeWith_iff.mpr ⟨h.action.data, current ▸ taken, ?_⟩
    have itself : h.action = ⟨none, h.action.mnemonic, h.action.progressMessage, h.action.data⟩ := by
      rw [← derives.unnamed]
    exact itself
  refine ⟨ofAction h.action, ?_, ⟨rfl, rfl, rfl⟩, derives.unnamed, ?_⟩
  · rw [Action.withEmptyId_encodeWith]
    exact Success.map_eq_ok_iff.mpr ⟨h.action, again, rfl⟩
  · rw [(derives_ofAction derives.unnamed).id_eq, answer]
    rfl

/-- A program and a copy of it, which has been made after the program was first asked for its id and
before it was given a platform. -/
theorem HeldAction.derived_ids_program :
    let platform : Provider := ⟨⟨⟨"//p:f"⟩, "P"⟩, []⟩
    let a : Action := .ofData (.run (Run.ofCommand ⟨none, none, "cc", [], []⟩ []))
    let pool := ActionCall.performAll after [ofAction a]
      [(0, .identify), (0, .duplicate), (0, .fillPlatform platform), (0, .identify),
        (1, .rename "Cc")]
    a.explicitId = none ∧
    pool.map HeldAction.action = [a.fillPlatform platform, a.withMnemonic "Cc"] ∧
    ∀ h ∈ pool, h.id.1 = Digest.sha256Text (h.action.encodeWith "").render ∧
      ∃ b, HeldAction.decode.Takes h.encode.1.withEmptyId b ∧ b.id.1 = h.id.1 := by
  intro platform a pool
  have held : pool =
      [⟨a.fillPlatform platform, some (a.fillPlatform platform).derivedId⟩,
        ofAction (a.withMnemonic "Cc")] := by rfl
  have provided : platform.Encodable := .intro (by decide) (List.forall_mem_nil _)
  have program (given : Option Provider) (each : ∀ p ∈ given, p.Encodable) :
      { Run.ofCommand ⟨none, none, "cc", [], []⟩ [] with platform := given }.Encodable :=
    ⟨nofun, nofun, nofun, Dictionary.ordered_nil, nofun, each, nofun⟩
  have prepared : (a.fillPlatform platform).Encodable :=
    ⟨program (some platform) fun p is => by cases is; exact provided, nofun⟩
  have renamed : (a.withMnemonic "Cc").Encodable := ⟨program none nofun, nofun⟩
  have sound : ∀ h ∈ pool, ∃ b, Action.decode.Takes h.encode.1 b ∧ b.SameContent h.action := by
    rw [held]
    exact List.forall_mem_cons.mpr ⟨Action.exists_sameContent_of_encodable prepared,
      List.forall_mem_singleton.mpr (Action.exists_sameContent_of_encodable renamed)⟩
  refine ⟨rfl, by rw [held]; rfl, fun h member => ?_⟩
  rcases (derived_ids a rfl _).2 h member with ⟨hashed, _, again⟩
  rcases again (sound h member) with ⟨b, read, _, _, same⟩
  exact ⟨hashed, b, read, same⟩

end RuleAnalysis
