import RuleAnalysis.Proofs.Label.Anatomy
import RuleAnalysis.Proofs.Wire.Identity

namespace RuleAnalysis

/-!
# Ids that are given

The tree of an action has one place for its id, whether a rule has given the id
or it has been worked out. An empty text in this place asks the reader to work
the id out. So every id comes through but an empty one: an action that has been
given the empty text for an id is read back with the hash of its content, and
its output tree is then looked for at another address than its rule was told.
-/

namespace Label

/-- The id stands behind a text that depends on the owner alone. -/
theorem exists_joinAction (owner : Label) :
    ∃ stem, ∀ id, owner.joinAction id = ofChars (stem ++ ':' :: id.toList) := by
  unfold joinAction
  split
  · exact ⟨owner.chars, fun _ => rfl⟩
  · next front _ _ => exact ⟨front.reverse, fun _ => rfl⟩
  · exact ⟨owner.chars, fun _ => rfl⟩

/-- Different actions of a target have different addresses. -/
theorem joinAction_eq_iff (owner : Label) {id other : String} :
    owner.joinAction id = owner.joinAction other ↔ id = other := by
  rcases exists_joinAction owner with ⟨stem, spelled⟩
  rw [spelled, spelled]
  constructor
  · intro same
    have chars := congrArg chars same
    rw [chars_ofChars, chars_ofChars, List.append_cancel_left_eq, List.cons.injEq] at chars
    exact String.toList_inj.mp chars.2
  · rintro rfl
    rfl

end Label

namespace Action

variable {a : Action}

/-- What is read from the tree of an action whose work can be written. -/
def reread (a : Action) : Action := { a with explicitId := (some a.id).filter (· ≠ "") }

theorem decode_takes_reread (encodable : a.data.Encodable) : decode.Takes a.encode a.reread :=
  decode_takes_encodeWith_iff.mpr ⟨a.data, ActionData.decode_takes_encode encodable true, rfl⟩

theorem reread_sameContent (a : Action) : a.reread.SameContent a :=
  ⟨rfl, rfl, rfl⟩

theorem derivedId_reread (a : Action) : a.reread.derivedId = a.derivedId := by
  rw [derivedId, derivedId, preimage, preimage, a.reread_sameContent.encodeWith ""]

theorem id_reread_of_ne (given : a.explicitId ≠ some "") : a.reread.id = a.id := by
  have kept : (some a.id).filter (· ≠ "") = some a.id := by
    simp [id_ne_empty given]
  rw [id, reread, kept]
  rfl

theorem id_reread_of_empty (empty : a.explicitId = some "") : a.reread.id = a.derivedId := by
  have itself : a.id = "" := by
    rw [id, empty]
    rfl
  have dropped : a.reread.explicitId = none := by
    rw [reread, itself]
    rfl
  rw [id, dropped, Option.getD_none, derivedId_reread]

theorem id_reread_eq_iff : a.reread.id = a.id ↔ a.explicitId ≠ some "" := by
  constructor
  · intro same empty
    have hashed := id_reread_of_empty empty
    rw [same, id, empty] at hashed
    exact Digest.sha256Text_ne_empty _ hashed.symm
  · exact id_reread_of_ne

/-- Actions of the same content agree if they have the same id. -/
theorem SameContent.agrees_iff {b : Action} (same : SameContent b a) :
    b.agrees a ↔ b.id = a.id := by
  simp [agrees, same.mnemonic, same.progressMessage, same.data]

/-- An action whose work can be written is read back with its content. Its id, and with it the
address of its output tree beneath every owner, is the one that was written, whether the id has been
given or worked out, unless an empty one has been given; such an id is taken for none. -/
theorem given_ids_read_back (a : Action) (encodable : a.data.Encodable) :
    ∃ b, decode.Takes a.encode b ∧ SameContent b a ∧
      (b.agrees a ↔ a.explicitId ≠ some "") ∧
      (b.id = a.id ↔ a.explicitId ≠ some "") ∧
      (∀ owner, b.files owner = a.files owner ↔ a.explicitId ≠ some "") ∧
      (a.explicitId = some "" → b.explicitId = none ∧ b.id = a.derivedId) := by
  refine ⟨a.reread, decode_takes_reread encodable, a.reread_sameContent, ?_, id_reread_eq_iff, ?_, ?_⟩
  · rw [a.reread_sameContent.agrees_iff]
    exact id_reread_eq_iff
  · intro owner
    rw [files, files, Label.joinAction_eq_iff]
    exact id_reread_eq_iff
  · intro empty
    refine ⟨?_, id_reread_of_empty empty⟩
    rw [reread, id, empty]
    rfl

/-- A depmap that a rule calls `tree`, and one that is called by its hash. -/
theorem given_ids_read_back_depmap :
    let depmap : Action := .ofData (.buildDepmap [(⟨"bin/cc"⟩, .reference ⟨"//cc:bin"⟩)])
    let owner : Label := ⟨"//pkg:lib"⟩
    depmap.data.Encodable ∧
    (∃ b, decode.Takes (depmap.withId "tree").encode b ∧ b.agrees (depmap.withId "tree") ∧
      b.files owner = ⟨"//pkg:lib:tree"⟩) ∧
    ∃ b, decode.Takes depmap.encode b ∧ b.agrees depmap ∧ b.files owner = depmap.files owner := by
  intro depmap owner
  have label : (⟨"//cc:bin"⟩ : Label).WellFormed := by decide
  have encodable : depmap.data.Encodable := List.forall_mem_singleton.mpr ⟨by decide, label⟩
  rcases given_ids_read_back (depmap.withId "tree") encodable with ⟨b, read, _, agrees, _, files, _⟩
  rcases given_ids_read_back depmap encodable with ⟨c, reread, _, hashed, _, address, _⟩
  refine ⟨encodable, ⟨b, read, agrees.mpr (by decide), ?_⟩,
    ⟨c, reread, hashed.mpr nofun, (address owner).mpr nofun⟩⟩
  rw [(files owner).mpr (by decide)]
  decide

/-- An action that has been given an empty id is not read back as itself. -/
theorem empty_id_not_read_back :
    ¬ ∀ a : Action, a.data.Encodable →
      ∃ b, decode.Takes a.encode b ∧ b.agrees a ∧ b.id = a.id ∧
        ∀ owner, b.files owner = a.files owner := by
  intro survives
  let a : Action := (ofData (.buildDepmap [])).withId ""
  have encodable : a.data.Encodable := List.forall_mem_nil _
  rcases survives a encodable with ⟨b, read, _, same, _⟩
  have known : b = a.reread := Except.ok.inj (read.symm.trans (decode_takes_reread encodable))
  rw [known] at same
  exact id_reread_eq_iff.mp same rfl

end Action
end RuleAnalysis
