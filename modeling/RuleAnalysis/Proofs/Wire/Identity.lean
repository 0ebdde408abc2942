import RuleAnalysis.Proofs.Wire.Actions

namespace RuleAnalysis

/-!
# What an action's id stands for

The id of an action is a digest of the text of its tree. Here the trees are
compared: they differ whenever the actions differ in anything. No two forms of
arguments, entries or kinds of work share a tree, and a plain map is told from
every wrapped value as long as no sentinel is among its names.
-/

/-! ## Trees of lists and of optional parts -/

theorem eq_of_map_eq {α β : Type} {f : α → β} {xs ys : List α}
    (apart : ∀ x ∈ xs, ∀ y ∈ ys, f x = f y → x = y) (same : xs.map f = ys.map f) : xs = ys := by
  induction xs generalizing ys with
  | nil => exact (List.map_eq_nil_iff.mp same.symm).symm
  | cons x xs ih =>
      cases ys with
      | nil => cases same
      | cons y ys =>
          rw [List.map_cons, List.map_cons, List.cons.injEq] at same
          rw [apart x List.mem_cons_self y List.mem_cons_self same.1,
            ih (fun x inXs y inYs => apart x (List.mem_cons_of_mem _ inXs) y
              (List.mem_cons_of_mem _ inYs)) same.2]

theorem eq_of_ofOption_eq {α : Type} {encode : α → Json} (present : ∀ a, encode a ≠ .null)
    {x y : Option α} (apart : ∀ a ∈ x, ∀ b ∈ y, encode a = encode b → a = b)
    (same : Json.ofOption encode x = .ofOption encode y) : x = y := by
  cases x with
  | none =>
      cases y with
      | none => rfl
      | some b => exact absurd same.symm (present b)
  | some a =>
      cases y with
      | none => exact absurd same (present a)
      | some b => rw [apart a rfl b rfl same]

/-! ## Trees of values -/

theorem Label.eq_of_encode_eq {a b : Label} (same : a.encode = b.encode) : a = b := by
  cases a
  cases b
  simpa [encode] using same

theorem LabelPath.eq_of_encode_eq {a b : LabelPath} (same : a.encode = b.encode) : a = b := by
  cases a
  cases b
  simpa [encode] using same

theorem TypeRef.eq_of_encode_eq {a b : TypeRef} (same : a.encode = b.encode) : a = b := by
  cases a
  cases b
  simp only [encode, Json.object.injEq, List.cons.injEq, Prod.mk.injEq, Json.string.injEq] at same
  rw [same.1.2, Label.eq_of_encode_eq same.2.1.2]

theorem TypeRef.eq_of_encodeOption_eq {a b : TypeRef} (same : a.encodeOption = b.encodeOption) :
    a = b := by
  simp only [encodeOption, Json.object.injEq, List.cons.injEq, Prod.mk.injEq] at same
  exact eq_of_encode_eq same.1.2

theorem eq_of_strings_eq {xs ys : List String}
    (same : Json.array (xs.map .string) = .array (ys.map .string)) : xs = ys := by
  rw [Json.array.injEq] at same
  exact eq_of_map_eq (fun _ _ _ _ same => by simpa using same) same

theorem GlobSet.eq_of_encode_eq {a b : GlobSet} (same : a.encode = b.encode) : a = b := by
  cases a
  cases b
  simp only [encode, Json.object.injEq, List.cons.injEq, Prod.mk.injEq] at same
  rw [eq_of_strings_eq same.1.2]

namespace Value

/-- No map in the value has a sentinel among its names. -/
def Unmistakable (v : Value) : Prop :=
  v.Every fun
    | map entries => ∀ key ∈ Dictionary.keys entries, key ∉ sentinels
    | _ => True

end Value

/-- The name of the form of a value that a tree tells. -/
def Json.formName : Json → String
  | .null => "null"
  | .bool _ => "bool"
  | .number _ => "number"
  | .string _ => "string"
  | .array _ => "list"
  | .object members =>
      match Value.Wrapping.of? members with
      | some .label => "label"
      | some .labelPath => "label path"
      | some .provider => "provider"
      | some .globSet => "glob set"
      | some .option => "option"
      | some .selection => "selection"
      | some .action => "action"
      | none => "map"

namespace Value

/-- A tree tells which form the value has. -/
theorem formName_encode {v : Value} (clear : v.Unmistakable) : v.encode.formName = v.typeName := by
  cases v with
  | map entries =>
      have plain : Wrapping.of? (encodeEntries entries) = none := by
        rw [Wrapping.of?_eq_none_iff, encodeEntries_eq_map, Dictionary.keys_map]
        exact clear.here
      simp only [encode, Json.formName, plain, typeName]
  | provider p =>
      rw [encode, p.encode_eq]
      rfl
  | selection s =>
      rw [encode, s.encode_eq]
      rfl
  | _ => rfl

theorem eq_of_encodeEntries_eq {xs ys : List (String × Value)}
    (apart : ∀ x ∈ xs.map Prod.snd, ∀ y ∈ ys.map Prod.snd, x.encode = y.encode → x = y)
    (same : encodeEntries xs = encodeEntries ys) : xs = ys := by
  rw [encodeEntries_eq_map, encodeEntries_eq_map] at same
  refine eq_of_map_eq (fun x inXs y inYs same => ?_) same
  rw [Prod.mk.injEq] at same
  exact Prod.ext same.1
    (apart x.2 (List.mem_map_of_mem inXs) y.2 (List.mem_map_of_mem inYs) same.2)

theorem eq_of_encodeBranches_eq {xs ys : List (TypeRef × Value)}
    (apart : ∀ x ∈ xs.map Prod.snd, ∀ y ∈ ys.map Prod.snd, x.encode = y.encode → x = y)
    (same : encodeBranches xs = encodeBranches ys) : xs = ys := by
  rw [encodeBranches_eq_map, encodeBranches_eq_map] at same
  refine eq_of_map_eq (fun x inXs y inYs same => ?_) same
  simp only [Json.array.injEq, List.cons.injEq] at same
  exact Prod.ext (TypeRef.eq_of_encodeOption_eq same.1)
    (apart x.2 (List.mem_map_of_mem inXs) y.2 (List.mem_map_of_mem inYs) same.2.1)

/-- Values with the same tree are the same. -/
theorem eq_of_encode_eq {v w : Value} (clearV : v.Unmistakable) (clearW : w.Unmistakable)
    (same : v.encode = w.encode) : v = w := by
  induction v using induction_on_parts generalizing w with
  | step v ih =>
      have forms : v.typeName = w.typeName := by
        rw [← formName_encode clearV, ← formName_encode clearW, same]
      have apart : ∀ x ∈ v.parts, ∀ y ∈ w.parts, x.encode = y.encode → x = y :=
        fun x inV y inW => ih x inV (clearV.part inV) (clearW.part inW)
      cases v with
      | null => cases w with
        | null => rfl
        | _ => simp [typeName] at forms
      | bool x => cases w with
        | bool y => cases same; rfl
        | _ => simp [typeName] at forms
      | number x => cases w with
        | number y => cases same; rfl
        | _ => simp [typeName] at forms
      | string x => cases w with
        | string y => cases same; rfl
        | _ => simp [typeName] at forms
      | list xs => cases w with
        | list ys =>
            simp only [encode, encodeItems_eq_map, Json.array.injEq] at same
            have items : xs = ys := eq_of_map_eq apart same
            rw [items]
        | _ => simp [typeName] at forms
      | map xs => cases w with
        | map ys =>
            simp only [encode, Json.object.injEq] at same
            rw [eq_of_encodeEntries_eq apart same]
        | _ => simp [typeName] at forms
      | label x => cases w with
        | label y => rw [Label.eq_of_encode_eq same]
        | _ => simp [typeName] at forms
      | labelPath x => cases w with
        | labelPath y => rw [LabelPath.eq_of_encode_eq same]
        | _ => simp [typeName] at forms
      | provider p => cases w with
        | provider q =>
            obtain ⟨pType, xs⟩ := p
            obtain ⟨qType, ys⟩ := q
            simp only [encode, Provider.encode, Json.object.injEq, List.cons.injEq, Prod.mk.injEq,
              Json.string.injEq] at same
            rcases same with ⟨⟨_, ⟨_, data⟩, ⟨_, name⟩, ⟨_, source⟩, _⟩, _⟩
            have types : pType = qType := by
              cases pType
              cases qType
              rw [TypeRef.mk.injEq]
              exact ⟨Label.eq_of_encode_eq source, name⟩
            have entries : xs = ys := eq_of_encodeEntries_eq apart data
            rw [types, entries]
        | _ => simp [typeName] at forms
      | option x => cases w with
        | option y => rw [TypeRef.eq_of_encodeOption_eq same]
        | _ => simp [typeName] at forms
      | selection s => cases w with
        | selection t =>
            obtain ⟨xs, x⟩ := s
            obtain ⟨ys, y⟩ := t
            simp only [encode, Selection.encode, Json.object.injEq, List.cons.injEq,
              Prod.mk.injEq, Json.array.injEq] at same
            rcases same with ⟨⟨_, ⟨_, default⟩, ⟨_, mapping⟩, _⟩, _⟩
            have branches : xs = ys := eq_of_encodeBranches_eq
              (fun a inXs b inYs => apart a (List.mem_cons_of_mem _ inXs) b
                (List.mem_cons_of_mem _ inYs)) mapping
            rw [branches, apart x List.mem_cons_self y List.mem_cons_self default]
        | _ => simp [typeName] at forms
      | globSet x => cases w with
        | globSet y => rw [GlobSet.eq_of_encode_eq same]
        | _ => simp [typeName] at forms

end Value

theorem Provider.eq_of_encode_eq {p q : Provider} (clearP : (Value.provider p).Unmistakable)
    (clearQ : (Value.provider q).Unmistakable) (same : p.encode = q.encode) : p = q :=
  Value.provider.inj (Value.eq_of_encode_eq clearP clearQ same)

/-! ## Trees of work -/

namespace Executable

theorem toProvider_unmistakable (e : Executable) :
    (Value.provider e.toProvider).Unmistakable :=
  toProvider_every trivial trivial (fun _ => trivial) (fun _ => trivial) fun _ _ => trivial

theorem eq_of_encode_eq {a b : Executable} (same : a.encode = b.encode) : a = b := by
  have providers := Provider.eq_of_encode_eq a.toProvider_unmistakable b.toProvider_unmistakable same
  have read : ofProvider a.toProvider = ofProvider b.toProvider := congrArg ofProvider providers
  rw [ofProvider_toProvider, ofProvider_toProvider] at read
  exact Except.ok.inj read

end Executable

/-- The forms of arguments differ in the first keys of their objects. -/
theorem Argument.eq_of_encode_eq {a b : Argument} (same : a.encode = b.encode) : a = b := by
  cases a with
  | literal text => cases b with
    | literal other => cases same; rfl
    | _ => cases same
  | templated template source => cases b with
    | templated other source' =>
        simp only [encode, Json.object.injEq, List.cons.injEq, Prod.mk.injEq, Json.string.injEq]
          at same
        rw [same.1.2, Label.eq_of_encode_eq same.2.1.2]
    | _ => simp [encode, templatedSentinel, respfileSentinel, Label.encode] at same
  | respfile template source => cases b with
    | respfile other source' =>
        simp only [encode, Json.object.injEq, List.cons.injEq, Prod.mk.injEq, Json.string.injEq]
          at same
        rw [same.1.2, Label.eq_of_encode_eq same.2.1.2]
    | _ => simp [encode, templatedSentinel, respfileSentinel, Label.encode] at same
  | label l => cases b with
    | label other => rw [Label.eq_of_encode_eq same]
    | _ => simp [encode, Label.encode] at same

theorem DepmapEntry.eq_of_encode_eq {a b : DepmapEntry} (same : a.encode = b.encode) : a = b := by
  cases a with
  | reference target => cases b with
    | reference other =>
        simp only [encode, Json.object.injEq, List.cons.injEq, Prod.mk.injEq] at same
        rw [Label.eq_of_encode_eq same.1.2]
    | _ => simp [encode] at same
  | directory => cases b with
    | directory => rfl
    | _ => simp [encode] at same
  | file content executable => cases b with
    | file other executable' =>
        simp only [encode, Json.object.injEq, List.cons.injEq, Prod.mk.injEq, Json.string.injEq,
          Json.bool.injEq] at same
        rw [same.1.2.1.2, same.1.2.2.1.2]
    | _ => simp [encode] at same
  | symlink target => cases b with
    | symlink other =>
        simp only [encode, Json.object.injEq, List.cons.injEq, Prod.mk.injEq, Json.string.injEq]
          at same
        rw [same.1.2.1.2]
    | _ => simp [encode] at same
  | filter base under patterns => cases b with
    | filter base' under' patterns' =>
        simp only [encode, Json.object.injEq, List.cons.injEq, Prod.mk.injEq] at same
        rcases same with ⟨⟨_, ⟨_, bases⟩, ⟨_, texts⟩, ⟨_, prefixes⟩, _⟩, _⟩
        rw [Label.eq_of_encode_eq bases, LabelPath.eq_of_encode_eq prefixes, eq_of_strings_eq texts]
    | _ => simp [encode] at same

theorem eq_of_stringEntries_eq {xs ys : Dictionary String}
    (same : xs.map (fun entry => (entry.1, Json.string entry.2)) =
      ys.map fun entry => (entry.1, Json.string entry.2)) : xs = ys :=
  eq_of_map_eq (fun _ _ _ _ same => by simpa [Prod.ext_iff] using same) same

theorem StructuredMessages.eq_of_encode_eq {a b : StructuredMessages}
    (same : a.encode = b.encode) : a = b := by
  obtain ⟨levels, messages⟩ := a
  obtain ⟨levels', messages'⟩ := b
  simp only [encode, Json.object.injEq, List.cons.injEq, Prod.mk.injEq] at same
  rcases same with ⟨⟨_, texts⟩, ⟨_, entries⟩, _⟩
  rw [eq_of_strings_eq texts, eq_of_stringEntries_eq entries]

theorem BuildConfig.eq_of_encodeOptions_eq {xs ys : List (TypeRef × TypeRef)}
    (same : encodeOptions xs = encodeOptions ys) : xs = ys := by
  rw [encodeOptions, encodeOptions, Json.array.injEq] at same
  refine eq_of_map_eq (fun x _ y _ same => ?_) same
  simp only [Json.array.injEq, List.cons.injEq] at same
  exact Prod.ext (TypeRef.eq_of_encode_eq same.1) (TypeRef.eq_of_encode_eq same.2.1)

theorem eq_of_optionalText_eq {x y : Option String}
    (same : Json.ofOption .string x = .ofOption .string y) : x = y :=
  eq_of_ofOption_eq nofun (fun _ _ _ _ same => by simpa using same) same

namespace ActionData

/-- No map in the data of a platform has a sentinel among its names. -/
def Unmistakable : ActionData → Prop
  | run r => ∀ p ∈ r.platform, (Value.provider p).Unmistakable
  | _ => True

theorem run_eq_of_members_eq {r s : Run} (clearR : (run r).Unmistakable)
    (clearS : (run s).Unmistakable) (same : (run r).members = (run s).members) : r = s := by
  obtain ⟨executable, arguments, input, workingDirectory, environment, environmentFiles, platform,
    hideStdout, hideStderr, messages⟩ := r
  obtain ⟨executable', arguments', input', workingDirectory', environment', environmentFiles',
    platform', hideStdout', hideStderr', messages'⟩ := s
  simp only [members, List.cons.injEq, Prod.mk.injEq, Json.array.injEq, Json.object.injEq,
    Json.bool.injEq] at same
  rcases same with ⟨_, ⟨_, environments⟩, ⟨_, files⟩, ⟨_, args⟩, ⟨_, directory⟩, ⟨_, programs⟩,
    ⟨_, stderr⟩, ⟨_, stdout⟩, ⟨_, inputs⟩, ⟨_, platforms⟩, ⟨_, structured⟩, _⟩
  rw [Run.mk.injEq]
  refine ⟨Executable.eq_of_encode_eq programs, ?_, ?_, eq_of_optionalText_eq directory,
    eq_of_stringEntries_eq environments, ?_, ?_, stdout, stderr, ?_⟩
  · exact eq_of_map_eq (fun _ _ _ _ => Argument.eq_of_encode_eq) args
  · exact eq_of_ofOption_eq Label.encode_ne_null (fun _ _ _ _ => Label.eq_of_encode_eq) inputs
  · exact eq_of_map_eq (fun _ _ _ _ => Label.eq_of_encode_eq) files
  · refine eq_of_ofOption_eq Provider.encode_ne_null (fun p isP q isQ => ?_) platforms
    exact Provider.eq_of_encode_eq (clearR p isP) (clearS q isQ)
  · exact eq_of_ofOption_eq (by simp [StructuredMessages.encode])
      (fun _ _ _ _ => StructuredMessages.eq_of_encode_eq) structured

/-- Work that has the same members is the same: its kind stands under the tag. -/
theorem eq_of_members_eq {a b : ActionData} (clearA : a.Unmistakable) (clearB : b.Unmistakable)
    (same : a.members = b.members) : a = b := by
  have kinds : a.kind = b.kind := by
    rw [members_eq, members_eq, List.cons.injEq, Prod.mk.injEq, Json.string.injEq] at same
    exact same.1.2
  cases a with
  | run r => cases b with
    | run s => rw [run_eq_of_members_eq clearA clearB same]
    | _ => simp [kind] at kinds
  | download d => cases b with
    | download e =>
        obtain ⟨urls, hash, filename, executable, userAgent⟩ := d
        obtain ⟨urls', hash', filename', executable', userAgent'⟩ := e
        simp only [members, List.cons.injEq, Prod.mk.injEq, Json.bool.injEq, Json.string.injEq]
          at same
        rcases same with ⟨_, ⟨_, flags⟩, ⟨_, names⟩, ⟨_, hashes⟩, ⟨_, addresses⟩, ⟨_, agents⟩, _⟩
        rw [flags, eq_of_optionalText_eq names, eq_of_optionalText_eq hashes,
          eq_of_strings_eq addresses, agents]
    | _ => simp [kind] at kinds
  | gitClone url revision => cases b with
    | gitClone url' revision' =>
        simp only [members, List.cons.injEq, Prod.mk.injEq, Json.string.injEq] at same
        rw [same.2.1.2, same.2.2.1.2]
    | _ => simp [kind] at kinds
  | dockerDownload image architecture => cases b with
    | dockerDownload image' architecture' =>
        simp only [members, List.cons.injEq, Prod.mk.injEq, Json.string.injEq] at same
        rw [same.2.1.2, same.2.2.1.2]
    | _ => simp [kind] at kinds
  | extract archive stripPrefix => cases b with
    | extract archive' stripPrefix' =>
        simp only [members, List.cons.injEq, Prod.mk.injEq] at same
        rw [Label.eq_of_encode_eq same.2.1.2, eq_of_optionalText_eq same.2.2.1.2]
    | _ => simp [kind] at kinds
  | buildDepmap entries => cases b with
    | buildDepmap entries' =>
        simp only [members, List.cons.injEq, Prod.mk.injEq, Json.array.injEq] at same
        have all : entries = entries' := eq_of_map_eq (fun x _ y _ same => by
          simp only [Json.array.injEq, List.cons.injEq] at same
          exact Prod.ext (LabelPath.eq_of_encode_eq same.1)
            (DepmapEntry.eq_of_encode_eq same.2.1)) same.2.1.2
        rw [all]
    | _ => simp [kind] at kinds
  | transition t => cases b with
    | transition u =>
        obtain ⟨label, options⟩ := t
        obtain ⟨label', options'⟩ := u
        simp only [members, List.cons.injEq, Prod.mk.injEq] at same
        rw [BuildConfig.eq_of_encodeOptions_eq same.2.1.2, Label.eq_of_encode_eq same.2.2.1.2]
    | _ => simp [kind] at kinds

end ActionData

/-! ## Ids -/

namespace Action

/-- The actions are described alike and do the same work. -/
structure SameContent (a b : Action) : Prop where
  mnemonic : a.mnemonic = b.mnemonic
  progressMessage : a.progressMessage = b.progressMessage
  data : a.data = b.data

theorem SameContent.encodeWith {a b : Action} (same : SameContent a b) (id : String) :
    a.encodeWith id = b.encodeWith id := by
  rw [encodeWith_eq, encodeWith_eq, membersWith, membersWith, same.mnemonic, same.progressMessage,
    same.data]

/-- The texts stand under their keys, and without them an action is its work. -/
theorem sameContent_of_encodeWith_eq {a b : Action} (clearA : a.data.Unmistakable)
    (clearB : b.data.Unmistakable) {id : String} (same : a.encodeWith id = b.encodeWith id) :
    SameContent a b := by
  rw [encodeWith_eq, encodeWith_eq, Json.object.injEq] at same
  have mnemonics := (a.lookup_mnemonic id).symm.trans (same ▸ b.lookup_mnemonic id)
  have messages := (a.lookup_progressMessage id).symm.trans (same ▸ b.lookup_progressMessage id)
  have work : a.data.members = b.data.members := by
    rw [← a.filter_membersWith id, same, b.filter_membersWith id]
  exact ⟨by simpa using mnemonics, by simpa using messages,
    ActionData.eq_of_members_eq clearA clearB work⟩

/-- Actions without ids of their own have the same tree under the empty id exactly if they have the
same content. So they have the same id exactly then, unless two trees have one text or two texts have
one digest. -/
theorem same_tree_and_id_iff {a b : Action} (unnamedA : a.explicitId = none)
    (unnamedB : b.explicitId = none) (clearA : a.data.Unmistakable)
    (clearB : b.data.Unmistakable) :
    (a.encodeWith "" = b.encodeWith "" ↔ SameContent a b) ∧
    ((a.preimage = b.preimage → a.encodeWith "" = b.encodeWith "") →
      (Digest.sha256Text a.preimage = Digest.sha256Text b.preimage → a.preimage = b.preimage) →
        (a.id = b.id ↔ SameContent a b)) := by
  have trees : a.encodeWith "" = b.encodeWith "" ↔ SameContent a b :=
    ⟨sameContent_of_encodeWith_eq clearA clearB, fun same => same.encodeWith ""⟩
  refine ⟨trees, fun printing digest => ?_⟩
  have ids : a.id = b.id ↔ Digest.sha256Text a.preimage = Digest.sha256Text b.preimage := by
    rw [id, id, unnamedA, unnamedB]
    rfl
  rw [ids]
  refine ⟨fun same => trees.mp (printing (digest same)), fun same => ?_⟩
  rw [preimage, preimage, same.encodeWith ""]

/-- A label and the text that spells it are told apart among the arguments of a program, and so are
two revisions of a repository. -/
theorem same_tree_and_id_iff_apart :
    let platform : Provider := ⟨⟨⟨"//p:f"⟩, "P"⟩, [("$trellis_label", .string "//p:t")]⟩
    let program (argument : Argument) : Action :=
      ⟨none, "", "", .run
        { Run.ofCommand ⟨none, none, "cc", [], []⟩ [argument] with platform := some platform }⟩
    let clone (revision : String) : Action := ofData (.gitClone "u" revision)
    (program (.literal "//p:t")).encodeWith "" ≠ (program (.label ⟨"//p:t"⟩)).encodeWith "" ∧
    (clone "r").id ≠ (clone "s").id := by
  intro platform program clone
  have clear (argument : Argument) : (program argument).data.Unmistakable := by
    intro p isPlatform
    cases isPlatform
    exact .intro trivial (List.forall_mem_singleton.mpr (.leaf trivial rfl))
  have programs : ¬ SameContent (program (.literal "//p:t")) (program (.label ⟨"//p:t"⟩)) :=
    fun same => absurd same.data (by decide)
  have clones : ¬ SameContent (clone "r") (clone "s") := fun same => absurd same.data (by decide)
  have printing : (clone "r").preimage ≠ (clone "s").preimage := by decide +kernel
  have digest : Digest.sha256Text (clone "r").preimage ≠ Digest.sha256Text (clone "s").preimage := by
    decide +kernel
  refine ⟨mt (same_tree_and_id_iff rfl rfl (clear _) (clear _)).1.mp programs, ?_⟩
  have ids := (same_tree_and_id_iff (a := clone "r") (b := clone "s") rfl rfl trivial trivial).2
  exact mt (ids (fun same => absurd same printing) fun same => absurd same digest).mp clones

end Action

end RuleAnalysis
