import Tundra.TargetSelect.Tables

/-!
# `SelectTargets` selects the requested targets

The dashes of a name are found where its parts end, the hash of a part finds the part in its table, and the
loops over the bits put out every combination once.
-/

namespace Tundra

variable {t : TargetTables} {names : List CString} {name : CString}

/-! ### The parts of a name -/

section Dashes

theorem CString.bytes_slice (s : CString) (offset len : Nat) :
    (s.slice offset len).bytes = (s.bytes.drop offset).take len := rfl

variable {s part : CString} {between : List UInt8} {len : Nat} (offset : Nat) (before after : List UInt8)

theorem findIdx_dash (h : 45 ∉ between) : between.findIdx? (· = 45) = none := by
  rw [List.findIdx?_eq_none_iff]
  intro ch hch
  rw [decide_eq_false_iff_not]
  rintro rfl
  exact h hch

theorem findDash_some (hs : s.bytes = before ++ (between ++ 45 :: after)) (hbetween : 45 ∉ between)
    (hoffset : offset = before.length) :
    findDash s offset = some (offset + between.length) := by
  have hfind : (between ++ 45 :: after).findIdx? (· = 45) = some between.length := by
    rw [List.findIdx?_append, findIdx_dash hbetween, List.findIdx?_cons]
    simp
  rw [findDash, hs, hoffset, List.drop_left, hfind, Option.map_some]

theorem findDash_none (hs : s.bytes = before ++ after) (hafter : 45 ∉ after) (hoffset : offset = before.length) :
    findDash s offset = none := by
  rw [findDash, hs, hoffset, List.drop_left, findIdx_dash hafter, Option.map_none]

theorem slice_part {offset : Nat} (hs : s.bytes = before ++ (part.bytes ++ after))
    (hoffset : offset = before.length) (hlen : len = part.bytes.length) :
    s.slice offset len = part := by
  apply CString.ext_bytes
  rw [CString.bytes_slice, hs, hoffset, hlen, List.drop_left, List.take_left]

theorem slice_last {offset : Nat} (hs : s.bytes = before ++ part.bytes) (hoffset : offset = before.length)
    (hlen : part.bytes.length ≤ len) :
    s.slice offset len = part := by
  apply CString.ext_bytes
  rw [CString.bytes_slice, hs, hoffset, List.drop_left, List.take_of_length_le hlen]

end Dashes

theorem exists_platform {config : CString} (h : config.bytes.count 45 = 1) :
    ∃ platform toolset : List UInt8, config.bytes = platform ++ 45 :: toolset ∧ 45 ∉ platform ∧ 45 ∉ toolset := by
  obtain ⟨platform, toolset, hbytes, hplatform⟩ :=
    List.eq_append_cons_of_mem (List.count_pos_iff.mp (by omega : 0 < config.bytes.count 45))
  refine ⟨platform, toolset, hbytes, hplatform, fun htoolset => ?_⟩
  rw [hbytes, List.count_append, List.count_cons_self] at h
  have hpos := List.count_pos_iff.mpr htoolset
  omega

namespace SpecName

variable {parts : SpecName}

/-- A name with a dash is cut at its second and third dash in one way. -/
theorem exists_dashed (hdash : 45 ∈ name.bytes) : ∃ parts : SpecName, parts.text = name.bytes ∧ parts.Dashed := by
  have hpiece : ∀ {before piece after : List UInt8}, name.bytes = before ++ (piece ++ after) → (0 : UInt8) ∉ piece := by
    intro before piece after hbytes hzero
    refine name.noNul ?_
    rw [hbytes]
    exact List.mem_append_right _ (List.mem_append_left _ hzero)
  obtain ⟨platform, rest, hbytes, hplatform⟩ := List.eq_append_cons_of_mem hdash
  by_cases hrest : 45 ∈ rest
  · obtain ⟨toolset, rest, rfl, htoolset⟩ := List.eq_append_cons_of_mem hrest
    have hconfig : name.bytes = [] ++ ((platform ++ 45 :: toolset) ++ 45 :: rest) := by rw [hbytes]; simp
    have hcount : (platform ++ 45 :: toolset).count 45 = 1 := by
      rw [List.count_append, List.count_cons_self, List.count_eq_zero_of_not_mem hplatform,
        List.count_eq_zero_of_not_mem htoolset]
    by_cases hrest : 45 ∈ rest
    · obtain ⟨variantName, rest, rfl, hvariant⟩ := List.eq_append_cons_of_mem hrest
      have hmiddle : name.bytes = (platform ++ 45 :: toolset ++ [45]) ++ (variantName ++ 45 :: rest) := by
        rw [hbytes]; simp
      have hlast : name.bytes = (platform ++ 45 :: toolset ++ 45 :: variantName ++ [45]) ++ (rest ++ []) := by
        rw [hbytes]; simp
      exact ⟨subVariant ⟨_, hpiece hconfig⟩ ⟨_, hpiece hmiddle⟩ ⟨_, hpiece hlast⟩, hconfig.symm, hcount, hvariant⟩
    · have hlast : name.bytes = (platform ++ 45 :: toolset ++ [45]) ++ (rest ++ []) := by rw [hbytes]; simp
      exact ⟨variant ⟨_, hpiece hconfig⟩ ⟨_, hpiece hlast⟩, hconfig.symm, hcount, hrest⟩
  · refine ⟨config name, rfl, ?_⟩
    rw [Dashed, hbytes, List.count_append, List.count_cons_self, List.count_eq_zero_of_not_mem hplatform,
      List.count_eq_zero_of_not_mem hrest]

theorem isPart_of_mem_parts {part : CString} (htext : parts.text = name.bytes) (h : part ∈ parts.parts) :
    IsPart part name := by
  cases parts with
  | config configName =>
      rw [List.mem_singleton.mp h]
      exact ⟨[], [], by rw [List.append_nil]; exact htext.symm, .inl rfl, .inl rfl⟩
  | variant configName variantName =>
      rcases List.mem_pair.mp h with rfl | rfl
      · exact ⟨[], 45 :: variantName.bytes, htext.symm, .inl rfl, .inr rfl⟩
      · exact ⟨configName.bytes ++ [45], [], by rw [← htext, text]; simp, .inr List.getLast?_concat, .inl rfl⟩
  | subVariant configName variantName subVariantName =>
      rcases List.mem_cons.mp h with rfl | h
      · exact ⟨[], 45 :: (variantName.bytes ++ 45 :: subVariantName.bytes), htext.symm, .inl rfl, .inr rfl⟩
      · rcases List.mem_pair.mp h with rfl | rfl
        · exact ⟨configName.bytes ++ [45],
            45 :: subVariantName.bytes, by rw [← htext, text]; simp, .inr List.getLast?_concat, .inr rfl⟩
        · exact ⟨configName.bytes ++ 45 :: variantName.bytes ++ [45],
            [], by rw [← htext, text]; simp, .inr List.getLast?_concat, .inl rfl⟩

end SpecName

/-! ### Hashes -/

/-- A name is found by its hash when no other name has it. -/
theorem findHash_map {table : List CString} (h : ∀ known ∈ table, djb2Hash name = djb2Hash known → name = known) :
    findHash (table.map djb2Hash) (djb2Hash name) = table.idxOf? name := by
  induction table with
  | nil => rfl
  | cons known table ih =>
      have ih := ih fun other hother => h other (List.mem_cons_of_mem _ hother)
      rw [findHash] at ih ⊢
      rw [List.map_cons, List.findIdx?_cons, List.idxOf?_cons, ih]
      by_cases heq : known = name
      · rw [heq]
        simp
      · have hhash : djb2Hash known ≠ djb2Hash name := fun hhash => heq (h known List.mem_cons_self hhash.symm).symm
        simp [heq, hhash]

/-- The dashes of a name that begins with a configuration, and the configuration between them. -/
theorem findDash_config {configName : CString} {platform toolset rest : List UInt8}
    (hconfig : configName.bytes = platform ++ 45 :: toolset) (hplatform : 45 ∉ platform) (htoolset : 45 ∉ toolset)
    (hname : name.bytes = configName.bytes ++ 45 :: rest) :
    findDash name 0 = some (0 + platform.length) ∧ findDash name (0 + platform.length + 1) = some
    (0 + platform.length + 1 + toolset.length) ∧
      name.slice 0 (0 + platform.length + 1 + toolset.length) = configName := by
  have hbytes : name.bytes = platform ++ 45 :: (toolset ++ 45 :: rest) := by
    rw [hname, hconfig]
    simp
  refine ⟨findDash_some 0 [] _ hbytes hplatform rfl, ?_, ?_⟩
  · apply findDash_some (0 + platform.length + 1) (platform ++ [45]) rest
    · rw [hbytes]
      simp
    · exact htoolset
    · simp
  · apply slice_part [] (45 :: rest) hname rfl
    rw [hconfig]
    simp
    omega

/-- A cut name whose parts are told apart by their hashes. -/
theorem destructureInputSpec_parts {parts : SpecName} (hlength : name.bytes.length < 256)
    (htext : parts.text = name.bytes) (hdashed : parts.Dashed)
    (hparts : ∀ part ∈ parts.parts, ∀ known ∈ t.configs ++ t.variants ++ t.subVariants, djb2Hash part =
    djb2Hash known → part = known) :
    destructureInputSpec (t.input names) name = parts.indices t := by
  have hbuffer : name.slice 0 255 = name := slice_last [] rfl rfl (by omega)
  have hconfig : ∀ {part : CString}, part ∈ parts.parts →
    findHash (t.configs.map djb2Hash) (djb2Hash part) = t.configs.idxOf? part :=
    fun hpart => findHash_map fun known hknown => hparts _ hpart known (by simp [hknown])
  have hvariant : ∀ {part : CString}, part ∈ parts.parts →
    findHash (t.variants.map djb2Hash) (djb2Hash part) = t.variants.idxOf? part :=
    fun hpart => findHash_map fun known hknown => hparts _ hpart known (by simp [hknown])
  have hsub : ∀ {part : CString}, part ∈ parts.parts →
    findHash (t.subVariants.map djb2Hash) (djb2Hash part) = t.subVariants.idxOf? part :=
    fun hpart => findHash_map fun known hknown => hparts _ hpart known (by simp [hknown])
  rw [destructureInputSpec, hbuffer]
  cases parts with
  | config configName =>
      obtain ⟨platform, toolset, hbytes, hplatform, htoolset⟩ := exists_platform hdashed
      cases CString.ext_bytes htext
      have hdash1 := findDash_some 0 [] _ hbytes hplatform rfl
      have hdash2 := findDash_none (0 + platform.length + 1) (platform ++ [45]) toolset (by rw [hbytes]; simp) htoolset
        (by simp)
      have hwhole : name.slice 0 name.bytes.length = name := slice_last [] rfl rfl le_rfl
      simp only [hdash1, hdash2, Option.bind_eq_bind, Option.bind_some, Option.bind_none, Option.map_none,
        Option.getD_none, hwhole, findPart]
      simp only [TargetTables.input, hconfig List.mem_cons_self]
      rfl
  | variant configName variantName =>
      obtain ⟨platform, toolset, hbytes, hplatform, htoolset⟩ := exists_platform hdashed.1
      have hname : name.bytes = platform ++ 45 :: (toolset ++ 45 :: variantName.bytes) := by
        rw [← htext, SpecName.text, hbytes]
        simp
      obtain ⟨hdash1, hdash2, hconfigSlice⟩ := findDash_config hbytes hplatform htoolset htext.symm
      have hdash3 := findDash_none (0 + platform.length + 1 + toolset.length + 1) (platform ++ 45 :: toolset ++ [45])
        variantName.bytes (by rw [hname]; simp) hdashed.2 (by simp; omega)
      have hvariantSlice : name.slice (0 + platform.length + 1 + toolset.length + 1)
          (name.bytes.length - (0 + platform.length + 1 + toolset.length + 1)) = variantName := by
        refine slice_last (platform ++ 45 :: toolset ++ [45]) ?_ ?_ ?_
        · rw [hname]
          simp
        · simp
          omega
        · rw [hname]
          simp
          omega
      simp only [hdash1, hdash2, hdash3, Option.bind_eq_bind, Option.bind_some, Option.map_some, Option.map_none,
        Option.getD_some, Option.getD_none,
        hconfigSlice, hvariantSlice, findPart]
      simp only [TargetTables.input, hconfig List.mem_cons_self,
        hvariant (show variantName ∈ _ by simp [SpecName.parts])]
      rw [SpecName.indices]
      cases t.configs.idxOf? configName with
      | none => rfl
      | some configIndex => cases t.variants.idxOf? variantName <;> rfl
  | subVariant configName variantName subVariantName =>
      obtain ⟨platform, toolset, hbytes, hplatform, htoolset⟩ := exists_platform hdashed.1
      have hname : name.bytes = platform ++ 45 ::
        (toolset ++ 45 :: (variantName.bytes ++ 45 :: subVariantName.bytes)) := by
        rw [← htext, SpecName.text, hbytes]
        simp
      obtain ⟨hdash1, hdash2, hconfigSlice⟩ := findDash_config hbytes hplatform htoolset htext.symm
      have hdash3 := findDash_some (0 + platform.length + 1 + toolset.length + 1) (platform ++ 45 :: toolset ++ [45])
        subVariantName.bytes (by rw [hname]; simp) hdashed.2 (by simp; omega)
      have hvariantSlice : name.slice (0 + platform.length + 1 + toolset.length + 1)
          (0 + platform.length + 1 + toolset.length + 1 +
            variantName.bytes.length - (0 + platform.length + 1 + toolset.length + 1)) = variantName := by
        refine slice_part (platform ++ 45 :: toolset ++ [45]) (45 :: subVariantName.bytes) ?_ ?_
          (Nat.add_sub_cancel_left _ _)
        · rw [hname]
          simp
        · simp
          omega
      have hsubSlice : name.slice (0 + platform.length + 1 + toolset.length + 1 + variantName.bytes.length + 1)
        name.bytes.length = subVariantName := by
        refine slice_last (platform ++ 45 :: toolset ++ 45 :: variantName.bytes ++ [45]) ?_ ?_ ?_
        · rw [hname]
          simp
        · simp
          omega
        · rw [hname]
          simp
          omega
      simp only [hdash1, hdash2, hdash3, Option.bind_eq_bind, Option.bind_some, Option.map_some, Option.getD_some,
        hconfigSlice, hvariantSlice, hsubSlice,
        findPart]
      simp only [TargetTables.input, hconfig List.mem_cons_self,
        hvariant (show variantName ∈ _ by simp [SpecName.parts]),
        hsub (show subVariantName ∈ _ by simp [SpecName.parts])]
      rw [SpecName.indices]
      cases t.configs.idxOf? configName with
      | none => rfl
      | some configIndex =>
          cases t.variants.idxOf? variantName with
          | none => rfl
          | some variantIndex => cases t.subVariants.idxOf? subVariantName <;> rfl

theorem destructureInputSpec_no_dash (hlength : name.bytes.length < 256) (hdash : 45 ∉ name.bytes) :
    destructureInputSpec (t.input names) name = none := by
  have hbuffer : name.slice 0 255 = name := slice_last [] rfl rfl (by omega)
  rw [destructureInputSpec, hbuffer]
  rw [findDash_none 0 [] name.bytes rfl hdash rfl]
  rfl

theorem destructureInputSpec_iff (hlength : name.bytes.length < 256)
    (hhash : ∀ part, IsPart part name →
    ∀ known ∈ t.configs ++ t.variants ++ t.subVariants, djb2Hash part = djb2Hash known → part = known)
    {spec : InputSpec} : destructureInputSpec (t.input names) name = some spec ↔ SplitsSpec t name spec := by
  have hparts : ∀ {parts : SpecName}, parts.text = name.bytes → parts.Dashed →
    destructureInputSpec (t.input names) name = parts.indices t :=
    fun htext hdashed => destructureInputSpec_parts hlength htext hdashed
      fun part hpart => hhash part (SpecName.isPart_of_mem_parts htext hpart)
  constructor
  · intro hspec
    by_cases hdash : 45 ∈ name.bytes
    · obtain ⟨parts, htext, hdashed⟩ := SpecName.exists_dashed hdash
      exact ⟨parts, htext, hdashed, (hparts htext hdashed).symm.trans hspec⟩
    · rw [destructureInputSpec_no_dash hlength hdash] at hspec
      cases hspec
  · rintro ⟨parts, htext, hdashed, hindices⟩
    exact (hparts htext hdashed).trans hindices

/-! ### The names of a command line -/

/-- What a name adds to those in front of it. -/
def Classified.add (c : Classified) : NameKind → Classified
  | .subVariant index => { c with subVariantBits := c.subVariantBits ||| bitMask index }
  | .variant index => { c with variantBits := c.variantBits ||| bitMask index }
  | .spec spec => { c with specs := c.specs ++ [spec] }
  | .target name => { c with targetNames := c.targetNames ++ [name] }

theorem isPart_self (name : CString) : IsPart name name := ⟨[], [], (List.append_nil _).symm, .inl rfl, .inl rfl⟩

theorem exists_kind (names : List CString) (hlength : name.bytes.length < 256)
    (hhash : ∀ part, IsPart part name →
    ∀ known ∈ t.configs ++ t.variants ++ t.subVariants, djb2Hash part = djb2Hash known → part = known) :
    ∃ kind, Classifies t (SplitsSpec t) name kind ∧ ∀ c, classify (t.input names) c name = c.add kind := by
  have hsubs : findHash (t.input names).subVariantNameHashes (djb2Hash name) = t.subVariants.idxOf? name :=
    findHash_map fun known hknown => hhash name (isPart_self name) known (by simp [hknown])
  have hvariants : findHash (t.input names).variantNameHashes (djb2Hash name) = t.variants.idxOf? name :=
    findHash_map fun known hknown => hhash name (isPart_self name) known (by simp [hknown])
  cases hsub : t.subVariants.idxOf? name with
  | some index =>
      refine ⟨.subVariant index, .subVariant hsub, fun c => ?_⟩
      rw [classify, hsubs, hsub]
      rfl
  | none =>
      have hsubMem : name ∉ t.subVariants := List.idxOf?_eq_none_iff.mp hsub
      cases hvariant : t.variants.idxOf? name with
      | some index =>
          refine ⟨.variant index, .variant hsubMem hvariant, fun c => ?_⟩
          rw [classify, hsubs, hsub, hvariants, hvariant]
          rfl
      | none =>
          have hvariantMem : name ∉ t.variants := List.idxOf?_eq_none_iff.mp hvariant
          cases hspec : destructureInputSpec (t.input names) name with
          | some spec =>
              refine ⟨.spec spec, .spec hsubMem hvariantMem ((destructureInputSpec_iff hlength hhash).mp hspec),
                fun c => ?_⟩
              rw [classify, hsubs, hsub, hvariants, hvariant, hspec]
              rfl
          | none =>
              refine ⟨.target name, .target hsubMem hvariantMem fun spec hreads => ?_, fun c => ?_⟩
              · rw [(destructureInputSpec_iff hlength hhash).mpr hreads] at hspec
                cases hspec
              · rw [classify, hsubs, hsub, hvariants, hvariant, hspec]
                rfl

theorem exists_kinds (names : List CString) {rest : List CString} (hlength : ∀ name ∈ rest, name.bytes.length < 256)
    (hhash : Collisionless t rest) :
    ∃ kinds, List.Forall₂ (Classifies t (SplitsSpec t)) rest kinds ∧ ∀ c, rest.foldl
    (classify (t.input names)) c = kinds.foldl Classified.add c := by
  induction rest with
  | nil => exact ⟨[], .nil, fun _ => rfl⟩
  | cons name rest ih =>
      obtain ⟨kind, hkind, hclassify⟩ :=
        exists_kind names (hlength name List.mem_cons_self) (hhash name List.mem_cons_self)
      obtain ⟨kinds, hkinds, hfold⟩ := ih (fun other hother => hlength other (List.mem_cons_of_mem _ hother))
        fun other hother => hhash other (List.mem_cons_of_mem _ hother)
      refine ⟨kind :: kinds, .cons hkind hkinds, fun c => ?_⟩
      rw [List.foldl_cons, List.foldl_cons, hclassify, hfold]

namespace Classified

variable {kinds : List NameKind} {c : Classified} {index : Nat}

theorem targetNames_foldl_add :
    (kinds.foldl add c).targetNames = c.targetNames ++ kinds.filterMap NameKind.targetName := by
  induction kinds generalizing c with
  | nil => exact (List.append_nil _).symm
  | cons kind kinds ih => cases kind <;> simp [ih, add, NameKind.targetName, List.filterMap_cons]

theorem mem_specs_foldl_add {spec : InputSpec} :
    spec ∈ (kinds.foldl add c).specs ↔ spec ∈ c.specs ∨ .spec spec ∈ kinds := by
  induction kinds generalizing c with
  | nil => simp
  | cons kind kinds ih => cases kind <;> simp [ih, add, or_assoc]

theorem variantBits_foldl_add (hsmall : ∀ index, .variant index ∈ kinds → index < 32) :
    (kinds.foldl add c).variantBits.toBitVec.getLsbD index = true ↔ c.variantBits.toBitVec.getLsbD index = true ∨
    .variant index ∈ kinds := by
  induction kinds generalizing c with
  | nil => simp
  | cons kind kinds ih =>
      have ih := @ih (c.add kind) fun index hindex => hsmall index (List.mem_cons_of_mem _ hindex)
      rw [List.foldl_cons, ih]
      cases kind with
      | variant other =>
          simp only [add, getLsbD_or_bitMask (hsmall other List.mem_cons_self), Bool.or_eq_true, decide_eq_true_eq,
            List.mem_cons,
            NameKind.variant.injEq, or_assoc]
      | subVariant other | spec other | target other => simp [add]

theorem subVariantBits_foldl_add (hsmall : ∀ index, .subVariant index ∈ kinds → index < 32) :
    (kinds.foldl add c).subVariantBits.toBitVec.getLsbD index = true ↔
    c.subVariantBits.toBitVec.getLsbD index = true ∨ .subVariant index ∈ kinds := by
  induction kinds generalizing c with
  | nil => simp
  | cons kind kinds ih =>
      have ih := @ih (c.add kind) fun index hindex => hsmall index (List.mem_cons_of_mem _ hindex)
      rw [List.foldl_cons, ih]
      cases kind with
      | subVariant other =>
          simp only [add, getLsbD_or_bitMask (hsmall other List.mem_cons_self), Bool.or_eq_true, decide_eq_true_eq,
            List.mem_cons,
            NameKind.subVariant.injEq, or_assoc]
      | variant other | spec other | target other => simp [add]

end Classified

/-! ### The bits of the axes -/

section Bits

variable {bits : UInt32} {named : Nat → Prop} {defaultIndex : Int32} {own : Option Nat} {index : Nat}

theorem eq_zero_iff_getLsbD : bits = 0 ↔ ∀ k, bits.toBitVec.getLsbD k = false := by
  constructor
  · rintro rfl k
    simp
  · intro h
    apply UInt32.toBitVec_inj.mp
    apply BitVec.eq_of_getLsbD_eq
    intro k _
    rw [h k]
    simp

/-- The bits of a word, or the default one if it has none. -/
theorem getLsbD_withDefault (hbits : ∀ k, bits.toBitVec.getLsbD k = true ↔ named k)
    (hdefault : defaultIndex.toInt < 32) :
    (withDefault bits defaultIndex).toBitVec.getLsbD index = true ↔ named index ∨ (∀ other, ¬named other) ∧
    defaultIndex.toInt = index := by
  have hzero : bits = 0 ↔ ∀ other, ¬named other := by
    simp only [eq_zero_iff_getLsbD, ← hbits, Bool.not_eq_true]
  have hsign : 0 ≤ defaultIndex ↔ 0 ≤ defaultIndex.toInt := Int32.le_iff_toInt_le
  rw [withDefault]
  split_ifs with hboth
  · have hnone := hzero.mp hboth.1
    have hindex := hsign.mp hboth.2
    rw [getLsbD_or_bitMask (by omega), hboth.1, or_iff_right (hnone index), and_iff_right hnone]
    simp only [UInt32.toBitVec_zero, BitVec.getLsbD_zero, Bool.false_or, decide_eq_true_eq]
    omega
  · rw [hbits]
    refine ⟨.inl, fun h => h.resolve_right fun hdefaulted => hboth ⟨hzero.mpr hdefaulted.1, hsign.mpr ?_⟩⟩
    rw [hdefaulted.2]
    exact Int.natCast_nonneg index

/-- The loop over the bits of a spec takes its own index, else the common ones. -/
theorem mem_bitIndices_specBits (hown : ∀ k, own = some k → k < 32) :
    index ∈ bitIndices (specBits own bits) ↔ own = some index ∨ own = none ∧ bits.toBitVec.getLsbD index = true := by
  rw [mem_bitIndices]
  cases own with
  | none => simp [specBits]
  | some k =>
      rw [specBits, toBitVec_bitMask (hown k rfl), BitVec.getLsbD_twoPow]
      have hk := hown k rfl
      simp [hk]

end Bits

/-! ### The output -/

section Output

variable {output specs : List TargetSpec}

theorem mem_foldl_appendSpec {target : TargetSpec} :
    target ∈ specs.foldl appendSpec output ↔ target ∈ output ∨ target ∈ specs := by
  induction specs generalizing output with
  | nil => simp
  | cons spec specs ih =>
      have hmem : target ∈ appendSpec output spec ↔ target ∈ output ∨ target = spec := by
        rw [appendSpec]
        split_ifs with hfound
        · exact ⟨.inl, fun h => h.elim id fun heq => heq ▸ hfound⟩
        · rw [List.mem_append, List.mem_singleton]
      rw [List.foldl_cons, ih, hmem, List.mem_cons, or_assoc]

theorem nodup_foldl_appendSpec (h : output.Nodup) : (specs.foldl appendSpec output).Nodup := by
  induction specs generalizing output with
  | nil => exact h
  | cons spec specs ih =>
      refine ih ?_
      rw [appendSpec]
      split_ifs with hfound
      · exact h
      · exact h.append (List.nodup_singleton spec) (List.disjoint_singleton.mpr hfound)

/-- The triples of a spec, in the order of the loops. -/
def specTargets (variantBits subVariantBits : UInt32) (spec : InputSpec) : List TargetSpec :=
  (bitIndices (specBits spec.variantIndex variantBits)).flatMap fun variantIndex =>
    (bitIndices (specBits spec.subVariantIndex subVariantBits)).map
      fun subVariantIndex => ⟨spec.configIndex, variantIndex, subVariantIndex⟩

theorem foldl_expandSpec (variantBits subVariantBits : UInt32) (inputs : List InputSpec) (output : List TargetSpec) :
    inputs.foldl (expandSpec variantBits subVariantBits) output =
    (inputs.flatMap (specTargets variantBits subVariantBits)).foldl appendSpec output := by
  rw [List.foldl_flatMap]
  congr 1
  funext output spec
  rw [expandSpec, specTargets, List.foldl_flatMap]
  congr 1
  funext output variantIndex
  rw [List.foldl_map]

theorem mem_specTargets {variantBits subVariantBits : UInt32} {spec : InputSpec} {target : TargetSpec} :
    target ∈ specTargets variantBits subVariantBits spec ↔ spec.configIndex = target.configIndex ∧
      target.variantIndex ∈ bitIndices (specBits spec.variantIndex variantBits) ∧
      target.subVariantIndex ∈ bitIndices (specBits spec.subVariantIndex subVariantBits) := by
  rw [specTargets, List.mem_flatMap]
  constructor
  · rintro ⟨variantIndex, hvariant, htarget⟩
    obtain ⟨subVariantIndex, hsub, rfl⟩ := List.mem_map.mp htarget
    exact ⟨rfl, hvariant, hsub⟩
  · rintro ⟨hconfig, hvariant, hsub⟩
    refine ⟨target.variantIndex, hvariant, List.mem_map.mpr ⟨target.subVariantIndex, hsub, ?_⟩⟩
    rw [hconfig]

end Output

theorem idxOf_lt {table : List CString} {index : Nat} (h : table.idxOf? name = some index) : index < table.length := by
  rw [List.idxOf?] at h
  exact (List.findIdx?_eq_some_iff_getElem.mp h).1

theorem index_lt_of_splitsSpec {spec : InputSpec} (h : SplitsSpec t name spec) :
    (∀ k, spec.variantIndex = some k → k < t.variants.length) ∧ ∀ k, spec.subVariantIndex = some k →
    k < t.subVariants.length := by
  obtain ⟨parts, -, -, hindices⟩ := h
  cases parts with
  | config configName =>
      rw [SpecName.indices, Option.bind_eq_bind, Option.bind_eq_some_iff] at hindices
      obtain ⟨configIndex, -, hspec⟩ := hindices
      cases hspec
      exact ⟨nofun, nofun⟩
  | variant configName variantName =>
      simp only [SpecName.indices, Option.bind_eq_bind, Option.bind_eq_some_iff] at hindices
      obtain ⟨configIndex, -, variantIndex, hvariant, hspec⟩ := hindices
      cases hspec
      refine ⟨fun k hk => ?_, nofun⟩
      cases hk
      exact idxOf_lt hvariant
  | subVariant configName variantName subVariantName =>
      simp only [SpecName.indices, Option.bind_eq_bind, Option.bind_eq_some_iff] at hindices
      obtain ⟨configIndex, -, variantIndex, hvariant, subVariantIndex, hsub, hspec⟩ := hindices
      cases hspec
      refine ⟨fun k hk => ?_, fun k hk => ?_⟩
      · cases hk
        exact idxOf_lt hvariant
      · cases hk
        exact idxOf_lt hsub

theorem exists_name_of_mem_kinds {reads : CString → InputSpec → Prop} {kinds : List NameKind}
    (h : List.Forall₂ (Classifies t reads) names kinds) {kind : NameKind} (hkind : kind ∈ kinds) :
    ∃ name ∈ names, Classifies t reads name kind := by
  induction h with
  | nil => cases hkind
  | cons hhead _ ih =>
      rcases List.mem_cons.mp hkind with rfl | hkind
      · exact ⟨_, List.mem_cons_self, hhead⟩
      · obtain ⟨name, hname, hclass⟩ := ih hkind
        exact ⟨name, List.mem_cons_of_mem _ hname, hclass⟩

theorem mem_specs_iff (kinds : List NameKind) (spec : InputSpec) :
    (spec ∈ if (kinds.foldl Classified.add ⟨[], 0, 0, []⟩).specs = [] ∧ 0 ≤ t.defaultConfigIndex then
        [⟨t.defaultConfigIndex.toInt.toNat, none, none⟩] else (kinds.foldl Classified.add ⟨[], 0, 0, []⟩).specs) ↔ Requested t kinds spec := by
  have hmem : ∀ other, other ∈ (kinds.foldl Classified.add ⟨[], 0, 0, []⟩).specs ↔ .spec other ∈ kinds :=
    fun other => Classified.mem_specs_foldl_add.trans (or_iff_right List.not_mem_nil)
  have hnil : (kinds.foldl Classified.add ⟨[], 0, 0, []⟩).specs = [] ↔ ∀ other, .spec other ∉ kinds := by
    simp only [List.eq_nil_iff_forall_not_mem, hmem]
  have hsign : 0 ≤ t.defaultConfigIndex ↔ 0 ≤ t.defaultConfigIndex.toInt := Int32.le_iff_toInt_le
  rw [Requested]
  split_ifs with hdefault
  · have hnone := hnil.mp hdefault.1
    rw [List.mem_singleton, or_iff_right (hnone spec), and_iff_right hnone]
    constructor
    · rintro rfl
      exact ⟨(Int.toNat_of_nonneg (hsign.mp hdefault.2)).symm, rfl, rfl⟩
    · rintro ⟨hconfig, hvariant, hsub⟩
      cases spec
      simp only at hconfig hvariant hsub
      rw [hconfig, hvariant, hsub, Int.toNat_natCast]
  · rw [hmem]
    refine ⟨.inl, fun h => h.resolve_right ?_⟩
    rintro ⟨hnone, hconfig, -⟩
    exact hdefault ⟨hnil.mpr hnone, hsign.mpr (by rw [hconfig]; exact Int.natCast_nonneg _)⟩

/-- `SelectTargets` puts out the requested triples, each once, when a spec is cut at its second and third dash. -/
theorem selectTargets_selects (hsized : t.Sized) (hlength : ∀ name ∈ names, name.bytes.length < 256)
    (hhash : Collisionless t names) :
    SelectsBy t (SplitsSpec t) names := by
  obtain ⟨kinds, hkinds, hfold⟩ := exists_kinds names hlength hhash
  have hvariants : ∀ index, .variant index ∈ kinds → index < 32 := by
    intro index hindex
    obtain ⟨name, -, hclass⟩ := exists_name_of_mem_kinds hkinds hindex
    cases hclass with
    | variant _ hindex => exact (idxOf_lt hindex).trans_le hsized.variants
  have hsubs : ∀ index, .subVariant index ∈ kinds → index < 32 := by
    intro index hindex
    obtain ⟨name, -, hclass⟩ := exists_name_of_mem_kinds hkinds hindex
    cases hclass with
    | subVariant hindex => exact (idxOf_lt hindex).trans_le hsized.subVariants
  have hown : ∀ spec, Requested t kinds spec → (∀ k, spec.variantIndex = some k → k < 32) ∧
    ∀ k, spec.subVariantIndex = some k → k < 32 := by
    rintro spec (hspec | ⟨-, -, hvariant, hsub⟩)
    · obtain ⟨name, -, hclass⟩ := exists_name_of_mem_kinds hkinds hspec
      cases hclass with
      | spec _ _ hreads =>
          obtain ⟨hvariant, hsub⟩ := index_lt_of_splitsSpec hreads
          exact ⟨fun k hk => (hvariant k hk).trans_le hsized.variants,
            fun k hk => (hsub k hk).trans_le hsized.subVariants⟩
    · rw [hvariant, hsub]
      exact ⟨nofun, nofun⟩
  let c := kinds.foldl Classified.add ⟨[], 0, 0, []⟩
  let specs := if c.specs = [] ∧ 0 ≤ t.defaultConfigIndex then [⟨t.defaultConfigIndex.toInt.toNat, none, none⟩]
    else c.specs
  let subVariantBits := withDefault c.subVariantBits t.defaultSubVariantIndex
  let variantBits := withDefault c.variantBits t.defaultVariantIndex
  have hselect : selectTargets (t.input names) =
    some (specs.foldl (expandSpec variantBits subVariantBits) [], kinds.filterMap NameKind.targetName) := by
    have hsizes : ¬(32 < (t.input names).configNameHashes.length ∨ 32 < (t.input names).variantNameHashes.length ∨
        32 < (t.input names).subVariantNameHashes.length) := by
      have hconfigs := hsized.configs
      have hvariants := hsized.variants
      have hsubVariants := hsized.subVariants
      simp only [TargetTables.input, List.length_map]
      omega
    rw [selectTargets, if_neg hsizes, show (t.input names).inputNames = names from rfl, hfold]
    rw [← List.nil_append (kinds.filterMap NameKind.targetName),
      ← Classified.targetNames_foldl_add (c := ⟨[], 0, 0, []⟩)]
    rfl
  refine ⟨kinds, _, hkinds, hselect, ?_, fun target => ?_⟩
  · rw [foldl_expandSpec]
    exact nodup_foldl_appendSpec .nil
  · have hvariantBits : ∀ k, c.variantBits.toBitVec.getLsbD k = true ↔ .variant k ∈ kinds := fun k =>
      (Classified.variantBits_foldl_add hvariants).trans (or_iff_right (by simp))
    have hsubVariantBits : ∀ k, c.subVariantBits.toBitVec.getLsbD k = true ↔ .subVariant k ∈ kinds := fun k =>
      (Classified.subVariantBits_foldl_add hsubs).trans (or_iff_right (by simp))
    have hdefaultVariant : t.defaultVariantIndex.toInt < 32 :=
      hsized.defaultVariant.trans_le (Int.ofNat_le.mpr hsized.variants)
    have hdefaultSub : t.defaultSubVariantIndex.toInt < 32 :=
      hsized.defaultSubVariant.trans_le (Int.ofNat_le.mpr hsized.subVariants)
    rw [foldl_expandSpec, mem_foldl_appendSpec, List.mem_flatMap, or_iff_right List.not_mem_nil, SelectedBy]
    apply exists_congr
    intro spec
    rw [mem_specs_iff]
    apply and_congr_right
    intro hrequested
    obtain ⟨hvariant, hsub⟩ := hown spec hrequested
    rw [mem_specTargets, mem_bitIndices_specBits hvariant, mem_bitIndices_specBits hsub,
      getLsbD_withDefault hvariantBits hdefaultVariant,
      getLsbD_withDefault hsubVariantBits hdefaultSub]
    rfl

theorem IsPart.slice {part : CString} (h : IsPart part name) :
    ∃ offset < name.bytes.length + 1, ∃ len < name.bytes.length + 1, part = name.slice offset len := by
  obtain ⟨before, after, hbytes, -, -⟩ := h
  have hlength := congrArg List.length hbytes
  rw [List.length_append, List.length_append] at hlength
  exact ⟨before.length, by omega, part.bytes.length, by omega, (slice_part _ _ hbytes rfl rfl).symm⟩

/-- All pieces of a name can be looked at one by one. -/
theorem collisionless_of_slices
    (h : ∀ name ∈ names, ∀ offset < name.bytes.length + 1, ∀ len < name.bytes.length + 1,
    ∀ known ∈ t.configs ++ t.variants ++ t.subVariants, djb2Hash (name.slice offset len) = djb2Hash known → name.slice offset len = known) :
    Collisionless t names := by
  intro name hname part hpart
  obtain ⟨offset, hoffset, len, hlen, rfl⟩ := hpart.slice
  exact h name hname offset hoffset len hlen

/-- Two configurations with two variants. -/
def builtTables : TargetTables where
  configs := [.lit "linux-gcc", .lit "macosx-clang"]
  variants := [.lit "debug", .lit "release"]
  subVariants := [.lit "default"]
  defaultConfigIndex := 0
  defaultVariantIndex := 0
  defaultSubVariantIndex := -1

theorem sized_builtTables : builtTables.Sized := ⟨by decide, by decide, by decide, by decide, by decide⟩

theorem selectTargets_selects_built :
    SelectsBy builtTables (SplitsSpec builtTables)
    [.lit "macosx-clang-release", .lit "default", .lit "debug", .lit "all"] :=
  selectTargets_selects sized_builtTables (by decide +kernel) (collisionless_of_slices (by decide +kernel))

/-- A variant with a dash in its name. -/
def dashedTables : TargetTables where
  configs := [.lit "linux-gcc"]
  variants := [.lit "x-y"]
  subVariants := [.lit "default"]
  defaultConfigIndex := 0
  defaultVariantIndex := 0
  defaultSubVariantIndex := 0

theorem sized_dashedTables : dashedTables.Sized := ⟨by decide, by decide, by decide, by decide, by decide⟩

/-- A name that ends in a variant with a dash is left over as a target. -/
theorem dashed_variant_is_target :
    ¬∀ (t : TargetTables) (names : List CString), t.Sized → (∀ name ∈ names, name.bytes.length < 256) →
    Collisionless t names → SelectsBy t (JoinsSpec t) names := by
  intro h
  obtain ⟨kinds, output, hkinds, hselect, -, -⟩ :=
    h dashedTables [.lit "linux-gcc-x-y"] sized_dashedTables (by decide +kernel)
      (collisionless_of_slices (by decide +kernel))
  have hrun : selectTargets (dashedTables.input [.lit "linux-gcc-x-y"]) =
    some ([⟨0, 0, 0⟩], [.lit "linux-gcc-x-y"]) := by decide +kernel
  have hspec : JoinsSpec dashedTables (.lit "linux-gcc-x-y") ⟨0, some 0, none⟩ :=
    ⟨.variant (.lit "linux-gcc") (.lit "x-y"), by decide +kernel, by decide +kernel⟩
  rw [hrun, Option.some.injEq, Prod.mk.injEq] at hselect
  cases hkinds with
  | cons hkind hrest =>
      cases hrest
      cases hkind with
      | target _ _ hnone => exact hnone _ hspec
      | subVariant | variant | spec => cases hselect.2

end Tundra
