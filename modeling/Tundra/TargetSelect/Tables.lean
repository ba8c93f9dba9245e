import Tundra.TargetSelect

/-!
# Target selection by name

What `SelectTargets` does, in terms of the names of the configurations, variants and subvariants and not of
their hashes. The targets of a command line are the requested triples, each once.
-/

namespace Tundra

/-- The names of the configurations, variants and subvariants, and the indices that stand for those the command
line leaves out. -/
structure TargetTables where
  configs : List CString
  variants : List CString
  subVariants : List CString
  defaultConfigIndex : Int32
  defaultVariantIndex : Int32
  defaultSubVariantIndex : Int32

namespace TargetTables

variable (t : TargetTables)

/-- What `SelectTargets` gets to see. -/
def input (names : List CString) : TargetSelectInput where
  configNameHashes := t.configs.map djb2Hash
  variantNameHashes := t.variants.map djb2Hash
  subVariantNameHashes := t.subVariants.map djb2Hash
  inputNames := names
  defaultConfigIndex := t.defaultConfigIndex
  defaultVariantIndex := t.defaultVariantIndex
  defaultSubVariantIndex := t.defaultSubVariantIndex

/-- At most 32 names of a kind, and a default is one of them or there is none. -/
structure Sized : Prop where
  configs : t.configs.length ≤ 32
  variants : t.variants.length ≤ 32
  subVariants : t.subVariants.length ≤ 32
  defaultVariant : t.defaultVariantIndex.toInt < t.variants.length
  defaultSubVariant : t.defaultSubVariantIndex.toInt < t.subVariants.length

end TargetTables

/-- The parts of a name that is not a variant or a subvariant alone. -/
inductive SpecName where
  | config (config : CString)
  | variant (config variant : CString)
  | subVariant (config variant subVariant : CString)
deriving DecidableEq

namespace SpecName

/-- The parts with dashes between them. -/
def text : SpecName → List UInt8
  | config configName => configName.bytes
  | variant configName variantName => configName.bytes ++ 45 :: variantName.bytes
  | subVariant configName variantName subVariantName =>
      configName.bytes ++ 45 :: (variantName.bytes ++ 45 :: subVariantName.bytes)

def parts : SpecName → List CString
  | config configName => [configName]
  | variant configName variantName => [configName, variantName]
  | subVariant configName variantName subVariantName => [configName, variantName, subVariantName]

/-- Where the tables have the parts. -/
def indices (t : TargetTables) : SpecName → Option InputSpec
  | config configName => do
      let configIndex ← t.configs.idxOf? configName
      return ⟨configIndex, none, none⟩
  | variant configName variantName => do
      let configIndex ← t.configs.idxOf? configName
      let variantIndex ← t.variants.idxOf? variantName
      return ⟨configIndex, some variantIndex, none⟩
  | subVariant configName variantName subVariantName => do
      let configIndex ← t.configs.idxOf? configName
      let variantIndex ← t.variants.idxOf? variantName
      let subVariantIndex ← t.subVariants.idxOf? subVariantName
      return ⟨configIndex, some variantIndex, some subVariantIndex⟩

/-- A configuration is a platform and a toolset: it has one dash, and a variant has none. -/
def Dashed : SpecName → Prop
  | config configName => configName.bytes.count 45 = 1
  | variant configName variantName | subVariant configName variantName _ =>
      configName.bytes.count 45 = 1 ∧ 45 ∉ variantName.bytes

end SpecName

/-- A name that is made of the names of a configuration, of a variant and of a subvariant, the last ones of
which can be missing. -/
def JoinsSpec (t : TargetTables) (name : CString) (spec : InputSpec) : Prop :=
  ∃ parts : SpecName, parts.text = name.bytes ∧ parts.indices t = some spec

/-- Such a name, cut at its second and third dash. -/
def SplitsSpec (t : TargetTables) (name : CString) (spec : InputSpec) : Prop :=
  ∃ parts : SpecName, parts.text = name.bytes ∧ parts.Dashed ∧ parts.indices t = some spec

/-- What a name of the command line stands for. -/
inductive NameKind where
  | subVariant (index : Nat)
  | variant (index : Nat)
  | spec (spec : InputSpec)
  | target (name : CString)

def NameKind.targetName : NameKind → Option CString
  | target name => some name
  | _ => none

/-- A name is a subvariant, else a variant, else a spec, else a target. -/
inductive Classifies (t : TargetTables) (reads : CString → InputSpec → Prop) (name : CString) : NameKind → Prop
  | subVariant {index : Nat} (hindex : t.subVariants.idxOf? name = some index) : Classifies t reads name
      (.subVariant index)
  | variant {index : Nat} (hsub : name ∉ t.subVariants) (hindex : t.variants.idxOf? name = some index) :
      Classifies t reads name (.variant index)
  | spec {spec : InputSpec} (hsub : name ∉ t.subVariants) (hvariant : name ∉ t.variants) (hspec : reads name spec) :
      Classifies t reads name (.spec spec)
  | target (hsub : name ∉ t.subVariants) (hvariant : name ∉ t.variants) (hspec : ∀ spec, ¬reads name spec) :
      Classifies t reads name (.target name)

/-- A spec of the command line, or the default configuration if there is none. -/
def Requested (t : TargetTables) (kinds : List NameKind) (spec : InputSpec) : Prop :=
  .spec spec ∈ kinds ∨ (∀ other, .spec other ∉ kinds) ∧ t.defaultConfigIndex.toInt = spec.configIndex ∧
    spec.variantIndex = none ∧ spec.subVariantIndex = none

/-- The index of the spec itself, else one that was named, else the default one. -/
def OnAxis (own : Option Nat) (named : Nat → Prop) (defaultIndex : Int32) (index : Nat) : Prop :=
  own = some index ∨ own = none ∧ (named index ∨ (∀ other, ¬named other) ∧ defaultIndex.toInt = index)

/-- The triples that a command line asks for. -/
def SelectedBy (t : TargetTables) (kinds : List NameKind) (target : TargetSpec) : Prop :=
  ∃ spec, Requested t kinds spec ∧ spec.configIndex = target.configIndex ∧
    OnAxis spec.variantIndex (.variant · ∈ kinds) t.defaultVariantIndex target.variantIndex ∧
    OnAxis spec.subVariantIndex (.subVariant · ∈ kinds) t.defaultSubVariantIndex target.subVariantIndex

/-- A piece of a name from a dash or the start of the name to a dash or its end. -/
def IsPart (part name : CString) : Prop :=
  ∃ before after, name.bytes = before ++ (part.bytes ++ after) ∧ (before = [] ∨ before.getLast? = some 45) ∧
    (after = [] ∨ after.head? = some 45)

/-- No piece of a name has the hash of another name in the tables. -/
def Collisionless (t : TargetTables) (names : List CString) : Prop :=
  ∀ name ∈ names, ∀ part, IsPart part name →
    ∀ known ∈ t.configs ++ t.variants ++ t.subVariants, djb2Hash part = djb2Hash known → part = known

/-- `SelectTargets` on a command line, when names are read as specs in a certain way. -/
def SelectsBy (t : TargetTables) (reads : CString → InputSpec → Prop) (names : List CString) : Prop :=
  ∃ kinds output, List.Forall₂ (Classifies t reads) names kinds ∧
    selectTargets (t.input names) = some (output, kinds.filterMap NameKind.targetName) ∧ output.Nodup ∧
    ∀ target, target ∈ output ↔ SelectedBy t kinds target

end Tundra
