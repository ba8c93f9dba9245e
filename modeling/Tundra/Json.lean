import Tundra.Common
import Mathlib.Data.Rat.Defs

/-!
# JSON values

The tree `JsonParse` makes of a document. Its numbers are doubles; a double is a rational number, and nothing
but its integral part is ever used.
-/

namespace Tundra

inductive JsonValue where
  | null
  | boolean (b : Bool)
  | object (members : List (CString × JsonValue))
  | array (values : List JsonValue)
  | string (s : CString)
  | number (n : Rat)

/-- The conversion of a double to `int64_t`, as the processor does it. -/
def doubleToInt64 (n : Rat) : Int64 :=
  let truncated := n.num.tdiv n.den
  if -2 ^ 63 ≤ truncated ∧ truncated < 2 ^ 63 then .ofInt truncated else .minValue

/-- The conversion of a double to `int`. -/
def doubleToInt32 (n : Rat) : Int32 :=
  let truncated := n.num.tdiv n.den
  if -2 ^ 31 ≤ truncated ∧ truncated < 2 ^ 31 then .ofInt truncated else .minValue

namespace JsonValue

def asObject : JsonValue → Option (List (CString × JsonValue))
  | .object members => some members
  | _ => none

def asArray : JsonValue → Option (List JsonValue)
  | .array values => some values
  | _ => none

def asString : JsonValue → Option CString
  | .string s => some s
  | _ => none

def asNumber : JsonValue → Option Rat
  | .number n => some n
  | _ => none

def asBoolean : JsonValue → Option Bool
  | .boolean b => some b
  | _ => none

end JsonValue

/-- The members of an object, `JsonObjectValue`. -/
abbrev JsonObject := List (CString × JsonValue)

/-- `JsonValue::Find` on an object. -/
def JsonObject.find (obj : JsonObject) (key : CString) : Option JsonValue :=
  (obj.find? fun member => member.1 = key).map Prod.snd

def memberNames : List String :=
  ["Setup", "Passes", "Scanners", "Nodes", "FileSignatures", "GlobSignatures", "ContentDigestExtensions",
    "MaxExpensiveCount",
    "StateFileName", "StateFileNameTmp", "ScanCacheFileName", "ScanCacheFileNameTmp", "DigestCacheFileName",
      "DigestCacheFileNameTmp",
    "Action", "PreAction", "Annotation", "PassIndex", "Deps", "Inputs", "Outputs", "AuxOutputs", "Env", "Key", "Value",
    "ScannerIndex", "OverwriteOutputs", "PreciousOutputs", "Expensive",
    "Kind", "IncludePaths", "RequireWhitespace", "UseSeparators", "BareMeansSystem", "Keywords", "KeywordsNoFollow",
    "Configs", "Variants", "SubVariants", "BuildTuples", "DefaultBuildTuple", "ConfigIndex", "VariantIndex",
      "SubVariantIndex",
    "AlwaysNodes", "DefaultNodes", "NamedNodes", "File", "Path"]

/-- Two member names are the same string only if they are the same name. -/
theorem lit_inj {s t : String} (hs : s ∈ memberNames) (ht : t ∈ memberNames) :
    CString.lit s = CString.lit t ↔ s = t := by
  have hall : ∀ s ∈ memberNames, (0 : UInt8) ∉ s.toByteArray.data.toList := by decide +kernel
  exact CString.lit_inj_of_noNul (hall s hs) (hall t ht)

namespace JsonObject

@[simp] theorem find_nil (key : CString) : find [] key = none := rfl

@[simp] theorem find_append (l r : JsonObject) (key : CString) : find (l ++ r) key = (l.find key).or (r.find key) := by
  rw [find, List.find?_append, Option.map_or]
  rfl

@[simp] theorem find_cons (name : CString) (value : JsonValue) (rest : JsonObject) (key : CString) :
    find ((name, value) :: rest) key = if name = key then some value else rest.find key := by
  by_cases h : name = key <;> simp [find, h]

end JsonObject

end Tundra
