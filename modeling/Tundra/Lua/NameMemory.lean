import Tundra.Lua.StringRefine
import Tundra.Lua.Interpolate
import Mathlib.Data.List.Induction

/-!
# Names in memory

`InterpolateVar` cuts a name into a key and options where it stands: a colon becomes a zero byte, and the
backslashes of an option go when it is unescaped. The key and the options are then C strings in the buffer of
the name. They are those of `splitName` and `unescapeOption`, so that `InterpolateVar` goes on as `addVar` does.
-/

namespace Tundra

namespace NameMemory

open Block (splice)

variable {size : Nat}

/-- `strchr`, from the byte that a pointer points to. -/
def strchr (ch : UInt8) : List UInt8 → Option (Option Nat)
  | [] => none
  | first :: rest =>
      if first = ch then some (some 0) else if first = 0 then some none else (strchr ch rest).map (Option.map (· + 1))

/-- `options[-1]`. In front of the buffer stands a byte of something else. -/
def byteBefore (before : UInt8) (data : Block UInt8 size) (pos : Nat) :
    Option UInt8 := if pos = 0 then some before else data.cells[pos - 1]?

/-- The loop that cuts the options off, with the pointers to those it has found. There is no result when there
are too many. -/
def cutOptions (before : UInt8) :
    Nat → Block UInt8 size → Nat → List Nat → Option (Option (Block UInt8 size × List Nat))
  | 0, _, _, _ => none
  | steps + 1, data, pos, optionPtrs =>
      (strchr 58 (data.cells.drop pos)).bind fun found => found.elim (some (some (data, optionPtrs))) fun offset =>
        (byteBefore before data (pos + offset)).bind fun prev =>
          if prev = 92 then cutOptions before steps data (pos + offset + 1) optionPtrs
          else if optionPtrs.length = kMaxOptions then some none
          else (data.write (pos + offset) [0]).bind fun data =>
            cutOptions before steps data (pos + offset + 1) (optionPtrs ++ [pos + offset + 1])

/-- The loop of `UnescapeOption`. -/
def unescapeInPlace : Nat → Nat → Nat → Block UInt8 size → Option (Block UInt8 size)
  | 0, _, _, _ => none
  | steps + 1, r, w, data =>
      data.cells[r]?.bind fun ch =>
        if ch = 0 then data.write w [0]
        else if ch = 92 then
          data.cells[r + 1]?.bind fun next =>
            if next = 58 then (data.write w [58]).bind (unescapeInPlace steps (r + 2) (w + 1))
            else (data.write w [ch]).bind (unescapeInPlace steps (r + 1) (w + 1))
        else (data.write w [ch]).bind (unescapeInPlace steps (r + 1) (w + 1))

/-- The C string that a pointer points to. -/
def stringAt (data : Block UInt8 size) (pos : Nat) : List UInt8 := (data.cells.drop pos).takeWhile (· ≠ 0)

/-- The key and the options of a name. -/
def parseName (before : UInt8) (data : Block UInt8 size) : Option (Option (List UInt8 × List (List UInt8))) :=
  (cutOptions before size data 0 []).bind fun cut => cut.elim (some none) fun (data, optionPtrs) =>
    (optionPtrs.foldlM (fun data p => unescapeInPlace size p p data) data).map
      fun data => some (stringAt data 0, optionPtrs.map (stringAt data))

/-- `InterpolateVar` behind `NullTerminate`, with the name in its buffer. -/
def addVarInPlace (interpolate : Interpolation) (lookup : EnvLookup) (output : StringBuffer) (before : UInt8)
    (data : Block UInt8 size) :
    Option (Outcome InterpolateError StringBuffer) :=
  (parseName before data).map fun name => name.elim (.error .interpolationFailed)
    fun (key, options) => lookupVar interpolate lookup output key options

/-- `InterpolateVar` from `NullTerminate` on, in the array that `GetBuffer` points to. -/
def addVarMemory (interpolate : Interpolation) (lookup : EnvLookup) (output : StringBuffer) (before : UInt8)
    (varName : StringMemory) :
    Option (Outcome InterpolateError StringBuffer) := do
  let varName ← varName.nullTerminate
  if varName.size ≠ 0 then addVarInPlace interpolate lookup output before varName.storage
  else addVarInPlace interpolate lookup output before varName.internal

/-! ### Cutting -/

/-- Where strings begin that stand one after the other. -/
def starts : Nat → List (List UInt8) → List Nat
  | _, [] => []
  | pos, text :: texts => pos :: starts (pos + text.length + 1) texts

/-- A key and options in memory. -/
def layout (pieces : List UInt8 × List (List UInt8)) : List UInt8 := pieces.1 ++ pieces.2.flatMap (0 :: ·)

theorem splitName_congr {prev prev' : UInt8} (h : prev = 92 ↔ prev' = 92) (text : List UInt8) :
    splitName prev text = splitName prev' text := by
  cases text with
  | nil => rfl
  | cons ch rest => simp only [splitName, ne_eq, h]

theorem splitName_other {ch : UInt8} (h : ch ≠ 58) (prev : UInt8) (rest : List UInt8) :
    splitName prev (ch :: rest) = (ch :: (splitName ch rest).1, (splitName ch rest).2) := if_neg fun hboth => h hboth.1

theorem splitName_colon (prev : UInt8) (rest : List UInt8) : splitName prev (58 :: rest) =
    if prev = 92 then (58 :: (splitName 58 rest).1, (splitName 58 rest).2)
    else ([], (splitName 58 rest).1 :: (splitName 58 rest).2) := by
  by_cases hprev : prev = 92
  · rw [if_pos hprev]
    exact if_neg fun hboth => hboth.2 hprev
  · rw [if_neg hprev]
    exact if_pos ⟨rfl, hprev⟩

theorem splice_one (front : List UInt8) (old new : UInt8) (back : List UInt8) :
    splice (front ++ old :: back) front.length [new] = front ++ new :: back := by
  simp [splice]

theorem cutOptions_other {before ch : UInt8} {steps pos : Nat} {data : Block UInt8 size} {rest : List UInt8}
    (hdrop : data.cells.drop pos = ch :: rest) (hcolon : ch ≠ 58) (hzero : ch ≠ 0) (optionPtrs : List Nat) :
    cutOptions before steps data pos optionPtrs = cutOptions before steps data (pos + 1) optionPtrs := by
  cases steps with
  | zero => rfl
  | succ steps =>
      have hnext : data.cells.drop (pos + 1) = rest := by
        rw [← List.drop_drop, hdrop, List.drop_succ_cons, List.drop_zero]
      rw [cutOptions, cutOptions, hnext, hdrop, strchr, if_neg hcolon, if_neg hzero]
      cases strchr 58 rest with
      | none => rfl
      | some found =>
          cases found with
          | none => rfl
          | some offset =>
              simp only [Option.map_some, Option.bind_some, Option.elim_some]
              rw [show pos + (offset + 1) = pos + 1 + offset by omega]

theorem getElem?_concat_before (before : UInt8) {data : Block UInt8 size} {done back : List UInt8}
    (h : data.cells = done ++ back) :
    byteBefore before data done.length = some (done.getLast?.getD before) := by
  rw [byteBefore, h]
  induction done using List.reverseRecOn with
  | nil => rfl
  | append_singleton done ch _ => simp

/-- The loop leaves the key and the options where they were, with a zero byte in place of each colon between them. -/
theorem cutOptions_eq (before : UInt8) {after : List UInt8} (text : List UInt8) (hzero : 0 ∉ text) :
    ∀ (steps : Nat) (done : List UInt8)
    (data : Block UInt8 size) (optionPtrs : List Nat), data.cells = done ++ (text ++ 0 :: after) →
    text.length < steps → optionPtrs.length ≤ kMaxOptions →
    (kMaxOptions < optionPtrs.length + (splitName (done.getLast?.getD before) text).2.length →
      cutOptions before steps data done.length optionPtrs = some none) ∧
    (optionPtrs.length + (splitName (done.getLast?.getD before) text).2.length ≤ kMaxOptions →
      ∃ data', cutOptions before steps data done.length optionPtrs =
          some (some (data', optionPtrs ++
          starts (done.length + (splitName (done.getLast?.getD before) text).1.length + 1)
            (splitName (done.getLast?.getD before) text).2)) ∧
        data'.cells = done ++ (layout (splitName (done.getLast?.getD before) text) ++ 0 :: after)) := by
  induction text with
  | nil =>
      intro steps done data optionPtrs hdata hsteps hptrs
      obtain ⟨steps, rfl⟩ : ∃ k, steps = k + 1 := ⟨steps - 1, by simp at hsteps; omega⟩
      have hdrop : data.cells.drop done.length = 0 :: after := by rw [hdata, List.drop_left' rfl, List.nil_append]
      refine ⟨fun hmany => absurd hmany (by simp [splitName]; omega), fun _ => ⟨data, ?_, ?_⟩⟩
      · rw [cutOptions, hdrop]
        simp [strchr, splitName, starts]
      · rw [hdata]
        simp [layout, splitName]
  | cons ch text ih =>
      intro steps done data optionPtrs hdata hsteps hptrs
      rw [List.mem_cons, not_or] at hzero
      have hdrop : data.cells.drop done.length = ch :: (text ++ 0 :: after) := by
        rw [hdata, List.drop_left' rfl, List.cons_append]
      rw [List.length_cons] at hsteps
      by_cases hch : ch = 58
      · subst hch
        obtain ⟨steps, rfl⟩ : ∃ k, steps = k + 1 := ⟨steps - 1, by omega⟩
        have hbefore := getElem?_concat_before before hdata
        have hfound : strchr 58 (data.cells.drop done.length) = some (some 0) := by rw [hdrop, strchr, if_pos rfl]
        rw [splitName_colon]
        simp only [cutOptions, hfound, Option.bind_some, Option.elim_some, Nat.add_zero, hbefore]
        by_cases hprev : done.getLast?.getD before = 92
        · have hdata' : data.cells = (done ++ [58]) ++ (text ++ 0 :: after) := by rw [hdata, List.append_assoc]; rfl
          have hrest := ih hzero.2 steps (done ++ [58]) data optionPtrs hdata' (by omega) hptrs
          rw [List.getLast?_concat, Option.getD_some, List.length_append, List.length_singleton] at hrest
          simp only [if_pos hprev]
          refine ⟨hrest.1, fun hfew => ?_⟩
          obtain ⟨data', hcut, hcells⟩ := hrest.2 hfew
          refine ⟨data', ?_, ?_⟩
          · rw [hcut, List.length_cons]
            congr 5
            omega
          · rw [hcells]
            simp [layout]
        · simp only [if_neg hprev, List.length_cons]
          by_cases hfull : optionPtrs.length = kMaxOptions
          · exact ⟨fun _ => if_pos hfull, fun hfew => absurd hfew (by omega)⟩
          · obtain ⟨data₁, hwrite, hcells₁⟩ := data.write_eq_some (show done.length + [(0 : UInt8)].length ≤ size by
              rw [← data.length_cells, hdata]
              simp)
            have hdata₁ : data₁.cells = (done ++ [0]) ++ (text ++ 0 :: after) := by
              rw [hcells₁, hdata, List.cons_append, splice_one, List.append_assoc]
              rfl
            have hrest := ih hzero.2 steps (done ++ [0]) data₁ (optionPtrs ++ [done.length + 1]) hdata₁ (by omega)
              (by rw [List.length_append, List.length_singleton]; omega)
            rw [List.getLast?_concat, Option.getD_some, List.length_append, List.length_singleton, List.length_append,
              List.length_singleton,
              splitName_congr (by decide : (0 : UInt8) = 92 ↔ (58 : UInt8) = 92)] at hrest
            simp only [if_neg hfull, hwrite, Option.bind_some]
            refine ⟨fun hmany => hrest.1 (by omega), fun hfew => ?_⟩
            obtain ⟨data', hcut, hcells⟩ := hrest.2 (by omega)
            refine ⟨data', ?_, ?_⟩
            · rw [hcut, List.append_assoc]
              rfl
            · rw [hcells]
              simp [layout]
      · have hdata' : data.cells = (done ++ [ch]) ++ (text ++ 0 :: after) := by rw [hdata, List.append_assoc]; rfl
        have hrest := ih hzero.2 steps (done ++ [ch]) data optionPtrs hdata' (by omega) hptrs
        rw [List.getLast?_concat, Option.getD_some, List.length_append, List.length_singleton] at hrest
        rw [cutOptions_other hdrop hch (Ne.symm hzero.1), splitName_other hch]
        refine ⟨hrest.1, fun hfew => ?_⟩
        obtain ⟨data', hcut, hcells⟩ := hrest.2 hfew
        refine ⟨data', ?_, ?_⟩
        · rw [hcut, List.length_cons]
          congr 5
          omega
        · rw [hcells]
          simp [layout]

/-! ### Unescaping -/

theorem zero_notMem_unescapeOption {text : List UInt8} (h : 0 ∉ text) : 0 ∉ unescapeOption text := by
  fun_induction unescapeOption with
  | case1 => exact h
  | case2 rest ih =>
      rw [List.mem_cons, List.mem_cons, not_or, not_or] at h
      rw [List.mem_cons, not_or]
      exact ⟨by decide, ih h.2.2⟩
  | case3 ch rest _ ih =>
      rw [List.mem_cons, not_or] at h ⊢
      exact ⟨h.1, ih h.2⟩

theorem write_first {data : Block UInt8 size} {front junk back : List UInt8} {last : UInt8} (ch : UInt8)
    (h : data.cells = front ++ (junk ++ last :: back)) :
    ∃ data' junk', data.write front.length [ch] = some data' ∧ junk'.length = junk.length ∧
      data'.cells = front ++ ch :: (junk' ++ back) := by
  obtain ⟨data', hwrite, hcells⟩ := data.write_eq_some (show front.length + [ch].length ≤ size by
    rw [← data.length_cells, h]
    simp only [List.length_append, List.length_cons, List.length_nil]
    omega)
  cases junk with
  | nil => exact ⟨data', [], hwrite, rfl, by rw [hcells, h, List.nil_append, List.nil_append, splice_one]⟩
  | cons old junk =>
      refine ⟨data', junk ++ [last], hwrite, by simp, ?_⟩
      rw [hcells, h, List.cons_append, splice_one]
      simp

theorem getElem?_behind {data : Block UInt8 size} {front junk text : List UInt8}
    (h : data.cells = front ++ (junk ++ text)) (i : Nat) :
    data.cells[front.length + junk.length + i]? = text[i]? := by
  rw [h, List.getElem?_append_right (by omega), List.getElem?_append_right (by omega)]
  congr 1
  omega

/-- The loop reads behind where it writes, and the bytes between are lost. -/
theorem unescapeInPlace_eq {back : List UInt8} (text : List UInt8) (hzero : 0 ∉ text) :
    ∀ (steps : Nat) (front junk : List UInt8)
    (data : Block UInt8 size), data.cells = front ++ (junk ++ (text ++ 0 :: back)) → text.length < steps →
    ∃ data' junk', unescapeInPlace steps (front.length + junk.length) front.length data = some data' ∧
      data'.cells = front ++ (unescapeOption text ++ 0 :: (junk' ++ back)) ∧
      (unescapeOption text).length + junk'.length = junk.length + text.length := by
  fun_induction unescapeOption text with
  | case1 =>
      intro steps front junk data hdata hsteps
      obtain ⟨steps, rfl⟩ : ∃ k, steps = k + 1 := ⟨steps - 1, by simp at hsteps; omega⟩
      obtain ⟨data', junk', hwrite, hlength, hcells⟩ := write_first 0 hdata
      have hread : data.cells[front.length + junk.length]? = some 0 := getElem?_behind hdata 0
      refine ⟨data', junk', ?_, hcells, by simpa using hlength⟩
      simp only [unescapeInPlace, hread, Option.bind_some, if_true]
      exact hwrite
  | case2 rest ih =>
      intro steps front junk data hdata hsteps
      obtain ⟨steps, rfl⟩ : ∃ k, steps = k + 1 := ⟨steps - 1, by omega⟩
      simp only [List.mem_cons, not_or] at hzero
      simp only [List.length_cons] at hsteps
      have hread : data.cells[front.length + junk.length]? = some 92 := getElem?_behind hdata 0
      have hnext : data.cells[front.length + junk.length + 1]? = some 58 := getElem?_behind hdata 1
      obtain ⟨data₁, junk₁, hwrite, hlength, hcells⟩ := write_first 58 hdata
      have hcells₁ : data₁.cells = (front ++ [58]) ++ ((junk₁ ++ [58]) ++ (rest ++ 0 :: back)) := by
        rw [hcells]
        simp
      obtain ⟨data', junk', hloop, hcells', hlength'⟩ :=
        ih hzero.2.2 steps (front ++ [58]) (junk₁ ++ [58]) data₁ hcells₁ (by omega)
      simp only [List.length_append, List.length_singleton, hlength] at hloop hlength'
      refine ⟨data', junk', ?_, ?_, ?_⟩
      · simp only [unescapeInPlace, hread, hnext, Option.bind_some, if_true, hwrite]
        rw [if_neg (by decide), ← hloop]
        congr 1
        omega
      · rw [hcells']
        simp
      · simp only [List.length_cons]
        omega
  | case3 ch rest hplain ih =>
      intro steps front junk data hdata hsteps
      obtain ⟨steps, rfl⟩ : ∃ k, steps = k + 1 := ⟨steps - 1, by omega⟩
      rw [List.mem_cons, not_or] at hzero
      rw [List.length_cons] at hsteps
      have hread : data.cells[front.length + junk.length]? = some ch := getElem?_behind hdata 0
      obtain ⟨data₁, junk₁, hwrite, hlength, hcells⟩ := write_first ch hdata
      have hcells₁ : data₁.cells = (front ++ [ch]) ++ (junk₁ ++ (rest ++ 0 :: back)) := by
        rw [hcells]
        simp
      obtain ⟨data', junk', hloop, hcells', hlength'⟩ := ih hzero.2 steps (front ++ [ch]) junk₁ data₁ hcells₁ (by omega)
      rw [List.length_append, List.length_singleton, hlength] at hloop
      rw [hlength] at hlength'
      have hstep : (data.write front.length [ch]).bind
        (unescapeInPlace steps (front.length + junk.length + 1) (front.length + 1)) = some data' := by
        rw [hwrite, Option.bind_some, ← hloop]
        congr 1
        omega
      refine ⟨data', junk', ?_, ?_, ?_⟩
      · simp only [unescapeInPlace, hread, Option.bind_some]
        rw [if_neg (Ne.symm hzero.1)]
        split_ifs with hch
        · -- the byte behind a backslash that stays is no colon
          obtain ⟨next, hnext, hcolon⟩ : ∃ next, data.cells[front.length + junk.length + 1]? = some next ∧
            next ≠ 58 := by
            rw [getElem?_behind hdata 1]
            cases rest with
            | nil => exact ⟨0, rfl, by decide⟩
            | cons next rest => exact ⟨next, rfl, fun heq => hplain rest hch (by rw [heq])⟩
          rw [hnext, Option.bind_some, if_neg hcolon]
          exact hstep
        · exact hstep
      · rw [hcells']
        simp
      · simp only [List.length_cons]
        omega

theorem stringAt_eq {data : Block UInt8 size} (front : List UInt8) {text : List UInt8} (back : List UInt8)
    (h : data.cells = front ++ (text ++ 0 :: back)) (hzero : 0 ∉ text) :
    stringAt data front.length = text := by
  have hne : ∀ ch ∈ text, decide (ch ≠ 0) = true := by
    intro ch hch
    refine decide_eq_true ?_
    rintro rfl
    exact hzero hch
  rw [stringAt, h, List.drop_left' rfl, List.takeWhile_append_of_pos hne, List.takeWhile_cons_of_neg (by decide),
    List.append_nil]

theorem unescapeOptions_eq {after : List UInt8} (options : List (List UInt8)) :
    ∀ (front : List UInt8) (data : Block UInt8 size),
    (∀ option ∈ options, 0 ∉ option) → data.cells = front ++ (options.flatMap (· ++ [0]) ++ after) →
    ∃ data' region, (starts front.length options).foldlM
    (fun data p => unescapeInPlace size p p data) data = some data' ∧
      data'.cells = front ++ (region ++ after) ∧ (starts front.length options).map
      (stringAt data') = options.map unescapeOption := by
  induction options with
  | nil => exact fun front data _ hdata => ⟨data, [], rfl, hdata, rfl⟩
  | cons option options ih =>
      intro front data hzero hdata
      rw [List.forall_mem_cons] at hzero
      have hfirst : data.cells = front ++ ([] ++ (option ++ 0 :: (options.flatMap (· ++ [0]) ++ after))) := by
        rw [hdata]
        simp
      have hfits : option.length < size := by
        rw [← data.length_cells, hfirst]
        simp only [List.length_append, List.length_cons, List.length_nil]
        omega
      obtain ⟨data₁, junk, hloop, hcells₁, hlength⟩ := unescapeInPlace_eq option hzero.1 size front [] data hfirst hfits
      rw [List.length_nil, Nat.zero_add] at hlength
      have hfront : (front ++ (unescapeOption option ++ 0 :: junk)).length = front.length + option.length + 1 := by
        simp only [List.length_append, List.length_cons]
        omega
      obtain ⟨data', region, hrest, hcells', hstrings⟩ :=
        ih (front ++ (unescapeOption option ++ 0 :: junk)) data₁ hzero.2 (by
        rw [hcells₁]
        simp)
      rw [hfront] at hrest hstrings
      refine ⟨data', unescapeOption option ++ 0 :: junk ++ region, ?_, ?_, ?_⟩
      · rw [starts, List.foldlM_cons]
        exact (congrArg (Option.bind · _) hloop).trans hrest
      · rw [hcells']
        simp
      · have hstring : stringAt data' front.length = unescapeOption option := by
          refine stringAt_eq front (junk ++ (region ++ after)) ?_ (zero_notMem_unescapeOption hzero.1)
          rw [hcells']
          simp
        rw [starts, List.map_cons, List.map_cons, hstring, hstrings]

/-! ### Names -/

theorem zero_notMem_splitName {text : List UInt8} (h : 0 ∉ text) (prev : UInt8) :
    0 ∉ (splitName prev text).1 ∧ ∀ option ∈ (splitName prev text).2, 0 ∉ option := by
  induction text generalizing prev with
  | nil => exact ⟨h, fun option hoption => by cases hoption⟩
  | cons ch rest ih =>
      rw [List.mem_cons, not_or] at h
      obtain ⟨hpiece, hoptions⟩ := ih h.2 ch
      by_cases hch : ch = 58
      · subst hch
        rw [splitName_colon]
        split_ifs with hprev
        · exact ⟨List.not_mem_cons_of_ne_of_not_mem h.1 hpiece, hoptions⟩
        · exact ⟨List.not_mem_nil, List.forall_mem_cons.mpr ⟨hpiece, hoptions⟩⟩
      · rw [splitName_other hch]
        exact ⟨List.not_mem_cons_of_ne_of_not_mem h.1 hpiece, hoptions⟩

theorem layout_zero (pieces : List UInt8 × List (List UInt8)) (after : List UInt8) :
    layout pieces ++ 0 :: after = (pieces.1 ++ [0]) ++ (pieces.2.flatMap (· ++ [0]) ++ after) := by
  have hshift : ∀ options : List (List UInt8), options.flatMap (0 :: ·) ++ 0 :: after = 0 ::
    (options.flatMap (· ++ [0]) ++ after) := by
    intro options
    induction options with
    | nil => rfl
    | cons option options ih =>
        rw [List.flatMap_cons, List.append_assoc, ih]
        simp
  rw [layout, List.append_assoc, hshift, List.append_assoc]
  rfl

theorem takeWhile_zero (name rest : List UInt8) :
    ∃ after, name ++ 0 :: rest = name.takeWhile (· ≠ 0) ++ 0 :: after := by
  induction name with
  | nil => exact ⟨rest, rfl⟩
  | cons ch name ih =>
      obtain ⟨after, hafter⟩ := ih
      by_cases hch : ch = 0
      · subst hch
        exact ⟨name ++ 0 :: rest, rfl⟩
      · refine ⟨after, ?_⟩
        rw [List.cons_append, hafter, List.takeWhile_cons, if_pos (decide_eq_true hch), List.cons_append]

/-- The key and the options of a name that ends in a zero byte. -/
theorem parseName_eq {before : UInt8} (hbefore : before ≠ 92) {name rest : List UInt8} {data : Block UInt8 size}
    (hdata : data.cells = name ++ 0 :: rest) :
    parseName before data = some (if kMaxOptions < (splitName 0 (name.takeWhile (· ≠ 0))).2.length then none
      else some ((splitName 0 (name.takeWhile (· ≠ 0))).1, (splitName 0 (name.takeWhile (· ≠ 0))).2.map unescapeOption)) := by
  obtain ⟨after, hafter⟩ := takeWhile_zero name rest
  have hzero : (0 : UInt8) ∉ name.takeWhile (· ≠ 0) := fun hmem => by simpa using List.mem_takeWhile_imp hmem
  rw [hafter] at hdata
  set text := name.takeWhile (· ≠ 0) with htext
  have hfits : text.length < size := by
    rw [← data.length_cells, hdata, List.length_append, List.length_cons]
    omega
  obtain ⟨hmany, hfew⟩ := cutOptions_eq before text hzero size [] data [] hdata hfits (Nat.zero_le _)
  rw [List.getLast?_nil, Option.getD_none,
    splitName_congr (show before = 92 ↔ (0 : UInt8) = 92 from iff_of_false hbefore (by decide)),
    List.length_nil, Nat.zero_add] at hmany hfew
  rw [parseName]
  by_cases hcount : kMaxOptions < (splitName 0 text).2.length
  · rw [show cutOptions before size data 0 [] = some none from hmany hcount, if_pos hcount]
    rfl
  · obtain ⟨hkey, hoptions⟩ := zero_notMem_splitName hzero 0
    obtain ⟨data₁, hcut, hcells₁⟩ := hfew (Nat.le_of_not_lt hcount)
    rw [List.nil_append, layout_zero] at hcells₁
    have hlength : ((splitName 0 text).1 ++ [0]).length = 0 + (splitName 0 text).1.length + 1 := by
      rw [List.length_append, List.length_singleton, Nat.zero_add]
    obtain ⟨data', region, hloop, hcells', hstrings⟩ := unescapeOptions_eq (splitName 0 text).2 _ data₁ hoptions hcells₁
    rw [hlength] at hloop hstrings
    have hstring : stringAt data' 0 = (splitName 0 text).1 := by
      refine stringAt_eq [] (region ++ after) ?_ hkey
      rw [hcells']
      simp
    rw [show cutOptions before size data 0 [] = _ from hcut, if_neg hcount, Option.bind_some, Option.elim_some]
    simp only [List.nil_append, List.length_nil, hloop, Option.map_some, hstring, hstrings]

/-! ### The reference -/

theorem addVarInPlace_eq (interpolate : Interpolation) (lookup : EnvLookup) (output : StringBuffer) {before : UInt8}
    (hbefore : before ≠ 92) {name rest : List UInt8} {data : Block UInt8 size}
    (hdata : data.cells = name ++ 0 :: rest) :
    addVarInPlace interpolate lookup output before data = some (addVar interpolate lookup output name) := by
  rw [addVarInPlace, parseName_eq hbefore hdata, addVar]
  simp only [Option.map_some]
  split_ifs <;> rfl

/-- A text with a zero byte behind it, at the front of an array. -/
theorem cells_of_take {data : Block UInt8 size} {count : Nat} {name : List UInt8}
    (h : data.cells.take count = name ++ [0]) :
    data.cells = name ++ 0 :: data.cells.drop count := by
  calc data.cells = data.cells.take count ++ data.cells.drop count := (List.take_append_drop _ _).symm
    _ = name ++ 0 :: data.cells.drop count := by rw [h, List.append_assoc, List.singleton_append]

/-- `InterpolateVar` on the buffer of the name is what `addVar` says of its text, unless a backslash stands in
front of the buffer. -/
theorem addVarMemory_eq (interpolate : Interpolation) (lookup : EnvLookup) (output : StringBuffer) {before : UInt8}
    (hbefore : before ≠ 92) {varName : StringMemory} {b : StringBuffer} (hholds : HoldsBuffer varName b) :
    addVarMemory interpolate lookup output before varName = some (addVar interpolate lookup output b.contents) := by
  obtain ⟨ended, hadd, hended⟩ := hholds.add [0]
  have hcontents := StringBuffer.contents_add b [0]
  rw [StringBuffer.contents] at hcontents
  rw [addVarMemory, StringMemory.nullTerminate, hadd]
  by_cases hsize : ended.size ≠ 0
  · have hheap := hended.heap
    rw [if_neg (hended.size_ne_zero_iff.mp hsize)] at hcontents
    rw [hcontents] at hheap
    simp only [Option.bind_eq_bind, Option.bind_some, if_pos hsize]
    exact addVarInPlace_eq interpolate lookup output hbefore (cells_of_take hheap)
  · have hinternal := hended.internal
    rw [if_pos (not_not.mp (mt hended.size_ne_zero_iff.mpr hsize))] at hcontents
    rw [hcontents] at hinternal
    simp only [Option.bind_eq_bind, Option.bind_some, if_neg hsize]
    exact addVarInPlace_eq interpolate lookup output hbefore (cells_of_take hinternal)

end NameMemory

end Tundra
