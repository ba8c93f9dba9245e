import Tundra.IncludeScanner

/-!
# The include lines of a text

What `ScanIncludesCpp` is for: the lines of a text that are include directives of C. The scanner finds the
directives with white space behind the word, and misses those without.
-/

namespace Tundra

/-- `GetNextLine`: the line, which ends like a string where the newline was, and what is behind it. -/
def getNextLine (p : CString) : CString × Option CString :=
  if 10 ∈ p.bytes then
    (⟨p.bytes.takeWhile (· ≠ 10), fun h => p.noNul (List.takeWhile_subset _ h)⟩,
      some (p.advance ((p.bytes.takeWhile (· ≠ 10)).length + 1)))
  else (p, none)

def Blank (text : List UInt8) : Prop := ∀ c ∈ text, isSpace c = true

/-- A path between its delimiters, with anything behind it: the path goes up to the first closing delimiter. -/
inductive DelimitedPath : List UInt8 → CString → Bool → Prop
  | angle {path : CString} (rest : List UInt8) (hpath : 62 ∉ path.bytes) :
      DelimitedPath (60 :: (path.bytes ++ 62 :: rest)) path true
  | quote {path : CString} (rest : List UInt8) (hpath : 34 ∉ path.bytes) :
      DelimitedPath (34 :: (path.bytes ++ 34 :: rest)) path false

/-- An include directive with this text between the word and the opening delimiter. -/
def IncludeLine (line : CString) (between : List UInt8) (inc : IncludeData) : Prop :=
  ∃ indent gap text, Blank indent ∧ Blank gap ∧ Blank between ∧
    line.bytes = indent ++ 35 :: (gap ++ ((CString.lit "include").bytes ++ (between ++ text))) ∧
    DelimitedPath text inc.string inc.isSystemInclude ∧ inc.shouldFollow = true

def Directive (line : CString) (inc : IncludeData) : Prop := ∃ between, IncludeLine line between inc

/-- An include directive without white space between the word and the opening delimiter. -/
def TightDirective (line : CString) : Prop := ∃ inc, IncludeLine line [] inc

/-- One entry for every line that is an include directive, in order, and no other. -/
inductive Finds : List CString → List IncludeData → Prop
  | nil : Finds [] []
  | hit {line lines inc incs} (hline : Directive line inc) (h : Finds lines incs) : Finds (line :: lines) (inc :: incs)
  | miss {line lines incs} (hline : ∀ inc, ¬ Directive line inc) (h : Finds lines incs) : Finds (line :: lines) incs

/-! ### The loop over the lines -/

theorem ofBytes_of_noNul {bytes : List UInt8} (h : (0 : UInt8) ∉ bytes) : CString.ofBytes bytes = ⟨bytes, h⟩ := by
  have htake : bytes.takeWhile (· ≠ 0) = bytes := by
    rw [List.takeWhile_eq_self_iff]
    intro c hc
    rw [decide_eq_true_eq]
    rintro rfl
    exact h hc
  simp only [CString.ofBytes, htake]

theorem takeWhile_ne {stop : UInt8} {front back : List UInt8} (h : stop ∉ front) :
    (front ++ stop :: back).takeWhile (· ≠ stop) = front := by
  rw [List.takeWhile_append_of_pos]
  · simp
  · intro c hc
    rw [decide_eq_true_eq]
    rintro rfl
    exact h hc

/-- The lines are those the calls of `GetNextLine` give one after another. -/
theorem lines_eq (text : CString) : lines text = (getNextLine text).1 :: (getNextLine text).2.elim [] lines := by
  unfold getNextLine
  split_ifs with hnewline
  · obtain ⟨line, rest, hbytes, hline⟩ := List.eq_append_cons_of_mem hnewline
    have htake : text.bytes.takeWhile (· ≠ 10) = line := by rw [hbytes, takeWhile_ne hline]
    have hdrop : text.bytes.drop (line.length + 1) = rest := by rw [hbytes]; simp
    have hsplit : text.bytes.splitOn 10 = line :: rest.splitOn 10 := by
      rw [hbytes, List.splitOn_append_cons_self, List.splitOn_eq_singleton hline, List.singleton_append]
    simp only [lines, hsplit, List.map_cons, Option.elim_some, CString.advance, htake, hdrop]
    congr 1
    exact ofBytes_of_noNul _
  · rw [lines, List.splitOn_eq_singleton hnewline, List.map_singleton, ofBytes_of_noNul text.noNul]
    rfl

theorem scanIncludesCpp_eq (text : CString) :
    scanIncludesCpp text = (scanCppLine (getNextLine text).1).toList ++ (getNextLine text).2.elim
    [] scanIncludesCpp := by
  rw [scanIncludesCpp, lines_eq, List.filterMap_cons]
  cases (getNextLine text).2 with
  | none => cases scanCppLine (getNextLine text).1 <;> rfl
  | some rest => cases scanCppLine (getNextLine text).1 <;> rfl

/-! ### One line -/

theorem dropWhile_blank {front back : List UInt8} (hfront : Blank front) (hback : isSpace (back.headD 0) = false) :
    (front ++ back).dropWhile isSpace = back := by
  rw [List.dropWhile_append_of_pos hfront]
  cases back with
  | nil => rfl
  | cons c back =>
      rw [List.dropWhile_cons_of_neg]
      simpa using hback

theorem exists_blank (bytes : List UInt8) : ∃ front, Blank front ∧ bytes = front ++ bytes.dropWhile isSpace :=
  ⟨bytes.takeWhile isSpace, fun _ hc => List.mem_takeWhile_imp hc, (List.takeWhile_append_dropWhile).symm⟩

theorem eq_of_headD {bytes : List UInt8} {c : UInt8} (h : bytes.headD 0 = c) (hc : c ≠ 0) :
    bytes = c :: bytes.drop 1 := by
  cases bytes with
  | nil => exact absurd h.symm hc
  | cons b bytes =>
      obtain rfl : b = c := h
      rfl

theorem upTo_eq_some {closing : UInt8} {s path : CString} :
    upTo closing s = some path ↔ closing ∉ path.bytes ∧ ∃ rest, s.bytes = path.bytes ++ closing :: rest := by
  constructor
  · intro h
    simp only [upTo, Option.ite_none_right_eq_some, Option.some.injEq] at h
    obtain ⟨hmem, rfl⟩ := h
    obtain ⟨front, rest, hbytes, hfront⟩ := List.eq_append_cons_of_mem hmem
    have htake : s.bytes.takeWhile (· ≠ closing) = front := by rw [hbytes, takeWhile_ne hfront]
    simp only [htake]
    exact ⟨hfront, rest, hbytes⟩
  · rintro ⟨hpath, rest, hbytes⟩
    have hmem : closing ∈ s.bytes := by rw [hbytes]; simp
    rw [upTo, if_pos hmem]
    simp only [hbytes, takeWhile_ne hpath]

theorem DelimitedPath.opens {text : List UInt8} {path : CString} {isSystem : Bool}
    (h : DelimitedPath text path isSystem) :
    isSpace (text.headD 0) = false := by
  cases h <;> rfl

theorem delimited_iff {start path : CString} {isSystem : Bool} :
    ((if start.first = 60 then some 62 else if start.first = 34 then some 34 else none).bind fun closing : UInt8 =>
      (upTo closing (start.advance 1)).map fun string => (⟨string, closing = 62, true⟩ : IncludeData)) = some ⟨path, isSystem, true⟩ ↔
      DelimitedPath start.bytes path isSystem := by
  constructor
  · intro h
    obtain ⟨closing, hclosing, hrest⟩ := Option.bind_eq_some_iff.mp h
    obtain ⟨string, hstring, heq⟩ := Option.map_eq_some_iff.mp hrest
    obtain ⟨hpath, rest, hbytes⟩ := upTo_eq_some.mp hstring
    simp only [IncludeData.mk.injEq] at heq
    obtain ⟨rfl, rfl, -⟩ := heq
    change start.bytes.drop 1 = _ at hbytes
    split_ifs at hclosing with hangle hquote
    · obtain rfl := Option.some.inj hclosing
      rw [eq_of_headD hangle (by decide), hbytes]
      exact .angle rest hpath
    · obtain rfl := Option.some.inj hclosing
      rw [eq_of_headD hquote (by decide), hbytes]
      exact .quote rest hpath
  · obtain ⟨bytes, hnul⟩ := start
    rintro (⟨rest, hpath⟩ | ⟨rest, hpath⟩)
    · have hstring := (upTo_eq_some (s := CString.advance ⟨_, hnul⟩ 1)).mpr ⟨hpath, rest, rfl⟩
      simp only [CString.first, List.headD_cons, if_true, Option.bind_some, hstring, Option.map_some, decide_true]
    · have hstring := (upTo_eq_some (s := CString.advance ⟨_, hnul⟩ 1)).mpr ⟨hpath, rest, rfl⟩
      have hne : ¬ (34 : UInt8) = 60 := by decide
      simp only [CString.first, List.headD_cons, if_neg hne, if_true, Option.bind_some, hstring, Option.map_some]
      rfl

/-- The scanner of a line finds the directives that have white space behind the word. -/
theorem scanCppLine_eq_some {line : CString} {inc : IncludeData} :
    scanCppLine line = some inc ↔ ∃ between, between ≠ [] ∧ IncludeLine line between inc := by
  obtain ⟨path, isSystem, follow⟩ := inc
  constructor
  · intro h
    simp only [scanCppLine, Option.ite_none_left_eq_some, not_not] at h
    obtain ⟨hhash, hword, hspace, hend⟩ := h
    obtain rfl : follow = true := by
      obtain ⟨closing, -, hrest⟩ := Option.bind_eq_some_iff.mp hend
      obtain ⟨string, -, heq⟩ := Option.map_eq_some_iff.mp hrest
      exact (IncludeData.mk.inj heq).2.2.symm
    have htext := delimited_iff.mp hend
    obtain ⟨indent, hindent, hline⟩ := exists_blank line.bytes
    obtain ⟨gap, hgap, hafter⟩ := exists_blank ((line.skipSpace.advance 1).bytes)
    set word := (line.skipSpace.advance 1).skipSpace with hwordDef
    obtain ⟨blank, hblank, hbehind⟩ := exists_blank ((word.advance 7).advance 1).bytes
    have hspaces : (word.advance 7).bytes = (word.advance 7).first :: ((word.advance 7).advance 1).bytes := by
      refine eq_of_headD rfl ?_
      intro hzero
      rw [hzero] at hspace
      cases hspace
    refine ⟨(word.advance 7).first :: blank, List.cons_ne_nil _ _, indent, gap, _, hindent, hgap, ?_, ?_, htext, rfl⟩
    · intro c hc
      rcases List.mem_cons.mp hc with rfl | hc
      · exact hspace
      · exact hblank c hc
    · rw [List.cons_append, ← hword]
      change line.bytes = indent ++ 35 :: (gap ++ (word.bytes.take 7 ++ (word.advance 7).first ::
        (blank ++ ((word.advance 7).advance 1).bytes.dropWhile isSpace)))
      rw [← hbehind, ← hspaces]
      change line.bytes = indent ++ 35 :: (gap ++ (word.bytes.take 7 ++ word.bytes.drop 7))
      rw [List.take_append_drop]
      change line.bytes = indent ++ 35 :: (gap ++ (line.skipSpace.advance 1).bytes.dropWhile isSpace)
      rw [← hafter]
      change line.bytes = indent ++ 35 :: (line.skipSpace.bytes.drop 1)
      rw [← eq_of_headD hhash (by decide)]
      exact hline
  · rintro ⟨between, hne, indent, gap, text, hindent, hgap, hbetween, hline, htext, rfl⟩
    obtain ⟨c, blank, rfl⟩ := List.exists_cons_of_ne_nil hne
    have hstart : line.skipSpace.bytes = 35 :: (gap ++ ((CString.lit "include").bytes ++ (c :: blank ++ text))) := by
      change line.bytes.dropWhile isSpace = _
      rw [hline, dropWhile_blank hindent rfl]
    have hword : (line.skipSpace.advance 1).skipSpace.bytes = (CString.lit "include").bytes ++
      (c :: blank ++ text) := by
      change (line.skipSpace.bytes.drop 1).dropWhile isSpace = _
      rw [hstart, List.drop_one, List.tail_cons, dropWhile_blank hgap (by rfl)]
    have hseven : (CString.lit "include").bytes.length = 7 := by decide +kernel
    have hbehind : ((line.skipSpace.advance 1).skipSpace.advance 7).bytes = c :: (blank ++ text) := by
      change (line.skipSpace.advance 1).skipSpace.bytes.drop 7 = _
      rw [hword, ← hseven, List.drop_left, List.cons_append]
    have hdelimiter : (((line.skipSpace.advance 1).skipSpace.advance 7).advance 1).skipSpace.bytes = text := by
      change (((line.skipSpace.advance 1).skipSpace.advance 7).bytes.drop 1).dropWhile isSpace = _
      rw [hbehind, List.drop_one, List.tail_cons,
        dropWhile_blank (fun b hb => hbetween b (List.mem_cons_of_mem _ hb)) htext.opens]
    have hfirst : line.skipSpace.first = 35 := by rw [CString.first, hstart]; rfl
    have hspace : isSpace ((line.skipSpace.advance 1).skipSpace.advance 7).first = true := by
      rw [CString.first, hbehind]
      exact hbetween c List.mem_cons_self
    have htake : (line.skipSpace.advance 1).skipSpace.bytes.take 7 = (CString.lit "include").bytes := by
      rw [hword, ← hseven, List.take_left]
    simp only [scanCppLine, Option.ite_none_left_eq_some, not_not, hfirst, htake, hspace, true_and]
    exact delimited_iff.mpr (hdelimiter.symm ▸ htext)

/-! ### The whole text -/

theorem directive_of_scanCppLine {line : CString} {inc : IncludeData} (h : scanCppLine line = some inc) :
    Directive line inc := by
  obtain ⟨between, -, hline⟩ := scanCppLine_eq_some.mp h
  exact ⟨between, hline⟩

theorem scanCppLine_of_directive {line : CString} {inc : IncludeData} (htight : ¬ TightDirective line)
    (h : Directive line inc) :
    scanCppLine line = some inc := by
  obtain ⟨between, hline⟩ := h
  refine scanCppLine_eq_some.mpr ⟨between, ?_, hline⟩
  rintro rfl
  exact htight ⟨inc, hline⟩

theorem Finds.length_le {lines : List CString} {incs : List IncludeData} (h : Finds lines incs) :
    (lines.filterMap scanCppLine).length ≤ incs.length := by
  induction h with
  | nil => exact Nat.le_refl 0
  | @hit line lines inc incs hline _ ih =>
      rw [List.filterMap_cons, List.length_cons]
      cases scanCppLine line with
      | none => exact ih.trans (Nat.le_succ _)
      | some found => exact Nat.succ_le_succ ih
  | @miss line lines incs hline _ ih =>
      rw [List.filterMap_cons]
      cases hscan : scanCppLine line with
      | none => exact ih
      | some found => exact absurd (directive_of_scanCppLine hscan) (hline found)

/-- When the scanner finds what is to be found, it finds every line that is a directive. -/
theorem Finds.scanCppLine_isSome {lines : List CString} (h : Finds lines (lines.filterMap scanCppLine)) :
    ∀ line ∈ lines, ∀ inc, Directive line inc → scanCppLine line ≠ none := by
  induction lines with
  | nil => exact fun line hmem => by cases hmem
  | cons first lines ih =>
      rw [List.filterMap_cons] at h
      cases hscan : scanCppLine first with
      | some found =>
          rw [hscan] at h
          have hrest : Finds lines (lines.filterMap scanCppLine) := by
            cases h with
            | hit _ h => exact h
            | miss hline _ => exact absurd (directive_of_scanCppLine hscan) (hline found)
          intro line hmem inc hline
          rcases List.mem_cons.mp hmem with rfl | hmem
          · rw [hscan]
            exact Option.some_ne_none found
          · exact ih hrest line hmem inc hline
      | none =>
          rw [hscan] at h
          simp only at h
          -- a directive more than the scanner finds in the rest
          generalize hincs : lines.filterMap scanCppLine = incs at h
          cases h with
          | hit hline h =>
              have hle := h.length_le
              rw [hincs, List.length_cons] at hle
              omega
          | miss hline h =>
              rw [← hincs] at h
              intro line hmem inc hdirective
              rcases List.mem_cons.mp hmem with rfl | hmem
              · exact absurd hdirective (hline inc)
              · exact ih h line hmem inc hdirective

/-- `ScanIncludesCpp` finds exactly the include lines of a text if and only if none of them has its delimiter
right behind the word. -/
theorem scanIncludesCpp_exact (text : CString) :
    Finds (lines text) (scanIncludesCpp text) ↔ ∀ line ∈ lines text, ¬ TightDirective line := by
  constructor
  · rintro h line hmem ⟨inc, htight⟩
    obtain ⟨found, hfound⟩ := Option.ne_none_iff_exists'.mp (h.scanCppLine_isSome line hmem inc ⟨[], htight⟩)
    obtain ⟨between, hne, indent, gap, rest, hindent, hgap, hbetween, hline, hrest, -⟩ := scanCppLine_eq_some.mp hfound
    obtain ⟨indent', gap', rest', hindent', hgap', -, hline', hrest', -⟩ := htight
    -- both readings of the line begin with the same white space and the same word
    have hopen' := hrest'.opens
    rw [hline] at hline'
    have hhash := congrArg (List.dropWhile isSpace) hline'
    rw [dropWhile_blank hindent rfl, dropWhile_blank hindent' rfl, List.cons.injEq] at hhash
    have hword := congrArg (List.dropWhile isSpace) hhash.2
    rw [dropWhile_blank hgap (by rfl), dropWhile_blank hgap' (by rfl)] at hword
    have hbehind := List.append_cancel_left hword
    obtain ⟨c, blank, rfl⟩ := List.exists_cons_of_ne_nil hne
    rw [List.nil_append] at hbehind
    rw [← hbehind] at hopen'
    have hspace : isSpace c = true := hbetween c List.mem_cons_self
    exact absurd hspace (by simpa using hopen')
  · intro h
    rw [scanIncludesCpp]
    generalize lines text = lines at h
    induction lines with
    | nil => exact .nil
    | cons line lines ih =>
        have hrest := ih fun line hmem => h line (List.mem_cons_of_mem _ hmem)
        rw [List.filterMap_cons]
        cases hscan : scanCppLine line with
        | some inc => exact .hit (directive_of_scanCppLine hscan) hrest
        | none =>
            refine .miss (fun inc hline => ?_) hrest
            rw [scanCppLine_of_directive (h line List.mem_cons_self) hline] at hscan
            cases hscan

/-- A directive as C allows it. -/
def tightInclude : CString := .lit "#include<a.h>"

/-- The scanner misses it. -/
theorem tight_include_missed : TightDirective tightInclude ∧ scanIncludesCpp tightInclude = [] ∧
    ¬ Finds (lines tightInclude) (scanIncludesCpp tightInclude) := by
  have hpath : (62 : UInt8) ∉ (CString.lit "a.h").bytes := by decide +kernel
  have hblank : Blank [] := fun c hc => absurd hc List.not_mem_nil
  have hbytes : tightInclude.bytes = [] ++ 35 ::
    ([] ++ ((CString.lit "include").bytes ++ ([] ++ 60 :: ((CString.lit "a.h").bytes ++ 62 :: [])))) := by
    decide +kernel
  have htight : TightDirective tightInclude :=
    ⟨⟨.lit "a.h", true, true⟩, [], [], _, hblank, hblank, hblank, hbytes, .angle [] hpath, rfl⟩
  have hlines : lines tightInclude = [tightInclude] := by decide +kernel
  have hscan : scanIncludesCpp tightInclude = [] := by decide +kernel
  refine ⟨htight, hscan, ?_⟩
  rw [hlines, hscan]
  intro h
  cases h with
  | miss hline _ =>
      obtain ⟨inc, hinc⟩ := htight
      exact hline inc ⟨[], hinc⟩

end Tundra
