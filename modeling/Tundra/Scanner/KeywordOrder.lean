import Tundra.Scanner.Directives

/-!
# Keyword order

What `ScanIncludesGeneric` is for: the lines of a text whose first token is a keyword with a file argument
behind it. To its reader the table of keywords has no order, but the scanner of a line commits to the first
keyword the line begins with, and only then looks for the white space behind it.
-/

namespace Tundra

/-- The follow flag of a keyword: that of its first place in the table. -/
def followFlag (table : List KeywordData) (word : CString) : Option Bool :=
  (table.find? fun kw => kw.string = word).map KeywordData.shouldFollow

/-- The same keywords in another order, each with its follow flag. -/
def FlagPerm (table table' : List KeywordData) : Prop :=
  table'.Perm table ∧ ∀ word, followFlag table' word = followFlag table word

def firstToken (line : CString) : CString :=
  ⟨line.skipSpace.bytes.takeWhile fun c => !isSpace c, fun h => line.skipSpace.noNul (List.takeWhile_subset _ h)⟩

/-- The length of the path is stored in 16 bits. -/
def cutPath (inc : IncludeData) :
    IncludeData := { inc with string := inc.string.slice 0 (inc.string.bytes.length % 2 ^ 16) }

/-- One entry for every line with the property, in order, and no other. -/
inductive ListedBy (P : CString → IncludeData → Prop) : List CString → List IncludeData → Prop
  | nil : ListedBy P [] []
  | hit {line lines inc incs} (hline : P line inc) (h : ListedBy P lines incs) : ListedBy P (line :: lines)
      (inc :: incs)
  | miss {line lines incs} (hline : ∀ inc, ¬ P line inc) (h : ListedBy P lines incs) : ListedBy P (line :: lines) incs

section Generic

variable (outside : Nat → CString) (requireWhitespace useSeparators bareMeansSystem : Bool)
  (keywords : List KeywordData)

/-- A file argument with anything behind it: a path between its delimiters, or a token. -/
inductive FileArgument : List UInt8 → CString → Bool → Prop
  | angle {path : CString} (rest : List UInt8) (hseparators : useSeparators = true) (hpath : 62 ∉ path.bytes) :
      FileArgument (60 :: (path.bytes ++ 62 :: rest)) path true
  | element {path : CString} (rest : List UInt8) (hseparators : useSeparators = true) (hpath : 60 ∉ path.bytes) :
      FileArgument (62 :: (path.bytes ++ 60 :: rest)) path false
  | quote {path : CString} (rest : List UInt8) (hseparators : useSeparators = true) (hpath : 34 ∉ path.bytes) :
      FileArgument (34 :: (path.bytes ++ 34 :: rest)) path false
  | bare {path : CString} (rest : List UInt8) (hseparators : useSeparators = false) (hne : path.bytes ≠ [])
      (hpath : ∀ c ∈ path.bytes, isSpace c = false) (hrest : isSpace (rest.headD 32) = true) :
      FileArgument (path.bytes ++ rest) path bareMeansSystem

/-- Behind the leading white space the line has a keyword, white space and a file argument. -/
def EntryBehind (word line : CString) (inc : IncludeData) : Prop :=
  ∃ indent gap text, Blank indent ∧ (requireWhitespace = true → indent ≠ []) ∧ Blank gap ∧ gap ≠ [] ∧
    line.bytes = indent ++ (word.bytes ++ (gap ++ text)) ∧
    FileArgument useSeparators bareMeansSystem text inc.string inc.isSystemInclude ∧
    followFlag keywords word = some inc.shouldFollow

/-- The first token of the line is a keyword, and a file argument is behind it. -/
def KeywordLine (line : CString) (inc : IncludeData) : Prop :=
  ∃ word, word.bytes ≠ [] ∧ (∀ c ∈ word.bytes, isSpace c = false) ∧
    EntryBehind requireWhitespace useSeparators bareMeansSystem keywords word line inc

/-- White space and a file argument stand here, and the line may have an entry for the keyword. -/
def ArgumentAt (word line : CString) (behind : List UInt8) (inc : IncludeData) : Prop :=
  (requireWhitespace = true → line.skipSpace ≠ line) ∧
    ∃ gap text, Blank gap ∧ gap ≠ [] ∧ behind = gap ++ text ∧
      FileArgument useSeparators bareMeansSystem text inc.string inc.isSystemInclude ∧
      followFlag keywords word = some inc.shouldFollow

/-- What a line must be for the keyword order not to matter, with what stands in front of it. -/
structure Unambiguous (before : List UInt8) (line : CString) : Prop where
  /-- no keyword is the beginning of another first token that has an entry -/
  shorter : ∀ kw ∈ keywords, kw.string.bytes.length < 2 ^ 15 → kw.string.bytes <+: (firstToken line).bytes →
    kw.string ≠ firstToken line →
    ∀ inc, ¬ KeywordLine requireWhitespace useSeparators bareMeansSystem keywords line inc
  /-- a keyword with white space in it gives the entry of the first token -/
  longer : ∀ kw ∈ keywords, kw.string.bytes.length < 2 ^ 15 → kw.string.bytes <+: line.skipSpace.bytes →
    (firstToken line).bytes.length < kw.string.bytes.length →
    ∀ inc, (∃ whole, EntryBehind requireWhitespace useSeparators bareMeansSystem keywords kw.string line whole ∧
      cutPath whole = inc) ↔
      KeywordLine requireWhitespace useSeparators bareMeansSystem keywords line inc
  /-- a keyword whose length is cut gives the entry of the first token where it is found -/
  cut : ∀ kw ∈ keywords, 2 ^ 15 ≤ kw.string.bytes.length → kw.begins line.skipSpace = true →
    ∀ inc, (∃ whole, ArgumentAt requireWhitespace useSeparators bareMeansSystem keywords kw.string line
        (keywordEnd outside before line kw.stringLength).bytes whole ∧ cutPath whole = inc) ↔
      KeywordLine requireWhitespace useSeparators bareMeansSystem keywords line inc
  /-- a line with an entry begins with a keyword, as long as its length says -/
  found : ∀ inc, KeywordLine requireWhitespace useSeparators bareMeansSystem keywords line inc →
    ∃ kw ∈ keywords, kw.begins line.skipSpace = true
  /-- the path fits its length -/
  short : ∀ inc, KeywordLine requireWhitespace useSeparators bareMeansSystem keywords line inc →
    inc.string.bytes.length < 2 ^ 16

/-- Every line gives its entry, whatever the order of the keywords. -/
def LinesOrderFree (text : CString) : Prop :=
  ∀ table', FlagPerm keywords table' → ∀ placed ∈ placeLines [] (lines text), ∀ inc,
    scanLineGeneric outside requireWhitespace useSeparators bareMeansSystem table' placed.1 placed.2 = some inc ↔
      KeywordLine requireWhitespace useSeparators bareMeansSystem keywords placed.2 inc

/-- The list has one entry for every line with one, whatever the order of the keywords. -/
def ListOrderFree (text : CString) : Prop :=
  ∀ table', FlagPerm keywords table' →
    ListedBy (KeywordLine requireWhitespace useSeparators bareMeansSystem keywords) (lines text)
      (scanIncludesGeneric outside requireWhitespace useSeparators bareMeansSystem table' text)

/-- The entry of the line when its first keyword is this one and this is what is read behind it. -/
def entryAt (word line behind : CString) : Option IncludeData :=
  if requireWhitespace && line.skipSpace = line then none else
  if ¬ isSpace behind.first then none else
  (followFlag keywords word).bind fun follow =>
    (genericString useSeparators bareMeansSystem (behind.advance 1).skipSpace).map
      fun (string, isSystem) => ⟨string, isSystem, follow⟩

/-- The entry of the line when its first keyword is this one, all of it. -/
def wordEntry (word line : CString) : Option IncludeData :=
  entryAt requireWhitespace useSeparators bareMeansSystem keywords word line (line.skipSpace.advance word.bytes.length)

/-- The entry of the line when this is the keyword `ScanLineGeneric` takes. -/
def keywordEntry (kw : KeywordData) (before : List UInt8) (line : CString) : Option IncludeData :=
  entryAt requireWhitespace useSeparators bareMeansSystem keywords kw.string line
    (keywordEnd outside before line kw.stringLength)

end Generic

/-! ### The file argument -/

theorem FileArgument.opens {useSeparators bareMeansSystem : Bool} {text : List UInt8} {path : CString} {isSystem : Bool}
    (h : FileArgument useSeparators bareMeansSystem text path isSystem) : isSpace (text.headD 0) = false := by
  cases h with
  | angle | element | quote => rfl
  | bare rest _ hne hpath _ =>
      obtain ⟨c, token, htoken⟩ := List.exists_cons_of_ne_nil hne
      rw [htoken]
      exact hpath c (by rw [htoken]; exact List.mem_cons_self)

/-- The end of a token: what is behind it is white space or the end of the string. -/
theorem takeWhile_token {token rest : List UInt8} (htoken : ∀ c ∈ token, isSpace c = false)
    (hrest : isSpace (rest.headD 32) = true) :
    (token ++ rest).takeWhile (fun c => !isSpace c) = token := by
  rw [List.takeWhile_append_of_pos]
  · cases rest with
    | nil => exact List.append_nil token
    | cons c rest =>
        have hc : isSpace c = true := hrest
        rw [List.takeWhile_cons_of_neg (by simp [hc]), List.append_nil]
  · intro c hc
    simp [htoken c hc]

theorem dropWhile_token (bytes : List UInt8) : isSpace ((bytes.dropWhile fun c => !isSpace c).headD 32) = true := by
  cases hdrop : bytes.dropWhile fun c => !isSpace c with
  | nil => rfl
  | cons c rest =>
      have hc := List.head?_dropWhile_not (fun c => !isSpace c) bytes
      rw [hdrop] at hc
      simpa using hc

theorem fileArgument_of_genericString {useSeparators bareMeansSystem : Bool} {start path : CString} {isSystem : Bool}
    (h : genericString useSeparators bareMeansSystem start = some (path, isSystem)) :
    FileArgument useSeparators bareMeansSystem start.bytes path isSystem := by
  unfold genericString at h
  cases hseparators : useSeparators with
  | true =>
      rw [if_pos hseparators] at h
      obtain ⟨closing, hclosing, hrest⟩ := Option.bind_eq_some_iff.mp h
      obtain ⟨string, hstring, heq⟩ := Option.map_eq_some_iff.mp hrest
      obtain ⟨hpath, rest, hbytes⟩ := upTo_eq_some.mp hstring
      rw [Prod.mk.injEq] at heq
      obtain ⟨rfl, rfl⟩ := heq
      change start.bytes.drop 1 = _ at hbytes
      split_ifs at hclosing with hangle helement hquote
      · obtain rfl := Option.some.inj hclosing
        rw [eq_of_headD hangle (by decide), hbytes]
        exact .angle rest rfl hpath
      · obtain rfl := Option.some.inj hclosing
        rw [eq_of_headD helement (by decide), hbytes]
        exact .element rest rfl hpath
      · obtain rfl := Option.some.inj hclosing
        rw [eq_of_headD hquote (by decide), hbytes]
        exact .quote rest rfl hpath
  | false =>
      rw [if_neg (by simp [hseparators])] at h
      simp only [Option.ite_none_left_eq_some, Option.some.injEq, Prod.mk.injEq] at h
      obtain ⟨hne, hpath, rfl⟩ := h
      have hnul : (0 : UInt8) ∉ start.bytes.takeWhile (fun c => !isSpace c) :=
        fun h => start.noNul (List.takeWhile_subset _ h)
      have htoken : start.bytes.takeWhile (fun c => !isSpace c) = path.bytes := by rw [← hpath, ofBytes_of_noNul hnul]
      have hblack : ∀ c ∈ path.bytes, isSpace c = false := by
        intro c hc
        rw [← htoken] at hc
        simpa using List.mem_takeWhile_imp hc
      rw [← List.takeWhile_append_dropWhile (p := fun c => !isSpace c) (l := start.bytes), htoken]
      rw [htoken] at hne
      exact .bare _ rfl hne hblack (dropWhile_token _)

theorem genericString_of_fileArgument {useSeparators bareMeansSystem : Bool} {start path : CString} {isSystem : Bool}
    (h : FileArgument useSeparators bareMeansSystem start.bytes path isSystem) :
    genericString useSeparators bareMeansSystem start = some (path, isSystem) := by
  obtain ⟨bytes, hnul⟩ := start
  cases h with
  | angle rest hseparators hpath =>
      have hstring := (upTo_eq_some (s := CString.advance ⟨_, hnul⟩ 1)).mpr ⟨hpath, rest, rfl⟩
      simp only [genericString, if_pos hseparators, CString.first, List.headD_cons, if_true, Option.bind_some,
        hstring, Option.map_some,
        decide_true]
  | element rest hseparators hpath =>
      have hstring := (upTo_eq_some (s := CString.advance ⟨_, hnul⟩ 1)).mpr ⟨hpath, rest, rfl⟩
      have hangle : ¬ (62 : UInt8) = 60 := by decide
      simp only [genericString, if_pos hseparators, CString.first, List.headD_cons, if_neg hangle, if_true,
        Option.bind_some, hstring,
        Option.map_some]
      rfl
  | quote rest hseparators hpath =>
      have hstring := (upTo_eq_some (s := CString.advance ⟨_, hnul⟩ 1)).mpr ⟨hpath, rest, rfl⟩
      have hangle : ¬ (34 : UInt8) = 60 := by decide
      have helement : ¬ (34 : UInt8) = 62 := by decide
      simp only [genericString, if_pos hseparators, CString.first, List.headD_cons, if_neg hangle, if_neg helement,
        if_true, Option.bind_some,
        hstring, Option.map_some]
      rfl
  | @bare path rest hseparators hne hpath hrest =>
      have htoken : (path.bytes.append rest).takeWhile (fun c => !isSpace c) = path.bytes := takeWhile_token hpath hrest
      rw [genericString, if_neg (by simp [hseparators])]
      simp only [htoken, if_neg hne, ofBytes_of_noNul path.noNul]

/-- What `ScanLineGeneric` reads behind the white space is the file argument. -/
theorem genericString_eq_some {useSeparators bareMeansSystem : Bool} {start path : CString} {isSystem : Bool} :
    genericString useSeparators bareMeansSystem start = some (path, isSystem) ↔
      FileArgument useSeparators bareMeansSystem start.bytes path isSystem :=
  ⟨fileArgument_of_genericString, genericString_of_fileArgument⟩

/-! ### One line -/

section Line

variable {requireWhitespace useSeparators bareMeansSystem : Bool} {keywords : List KeywordData} {word line : CString}
  {inc : IncludeData}

/-- The white space before the first token, if there must be some. -/
theorem indent_ne_nil {indent : List UInt8} (hline : line.bytes = indent ++ line.skipSpace.bytes) :
    indent ≠ [] ↔ line.skipSpace ≠ line := by
  constructor
  · intro hne heq
    rw [heq] at hline
    exact hne (List.self_eq_append_left.mp hline)
  · rintro hne rfl
    exact hne (CString.ext_bytes hline.symm)

theorem skipSpace_eq {indent behind : List UInt8} (hindent : Blank indent) (hne : word.bytes ≠ [])
    (hfirst : isSpace word.first = false) (hline : line.bytes = indent ++ (word.bytes ++ behind)) :
    line.skipSpace.bytes = word.bytes ++ behind := by
  change line.bytes.dropWhile isSpace = _
  rw [hline, dropWhile_blank hindent]
  obtain ⟨c, rest, hword⟩ := List.exists_cons_of_ne_nil hne
  rw [CString.first, hword] at hfirst
  rw [hword]
  exact hfirst

/-- What `ScanLineGeneric` makes of the text behind a keyword is the argument that stands there. -/
theorem entryAt_eq_some {behind : CString} :
    entryAt requireWhitespace useSeparators bareMeansSystem keywords word line behind = some inc ↔
      ArgumentAt requireWhitespace useSeparators bareMeansSystem keywords word line behind.bytes inc := by
  have hindented : (requireWhitespace = true → line.skipSpace ≠ line) ↔
      ¬ (requireWhitespace && decide (line.skipSpace = line)) = true := by
    rw [Bool.and_eq_true, decide_eq_true_eq, not_and]
  rw [ArgumentAt, hindented]
  simp only [entryAt, Option.ite_none_left_eq_some, not_not]
  refine and_congr_right fun _ => ?_
  constructor
  · rintro ⟨hspace, hentry⟩
    obtain ⟨follow, hfollow, hentry⟩ := Option.bind_eq_some_iff.mp hentry
    obtain ⟨⟨string, isSystem⟩, hstring, rfl⟩ := Option.map_eq_some_iff.mp hentry
    obtain ⟨blank, hblank, hgap⟩ := exists_blank (behind.bytes.drop 1)
    have hcons : behind.bytes = behind.bytes.headD 0 :: behind.bytes.drop 1 := by
      apply eq_of_headD rfl
      intro hzero
      rw [CString.first, hzero] at hspace
      cases hspace
    refine ⟨behind.bytes.headD 0 :: blank, (behind.bytes.drop 1).dropWhile isSpace, ?_, List.cons_ne_nil _ _, ?_, ?_,
      hfollow⟩
    · intro c hc
      rcases List.mem_cons.mp hc with rfl | hc
      · exact hspace
      · exact hblank c hc
    · rw [List.cons_append, ← hgap, ← hcons]
    · exact genericString_eq_some.mp hstring
  · rintro ⟨gap, text, hgap, hgapNe, hbehind, hargument, hfollow⟩
    obtain ⟨c, blank, rfl⟩ := List.exists_cons_of_ne_nil hgapNe
    have htext : (behind.advance 1).skipSpace.bytes = text := by
      change (behind.bytes.drop 1).dropWhile isSpace = _
      rw [hbehind, List.cons_append, List.drop_one, List.tail_cons,
        dropWhile_blank (fun b hb => hgap b (List.mem_cons_of_mem _ hb)) hargument.opens]
    have hspace : isSpace behind.first = true := by
      rw [CString.first, hbehind]
      exact hgap c List.mem_cons_self
    have hstring := genericString_eq_some.mpr (htext.symm ▸ hargument)
    rw [hfollow, Option.bind_some, hstring, Option.map_some]
    exact ⟨hspace, rfl⟩

theorem wordEntry_of_entryBehind (hne : word.bytes ≠ []) (hfirst : isSpace word.first = false)
    (h : EntryBehind requireWhitespace useSeparators bareMeansSystem keywords word line inc) :
    wordEntry requireWhitespace useSeparators bareMeansSystem keywords word line = some inc := by
  obtain ⟨indent, gap, text, hindent, hrequire, hgap, hgapNe, hline, hargument, hfollow⟩ := h
  have hstart := skipSpace_eq hindent hne hfirst hline
  refine entryAt_eq_some.mpr ⟨fun hws => ?_, gap, text, hgap, hgapNe, ?_, hargument, hfollow⟩
  · rw [← hstart] at hline
    exact (indent_ne_nil hline).mp (hrequire hws)
  · change line.skipSpace.bytes.drop word.bytes.length = _
    rw [hstart, List.drop_left]

theorem entryBehind_of_wordEntry (hstarts : word.bytes <+: line.skipSpace.bytes)
    (h : wordEntry requireWhitespace useSeparators bareMeansSystem keywords word line = some inc) :
    EntryBehind requireWhitespace useSeparators bareMeansSystem keywords word line inc := by
  obtain ⟨hindented, gap, text, hgap, hgapNe, hbytes, hargument, hfollow⟩ := entryAt_eq_some.mp h
  obtain ⟨behind, hbehind⟩ := hstarts
  obtain ⟨indent, hindent, hline⟩ := exists_blank line.bytes
  refine ⟨indent, gap, text, hindent, fun hws => (indent_ne_nil hline).mpr (hindented hws), hgap, hgapNe, ?_,
    hargument, hfollow⟩
  change line.skipSpace.bytes.drop word.bytes.length = _ at hbytes
  rw [← hbehind, List.drop_left] at hbytes
  rw [← hbytes, hbehind]
  exact hline

theorem wordEntry_eq_none (hspace : isSpace (line.skipSpace.advance word.bytes.length).first = false) :
    wordEntry requireWhitespace useSeparators bareMeansSystem keywords word line = none := by
  unfold wordEntry entryAt
  split_ifs with hindented hblank
  · rfl
  · rw [hspace] at hblank
    cases hblank
  · rfl

theorem skipSpace_first (line : CString) : isSpace line.skipSpace.first = false := by
  have hhead := List.head?_dropWhile_not isSpace line.bytes
  change isSpace ((line.bytes.dropWhile isSpace).headD 0) = false
  cases hdrop : line.bytes.dropWhile isSpace with
  | nil => rfl
  | cons c rest =>
      rw [hdrop] at hhead
      exact hhead

theorem firstToken_starts (line : CString) : (firstToken line).bytes <+: line.skipSpace.bytes := List.takeWhile_prefix _

theorem firstToken_black {c : UInt8} (hc : c ∈ (firstToken line).bytes) : isSpace c = false := by
  simpa using List.mem_takeWhile_imp hc

theorem eq_firstToken (hword : ∀ c ∈ word.bytes, isSpace c = false) (hstarts : word.bytes <+: line.skipSpace.bytes)
    (hspace : isSpace (line.skipSpace.advance word.bytes.length).first = true) : word = firstToken line := by
  obtain ⟨behind, hbehind⟩ := hstarts
  rw [CString.first, CString.advance] at hspace
  simp only [← hbehind, List.drop_left] at hspace
  apply CString.ext_bytes
  change word.bytes = line.skipSpace.bytes.takeWhile fun c => !isSpace c
  rw [← hbehind, takeWhile_token hword]
  cases behind with
  | nil => rfl
  | cons c rest => exact hspace

theorem keywordLine_iff :
    KeywordLine requireWhitespace useSeparators bareMeansSystem keywords line inc ↔
      wordEntry requireWhitespace useSeparators bareMeansSystem keywords (firstToken line) line = some inc := by
  constructor
  · rintro ⟨word, hne, hword, hentry⟩
    have hfirst : isSpace word.first = false := by
      obtain ⟨c, rest, hbytes⟩ := List.exists_cons_of_ne_nil hne
      rw [CString.first, hbytes]
      exact hword c (by rw [hbytes]; exact List.mem_cons_self)
    have hsome := wordEntry_of_entryBehind hne hfirst hentry
    obtain ⟨indent, gap, text, hindent, -, -, -, hline, -, -⟩ := hentry
    have hstarts : word.bytes <+: line.skipSpace.bytes := ⟨gap ++ text, (skipSpace_eq hindent hne hfirst hline).symm⟩
    have hspace : isSpace (line.skipSpace.advance word.bytes.length).first = true := by
      by_contra hspace
      rw [wordEntry_eq_none (by simpa using hspace)] at hsome
      cases hsome
    rw [← eq_firstToken hword hstarts hspace]
    exact hsome
  · intro h
    refine ⟨firstToken line, ?_, fun c hc => firstToken_black hc, entryBehind_of_wordEntry (firstToken_starts line) h⟩
    intro hnil
    rw [wordEntry_eq_none] at h
    · cases h
    · change isSpace ((line.skipSpace.bytes.drop (firstToken line).bytes.length).headD 0) = false
      rw [hnil]
      exact skipSpace_first line

theorem wordEntry_of_prefix_firstToken (hstarts : word.bytes <+: (firstToken line).bytes)
    (hne : word ≠ firstToken line) :
    wordEntry requireWhitespace useSeparators bareMeansSystem keywords word line = none := by
  apply wordEntry_eq_none
  by_contra hspace
  apply hne
  apply eq_firstToken
  · intro c hc
    exact firstToken_black (hstarts.subset hc)
  · exact hstarts.trans (firstToken_starts line)
  · simpa using hspace

end Line

/-! ### The order of the keywords -/

/-- The table with a keyword moved to the front. -/
def withFirst (keywords : List KeywordData) (word : CString) : List KeywordData :=
  keywords.filter (fun kw => kw.string = word) ++ keywords.filter fun kw => !decide (kw.string = word)

theorem withFirst_flagPerm (keywords : List KeywordData) (word : CString) :
    FlagPerm keywords (withFirst keywords word) := by
  constructor
  · exact List.filter_append_perm _ keywords
  · intro other
    have hnone : (keywords.find? fun _ => false) = none := List.find?_eq_none.mpr fun _ _ => Bool.false_ne_true
    rw [followFlag, followFlag, withFirst, List.find?_append, List.find?_filter, List.find?_filter]
    by_cases hother : other = word
    · subst hother
      have hrest : ∀ kw : KeywordData, ¬ (¬ kw.string = other ∧ kw.string = other) := fun kw h => h.1 h.2
      simp only [decide_eq_true_eq, Bool.not_eq_true', decide_eq_false_iff_not, and_self, hrest, decide_false, hnone,
        Option.or_none]
    · have hfirst : ∀ kw : KeywordData, ¬ (kw.string = word ∧ kw.string = other) :=
        fun kw h => hother (h.2.symm.trans h.1)
      have hrest : ∀ kw : KeywordData, (¬ kw.string = word ∧ kw.string = other) ↔ kw.string = other := by
        intro kw
        refine and_iff_right_of_imp ?_
        rintro rfl
        exact hother
      simp only [decide_eq_true_eq, Bool.not_eq_true', decide_eq_false_iff_not, hfirst, hrest, decide_false, hnone,
        Option.none_or]

/-- What `strncmp` finds depends on the name of a keyword alone. -/
theorem begins_congr {kw other : KeywordData} (h : other.string = kw.string) (start : CString) :
    other.begins start = kw.begins start := by
  obtain ⟨string, shouldFollow⟩ := other
  obtain rfl : string = kw.string := h
  rfl

theorem stringLength_of_lt {kw : KeywordData} (h : kw.string.bytes.length < 2 ^ 15) :
    0 ≤ kw.stringLength ∧ kw.stringLength.toInt.toNat = kw.string.bytes.length := by
  have hlength : kw.stringLength.toInt = kw.string.bytes.length := Int16.toInt_ofNat_of_lt h
  refine ⟨Int16.le_iff_toInt_le.mpr ?_, by rw [hlength, Int.toNat_natCast]⟩
  rw [hlength]
  exact Int.natCast_nonneg _

/-- A keyword whose length is not cut is found where a line begins with it. -/
theorem begins_iff {kw : KeywordData} (h : kw.string.bytes.length < 2 ^ 15) (start : CString) :
    kw.begins start = true ↔ kw.string.bytes <+: start.bytes := by
  obtain ⟨hpos, hlength⟩ := stringLength_of_lt h
  rw [KeywordData.begins, if_pos hpos, hlength, List.take_length, decide_eq_true_eq, List.prefix_iff_eq_take, eq_comm]

/-- The first keyword a line begins with is the first of its name. -/
theorem followFlag_of_find {table : List KeywordData} {kw : KeywordData} {start : CString}
    (h : (table.find? fun kw => kw.begins start) = some kw) : followFlag table kw.string = some kw.shouldFollow := by
  obtain ⟨hkw, before, behind, rfl, hbefore⟩ := List.find?_eq_some_iff_append.mp h
  have hnone : (before.find? fun other => other.string = kw.string) = none := by
    rw [List.find?_eq_none]
    intro other hother hsame
    have hskip := hbefore other hother
    rw [begins_congr (of_decide_eq_true hsame), hkw] at hskip
    cases hskip
  rw [followFlag, List.find?_append, hnone, Option.none_or]
  simp only [List.find?_cons, decide_true, Option.map_some]

section Order

variable {outside : Nat → CString} {requireWhitespace useSeparators bareMeansSystem : Bool}
  {keywords table' : List KeywordData}
  {before : List UInt8} {line : CString}

/-- With a keyword whose length is not cut, what is read behind it is what stands behind it. -/
theorem keywordEntry_of_lt {kw : KeywordData} (h : kw.string.bytes.length < 2 ^ 15) :
    keywordEntry outside requireWhitespace useSeparators bareMeansSystem keywords kw before line =
      wordEntry requireWhitespace useSeparators bareMeansSystem keywords kw.string line := by
  obtain ⟨hpos, hlength⟩ := stringLength_of_lt h
  rw [keywordEntry, keywordEnd, if_pos hpos, hlength, wordEntry]

/-- A line gives the entry of the first keyword it begins with. -/
theorem scanLineGeneric_eq (hperm : FlagPerm keywords table') :
    scanLineGeneric outside requireWhitespace useSeparators bareMeansSystem table' before line =
      (table'.find? fun kw => kw.begins line.skipSpace).bind fun kw =>
        (keywordEntry outside requireWhitespace useSeparators bareMeansSystem keywords kw before line).map cutPath := by
  unfold scanLineGeneric
  cases hfind : table'.find? fun kw => kw.begins line.skipSpace with
  | none => simp only [hfind, Option.bind_none, ite_self]
  | some kw =>
      have hfollow : followFlag keywords kw.string = some kw.shouldFollow := by
        rw [← hperm.2]
        exact followFlag_of_find hfind
      simp only [hfind, Option.bind_some, keywordEntry, entryAt, hfollow]
      split_ifs with hindented hspace
      · rfl
      · rw [Option.map_map]
        rfl
      · rfl

theorem scanLineGeneric_withFirst {kw : KeywordData} (hkw : kw ∈ keywords) (hbegins : kw.begins line.skipSpace = true) :
    scanLineGeneric outside requireWhitespace useSeparators bareMeansSystem (withFirst keywords kw.string) before line =
      (keywordEntry outside requireWhitespace useSeparators bareMeansSystem keywords kw before line).map cutPath := by
  have hmem : kw ∈ keywords.filter fun other => other.string = kw.string :=
    List.mem_filter.mpr ⟨hkw, decide_eq_true rfl⟩
  have hsome : ((keywords.filter fun other => other.string = kw.string).find?
    fun other => other.begins line.skipSpace).isSome := by
    rw [List.find?_isSome]
    exact ⟨kw, hmem, hbegins⟩
  obtain ⟨first, hfirst⟩ := Option.isSome_iff_exists.mp hsome
  have hstring : first.string = kw.string := of_decide_eq_true (List.mem_filter.mp (List.mem_of_find?_eq_some hfirst)).2
  rw [scanLineGeneric_eq (withFirst_flagPerm keywords kw.string), withFirst, List.find?_append, hfirst,
    Option.some_or, Option.bind_some,
    keywordEntry, keywordEntry, KeywordData.stringLength, hstring, ← KeywordData.stringLength]

/-- A line gives its entry in every order if and only if it does so with each keyword that is found in it, and
has none if none is found. -/
theorem scanLineGeneric_orderFree_iff :
    (∀ table', FlagPerm keywords table' → ∀ inc,
      scanLineGeneric outside requireWhitespace useSeparators bareMeansSystem table' before line = some inc ↔
        KeywordLine requireWhitespace useSeparators bareMeansSystem keywords line inc) ↔
    (∀ kw ∈ keywords, kw.begins line.skipSpace = true →
      (keywordEntry outside requireWhitespace useSeparators bareMeansSystem keywords kw before line).map cutPath =
        wordEntry requireWhitespace useSeparators bareMeansSystem keywords (firstToken line) line) ∧
    ((∀ kw ∈ keywords, kw.begins line.skipSpace = false) →
      wordEntry requireWhitespace useSeparators bareMeansSystem keywords (firstToken line) line = none) := by
  constructor
  · intro h
    refine ⟨fun kw hkw hbegins => ?_, fun hnone => ?_⟩
    · rw [← scanLineGeneric_withFirst hkw hbegins]
      apply Option.ext
      intro inc
      rw [h _ (withFirst_flagPerm keywords kw.string) inc, keywordLine_iff]
    · have hfind : (keywords.find? fun kw => kw.begins line.skipSpace) = none :=
        List.find?_eq_none.mpr fun kw hkw => by rw [hnone kw hkw]; exact Bool.false_ne_true
      rw [Option.eq_none_iff_forall_ne_some]
      intro inc hinc
      have hscan := (h keywords ⟨List.Perm.refl _, fun _ => rfl⟩ inc).mpr (keywordLine_iff.mpr hinc)
      rw [scanLineGeneric_eq ⟨List.Perm.refl _, fun _ => rfl⟩, hfind, Option.bind_none] at hscan
      cases hscan
  · rintro ⟨h, hnone⟩ table' hperm inc
    rw [keywordLine_iff, scanLineGeneric_eq hperm]
    cases hfind : table'.find? fun kw => kw.begins line.skipSpace with
    | some kw =>
        have hmem : kw ∈ keywords := hperm.1.subset (List.mem_of_find?_eq_some hfind)
        have hbegins := List.find?_some hfind
        rw [Option.bind_some, h kw hmem hbegins]
    | none =>
        have hnot : ∀ kw ∈ keywords, kw.begins line.skipSpace = false := by
          intro kw hkw
          simpa using List.find?_eq_none.mp hfind kw (hperm.1.mem_iff.mpr hkw)
        rw [hnone hnot, Option.bind_none]

theorem cutPath_eq_self {inc : IncludeData} : cutPath inc = inc ↔ inc.string.bytes.length < 2 ^ 16 := by
  constructor
  · intro h
    have hbytes := congrArg (fun inc => inc.string.bytes.length) h
    simp only [cutPath, CString.slice, List.drop_zero, List.length_take] at hbytes
    omega
  · intro h
    obtain ⟨string, isSystem, follow⟩ := inc
    have hstring : string.slice 0 (string.bytes.length % 2 ^ 16) = string := by
      apply CString.ext_bytes
      simp only [CString.slice, List.drop_zero, Nat.mod_eq_of_lt h, List.take_length]
    rw [cutPath, hstring]

theorem entryBehind_iff {word : CString} {inc : IncludeData} (hstarts : word.bytes <+: line.skipSpace.bytes)
    (hne : word.bytes ≠ []) :
    EntryBehind requireWhitespace useSeparators bareMeansSystem keywords word line inc ↔
      wordEntry requireWhitespace useSeparators bareMeansSystem keywords word line = some inc := by
  constructor
  · intro h
    obtain ⟨behind, hbehind⟩ := hstarts
    obtain ⟨c, rest, hword⟩ := List.exists_cons_of_ne_nil hne
    have hfirst := skipSpace_first line
    rw [CString.first, ← hbehind, hword, List.cons_append, List.headD_cons] at hfirst
    apply wordEntry_of_entryBehind hne
    · rw [CString.first, hword]
      exact hfirst
    · exact h
  · exact entryBehind_of_wordEntry hstarts

theorem unambiguous_iff :
    Unambiguous outside requireWhitespace useSeparators bareMeansSystem keywords before line ↔
      (∀ kw ∈ keywords, kw.begins line.skipSpace = true →
        (keywordEntry outside requireWhitespace useSeparators bareMeansSystem keywords kw before line).map cutPath =
          wordEntry requireWhitespace useSeparators bareMeansSystem keywords (firstToken line) line) ∧
      ((∀ kw ∈ keywords, kw.begins line.skipSpace = false) →
        wordEntry requireWhitespace useSeparators bareMeansSystem keywords (firstToken line) line = none) := by
  constructor
  · intro h
    refine ⟨fun kw hkw hbegins => ?_, fun hnone => ?_⟩
    · by_cases hlength : kw.string.bytes.length < 2 ^ 15
      · rw [keywordEntry_of_lt hlength]
        have hstarts := (begins_iff hlength _).mp hbegins
        rcases lt_trichotomy kw.string.bytes.length (firstToken line).bytes.length with hlt | heq | hgt
        · have hshort : kw.string.bytes <+: (firstToken line).bytes :=
            List.prefix_of_prefix_length_le hstarts (firstToken_starts line) hlt.le
          have hne : kw.string ≠ firstToken line := fun heq => absurd (congrArg (fun s => s.bytes.length) heq) hlt.ne
          rw [wordEntry_of_prefix_firstToken hshort hne, Option.map_none]
          symm
          rw [Option.eq_none_iff_forall_ne_some]
          intro inc hinc
          exact h.shorter kw hkw hlength hshort hne inc (keywordLine_iff.mpr hinc)
        · have hboth := List.prefix_of_prefix_length_le hstarts (firstToken_starts line) heq.le
          have hsame : kw.string = firstToken line := CString.ext_bytes (hboth.eq_of_length heq)
          rw [hsame]
          cases hentry : wordEntry requireWhitespace useSeparators bareMeansSystem keywords (firstToken line) line with
          | none => rfl
          | some inc => rw [Option.map_some, cutPath_eq_self.mpr (h.short inc (keywordLine_iff.mpr hentry))]
        · have hne : kw.string.bytes ≠ [] := List.ne_nil_of_length_pos (by omega)
          apply Option.ext
          intro inc
          rw [Option.map_eq_some_iff, ← keywordLine_iff, ← h.longer kw hkw hlength hstarts hgt inc]
          simp only [entryBehind_iff hstarts hne]
      · apply Option.ext
        intro inc
        rw [Option.map_eq_some_iff, ← keywordLine_iff, ← h.cut kw hkw (not_lt.mp hlength) hbegins inc]
        simp only [keywordEntry, entryAt_eq_some]
    · rw [Option.eq_none_iff_forall_ne_some]
      intro inc hinc
      obtain ⟨kw, hkw, hbegins⟩ := h.found inc (keywordLine_iff.mpr hinc)
      rw [hnone kw hkw] at hbegins
      cases hbegins
  · rintro ⟨h, hnone⟩
    have hfound : ∀ inc, KeywordLine requireWhitespace useSeparators bareMeansSystem keywords line inc →
        ∃ kw ∈ keywords, kw.begins line.skipSpace = true := by
      intro inc hline
      by_contra hno
      simp only [not_exists, not_and, Bool.not_eq_true] at hno
      rw [keywordLine_iff, hnone hno] at hline
      cases hline
    constructor
    · intro kw hkw hlength hshort hne inc hline
      have hentry := h kw hkw ((begins_iff hlength _).mpr (hshort.trans (firstToken_starts line)))
      rw [keywordEntry_of_lt hlength, wordEntry_of_prefix_firstToken hshort hne, keywordLine_iff.mp hline] at hentry
      cases hentry
    · intro kw hkw hlength hstarts hlonger inc
      have hne : kw.string.bytes ≠ [] := List.ne_nil_of_length_pos (by omega)
      rw [keywordLine_iff, ← h kw hkw ((begins_iff hlength _).mpr hstarts), keywordEntry_of_lt hlength,
        Option.map_eq_some_iff]
      simp only [entryBehind_iff hstarts hne]
    · intro kw hkw _ hbegins inc
      rw [keywordLine_iff, ← h kw hkw hbegins, Option.map_eq_some_iff]
      simp only [keywordEntry, entryAt_eq_some]
    · exact hfound
    · -- the keyword that is found gives the entry, and gives it cut
      intro inc hline
      obtain ⟨kw, hkw, hbegins⟩ := hfound inc hline
      have hcut := h kw hkw hbegins
      rw [keywordLine_iff.mp hline] at hcut
      obtain ⟨whole, -, rfl⟩ := Option.map_eq_some_iff.mp hcut
      simp only [cutPath, CString.slice, List.drop_zero, List.length_take]
      exact lt_of_le_of_lt (min_le_left _ _) (Nat.mod_lt _ (by decide))

end Order

/-! ### The whole text -/

theorem listedBy_iff {P : CString → IncludeData → Prop} {entry : CString → Option IncludeData}
    (hentry : ∀ line inc, P line inc ↔ entry line = some inc) {lines : List CString} {incs : List IncludeData} :
    ListedBy P lines incs ↔ incs = lines.filterMap entry := by
  constructor
  · intro h
    induction h with
    | nil => rfl
    | hit hline _ ih => rw [List.filterMap_cons_some ((hentry _ _).mp hline), ih]
    | @miss line _ _ hline _ ih =>
        have hnone : entry line = none := by
          rw [Option.eq_none_iff_forall_ne_some]
          intro inc hinc
          exact hline inc ((hentry line inc).mpr hinc)
        rw [List.filterMap_cons_none hnone, ih]
  · rintro rfl
    induction lines with
    | nil => exact .nil
    | cons line lines ih =>
        cases hline : entry line with
        | none =>
            rw [List.filterMap_cons_none hline]
            refine .miss (fun inc hinc => ?_) ih
            rw [(hentry line inc).mp hinc] at hline
            cases hline
        | some inc =>
            rw [List.filterMap_cons_some hline]
            exact .hit ((hentry line inc).mpr hline) ih

section Lists

variable {α β : Type} {f g : α → Option β}

theorem length_filterMap_le (h : ∀ a, (f a).isSome → (g a).isSome) (l : List α) :
    (l.filterMap f).length ≤ (l.filterMap g).length := by
  induction l with
  | nil => exact Nat.le_refl 0
  | cons a l ih =>
      rw [List.filterMap_cons, List.filterMap_cons]
      cases hf : f a with
      | none =>
          cases g a with
          | none => exact ih
          | some c => exact ih.trans (Nat.le_succ _)
      | some b =>
          obtain ⟨c, hc⟩ := Option.isSome_iff_exists.mp (h a (by rw [hf]; rfl))
          rw [hc]
          exact Nat.succ_le_succ ih

/-- A function that finds nothing where the other does not, and as much, is the other on every element. -/
theorem eq_of_filterMap_eq (h : ∀ a, (f a).isSome → (g a).isSome) {l : List α} (hl : l.filterMap f = l.filterMap g) :
    ∀ a ∈ l, f a = g a := by
  induction l with
  | nil => exact fun a ha => absurd ha List.not_mem_nil
  | cons first l ih =>
      rw [List.filterMap_cons, List.filterMap_cons] at hl
      cases hf : f first with
      | none =>
          rw [hf] at hl
          cases hg : g first with
          | none =>
              rw [hg] at hl
              exact List.forall_mem_cons.mpr ⟨hf.trans hg.symm, ih hl⟩
          | some c =>
              rw [hg] at hl
              have hlength := congrArg List.length hl
              have hle := length_filterMap_le h l
              simp only [List.length_cons] at hlength
              omega
      | some b =>
          obtain ⟨c, hg⟩ := Option.isSome_iff_exists.mp (h first (by rw [hf]; rfl))
          rw [hf, hg] at hl
          obtain ⟨rfl, hrest⟩ := List.cons.inj hl
          exact List.forall_mem_cons.mpr ⟨hf.trans hg.symm, ih hrest⟩

end Lists

theorem map_snd_placeLines (before : List UInt8) (lines : List CString) :
    (placeLines before lines).map Prod.snd = lines := by
  induction lines generalizing before with
  | nil => rfl
  | cons line rest ih => rw [placeLines, List.map_cons, ih]

section Whole

variable (outside : Nat → CString) (requireWhitespace useSeparators bareMeansSystem : Bool)
  (keywords : List KeywordData)

/-- The list the text should give, from its lines as they stand in the buffer. -/
theorem listedBy_keywordLine_iff {text : CString} {incs : List IncludeData} :
    ListedBy (KeywordLine requireWhitespace useSeparators bareMeansSystem keywords) (lines text) incs ↔
      incs = (placeLines [] (lines text)).filterMap fun placed =>
        wordEntry requireWhitespace useSeparators bareMeansSystem keywords (firstToken placed.2) placed.2 := by
  have hlines := List.filterMap_map (f := Prod.snd) (l := placeLines [] (lines text))
    (g := fun line => wordEntry requireWhitespace useSeparators bareMeansSystem keywords (firstToken line) line)
  rw [map_snd_placeLines] at hlines
  rw [show (fun placed : List UInt8 × CString =>
    wordEntry requireWhitespace useSeparators bareMeansSystem keywords (firstToken placed.2) placed.2) =
      (fun line => wordEntry requireWhitespace useSeparators bareMeansSystem keywords (firstToken line) line) ∘
        Prod.snd from rfl,
    ← hlines]
  apply listedBy_iff
  intro line inc
  exact keywordLine_iff

theorem LinesOrderFree.listOrderFree {text : CString}
    (h : LinesOrderFree outside requireWhitespace useSeparators bareMeansSystem keywords text) :
    ListOrderFree outside requireWhitespace useSeparators bareMeansSystem keywords text := by
  intro table' hperm
  rw [listedBy_keywordLine_iff, scanIncludesGeneric]
  apply List.filterMap_congr
  intro placed hplaced
  apply Option.ext
  intro inc
  rw [h table' hperm placed hplaced inc, keywordLine_iff]

/-- Where the keywords are tokens and their lengths are not cut, the scanner of a line finds nothing where there
is no entry. -/
theorem isSome_of_scanLineGeneric {table' : List KeywordData} (hperm : FlagPerm keywords table')
    (htokens : ∀ kw ∈ keywords, kw.string.bytes.length < 2 ^ 15 ∧ ∀ c ∈ kw.string.bytes, isSpace c = false)
    (before : List UInt8) (line : CString)
    (h : (scanLineGeneric outside requireWhitespace useSeparators bareMeansSystem table' before line).isSome) :
    (wordEntry requireWhitespace useSeparators bareMeansSystem keywords (firstToken line) line).isSome := by
  rw [scanLineGeneric_eq hperm] at h
  obtain ⟨inc, hinc⟩ := Option.isSome_iff_exists.mp h
  obtain ⟨kw, hfind, hentry⟩ := Option.bind_eq_some_iff.mp hinc
  obtain ⟨whole, hwhole, -⟩ := Option.map_eq_some_iff.mp hentry
  have hmem : kw ∈ keywords := hperm.1.subset (List.mem_of_find?_eq_some hfind)
  have hbegins := List.find?_some hfind
  obtain ⟨hlength, hblack⟩ := htokens kw hmem
  rw [keywordEntry_of_lt hlength] at hwhole
  have htoken : kw.string = firstToken line := by
    apply eq_firstToken hblack ((begins_iff hlength _).mp hbegins)
    by_contra hspace
    rw [wordEntry_eq_none (by simpa using hspace)] at hwhole
    cases hwhole
  rw [← htoken, hwhole]
  rfl

theorem ListOrderFree.linesOrderFree {text : CString}
    (htokens : ∀ kw ∈ keywords, kw.string.bytes.length < 2 ^ 15 ∧ ∀ c ∈ kw.string.bytes, isSpace c = false)
    (h : ListOrderFree outside requireWhitespace useSeparators bareMeansSystem keywords text) :
    LinesOrderFree outside requireWhitespace useSeparators bareMeansSystem keywords text := by
  intro table' hperm placed hplaced inc
  have hlist := (listedBy_keywordLine_iff requireWhitespace useSeparators bareMeansSystem keywords).mp (h table' hperm)
  rw [scanIncludesGeneric] at hlist
  have hsame := eq_of_filterMap_eq
    (fun placed => isSome_of_scanLineGeneric outside requireWhitespace useSeparators bareMeansSystem
    keywords hperm htokens placed.1 placed.2) hlist placed hplaced
  rw [hsame, keywordLine_iff]

/-- The order of the keywords does not matter exactly when every line of the text is unambiguous. A keyword with
white space in it can add the entry of one line where it takes that of another, and so can one whose length is
cut, so that only the lines tell. -/
theorem scanIncludesGeneric_orderFree_iff (text : CString) :
    (LinesOrderFree outside requireWhitespace useSeparators bareMeansSystem keywords text ↔
      ∀ placed ∈ placeLines [] (lines text),
        Unambiguous outside requireWhitespace useSeparators bareMeansSystem keywords placed.1 placed.2) ∧
    ((∀ placed ∈ placeLines [] (lines text),
        Unambiguous outside requireWhitespace useSeparators bareMeansSystem keywords placed.1 placed.2) →
      ListOrderFree outside requireWhitespace useSeparators bareMeansSystem keywords text) ∧
    ((∀ kw ∈ keywords, kw.string.bytes.length < 2 ^ 15 ∧ ∀ c ∈ kw.string.bytes, isSpace c = false) →
      (ListOrderFree outside requireWhitespace useSeparators bareMeansSystem keywords text ↔
        ∀ placed ∈ placeLines [] (lines text),
          Unambiguous outside requireWhitespace useSeparators bareMeansSystem keywords placed.1 placed.2)) := by
  have hlines : LinesOrderFree outside requireWhitespace useSeparators bareMeansSystem keywords text ↔
      ∀ placed ∈ placeLines [] (lines text),
        Unambiguous outside requireWhitespace useSeparators bareMeansSystem keywords placed.1 placed.2 := by
    constructor
    · intro h placed hplaced
      rw [unambiguous_iff, ← scanLineGeneric_orderFree_iff]
      exact fun table' hperm inc => h table' hperm placed hplaced inc
    · intro h table' hperm placed hplaced
      exact scanLineGeneric_orderFree_iff.mpr (unambiguous_iff.mp (h placed hplaced)) table' hperm
  have hlist : (∀ placed ∈ placeLines [] (lines text),
        Unambiguous outside requireWhitespace useSeparators bareMeansSystem keywords placed.1 placed.2) →
      ListOrderFree outside requireWhitespace useSeparators bareMeansSystem keywords text :=
    fun h => (hlines.mpr h).listOrderFree
  refine ⟨hlines, hlist, ?_⟩
  intro htokens
  exact ⟨fun h => hlines.mp (h.linesOrderFree _ _ _ _ _ htokens), hlist⟩

end Whole

/-- Two keywords of which one is the beginning of the other, as the table has them: the one whose files are
followed comes first. -/
def overlappingKeywords : List KeywordData := [⟨.lit "import", true⟩, ⟨.lit "importlib", false⟩]

/-- In this order the line of the longer keyword is lost, in the other it is found. -/
theorem overlapping_keywords_lost :
    FlagPerm overlappingKeywords overlappingKeywords.reverse ∧
    scanIncludesGeneric (fun _ => .empty) false false false overlappingKeywords (.lit "importlib a") = [] ∧
    scanIncludesGeneric (fun _ => .empty) false false false overlappingKeywords.reverse
    (.lit "importlib a") = [⟨.lit "a", false, false⟩] ∧
    ¬ ListOrderFree (fun _ => .empty) false false false overlappingKeywords (.lit "importlib a") := by
  have hreverse : FlagPerm overlappingKeywords overlappingKeywords.reverse :=
    withFirst_flagPerm overlappingKeywords (.lit "importlib")
  have hlost : scanIncludesGeneric (fun _ => .empty) false false false overlappingKeywords (.lit "importlib a") =
    [] := by decide +kernel
  have hfound : scanIncludesGeneric (fun _ => .empty) false false false overlappingKeywords.reverse
    (.lit "importlib a") = [⟨.lit "a", false, false⟩] := by
    decide +kernel
  refine ⟨hreverse, hlost, hfound, ?_⟩
  intro h
  have hlist := (listedBy_keywordLine_iff _ _ _ _).mp (h _ ⟨List.Perm.refl _, fun _ => rfl⟩)
  have hother := (listedBy_keywordLine_iff _ _ _ _).mp (h _ hreverse)
  rw [← hother, hlost, hfound] at hlist
  cases hlist

end Tundra
