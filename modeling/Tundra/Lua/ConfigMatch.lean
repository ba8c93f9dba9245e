import Tundra.Common
import Tundra.Lua.FilterList
import Tundra.Lua.Pattern
import Mathlib.Algebra.GroupWithZero.Nat

/-!
# Config filters

`get_cached_pattern` and `config_matches` of `nodegen.lua`, `match_build_id` of `unitgen.lua` and the check of
`Config` in `buildfile.lua`. A filter becomes a Lua pattern by text substitution. Nothing in it is escaped, and
only the names of configs are checked, so the pattern does what the filter says for names of letters, digits and
underscores.
-/

namespace Tundra.Lua

/-! ### The source -/

/-- `[%w_]+`. -/
def wordsPattern : List UInt8 := [91, 37, 119, 95, 93, 43]

/-- `%-`. -/
def dashPattern : List UInt8 := [37, 45]

/-- `^[%w_]+-[%w_]+$`. -/
def configNamePattern : List UInt8 := 94 :: wordsPattern ++ 45 :: wordsPattern ++ [36]

/-- The check of `Config` on the name of a configuration. -/
def configNameMatches (name : List UInt8) : Except PatternError Bool := (·.isSome) <$> strMatch name configNamePattern

/-- The `BUILD_ID` that `setup_env` gives a tuple. -/
def tupleBuildId (config variant subvariant : List UInt8) : List UInt8 := config ++ 45 :: variant ++ 45 :: subvariant

def MatchValue.toText : MatchValue → List UInt8
  | .text bytes => bytes
  | .position index => (toString index).toUTF8.toList

def matchBuildId (id fallback : List UInt8) :
    Except PatternError (List UInt8 × List UInt8 × List UInt8 × List UInt8) := do
  let i ← gmatch id [91, 94, 45, 93, 43]
  let part (k : Nat) : List UInt8 := (i[k]?.map MatchValue.toText).getD fallback
  return (part 0, part 1, part 2, part 3)

/-- The `%s` of `string.format`, for which a short string ends at its first terminator. -/
def formatString (s : List UInt8) : List UInt8 := if 100 ≤ s.length then s else s.takeWhile (· ≠ 0)

def filterPattern (p : List UInt8) : Except PatternError (List UInt8) := do
  let subPattern ← gsub p [42] [91, 37, 37, 119, 95, 93, 43]
  let (platform, tool, variant, subvariant) ← matchBuildId subPattern wordsPattern
  return 94 :: formatString platform ++ dashPattern ++ formatString tool ++ dashPattern ++ formatString variant ++
    dashPattern ++
    formatString subvariant ++ [36]

structure PatternCache where
  entries : List (List UInt8 × List UInt8)
  sound : ∀ p v, entries.lookup p = some v → filterPattern p = .ok v

theorem noEntries_sound (p v : List UInt8) (h : ([] : List (List UInt8 × List UInt8)).lookup p = some v) :
    filterPattern p = .ok v := by
  cases h

def PatternCache.empty : PatternCache := ⟨[], noEntries_sound⟩

theorem PatternCache.store_sound (cache : PatternCache) {p v : List UInt8} (hv : filterPattern p = .ok v)
    (q w : List UInt8) (hlookup : ((p, v) :: cache.entries).lookup q = some w) : filterPattern q = .ok w := by
  rw [List.lookup_cons] at hlookup
  by_cases hq : q = p
  · subst hq
    rw [beq_self_eq_true] at hlookup
    exact Option.some.inj hlookup ▸ hv
  · rw [beq_false_of_ne hq] at hlookup
    exact cache.sound q w hlookup

/-- `pattern_cache[p] = v`. -/
def PatternCache.store (cache : PatternCache) (p v : List UInt8) (hv : filterPattern p = .ok v) : PatternCache where
  entries := (p, v) :: cache.entries
  sound := cache.store_sound hv

def getCachedPattern (p : List UInt8) (cache : PatternCache) : Except PatternError (List UInt8) × PatternCache :=
  match cache.entries.lookup p with
  | some v => (.ok v, cache)
  | none =>
      match hv : filterPattern p with
      | .error err => (.error err, cache)
      | .ok v => (.ok v, cache.store p v hv)

/-- A `Config` value that is there. A list is an array of such values. -/
inductive ConfigFilter where
  | string (p : List UInt8)
  | table (items : List ConfigFilter)
  | other (ptype : String)

/-- What `config_matches` can raise. -/
inductive ConfigError where
  | pattern (err : PatternError)
  | message (text : String)
deriving DecidableEq

mutual

/-- `config_matches`. Without a filter it holds, which `tableMatches` says. -/
def configMatches (buildId : List UInt8) : ConfigFilter → PatternCache → Except ConfigError Bool × PatternCache
  | .string p, cache =>
      match getCachedPattern p cache with
      | (.error err, cache) => (.error (.pattern err), cache)
      | (.ok fpattern, cache) =>
          match strMatch buildId fpattern with
          | .error err => (.error (.pattern err), cache)
          | .ok found => (.ok found.isSome, cache)
  | .table items, cache => configMatchesAny buildId items cache
  | .other ptype, cache => (.error (.message ("bad 'Config' pattern type: " ++ ptype)), cache)

/-- The loop of `config_matches` over a list. -/
def configMatchesAny (buildId : List UInt8) : List ConfigFilter → PatternCache → Except ConfigError Bool × PatternCache
  | [], cache => (.ok false, cache)
  | item :: items, cache =>
      match configMatches buildId item cache with
      | (.ok false, cache) => configMatchesAny buildId items cache
      | result => result

end

theorem getCachedPattern_fst (p : List UInt8) (cache : PatternCache) :
    (getCachedPattern p cache).1 = filterPattern p := by
  rw [getCachedPattern]
  cases hlookup : cache.entries.lookup p with
  | some v => exact (cache.sound p v hlookup).symm
  | none =>
      dsimp only
      split
      · rename_i err herr
        exact herr.symm
      · rename_i v hv
        exact hv.symm

mutual

theorem configMatches_fst (buildId : List UInt8) : ∀ (filter : ConfigFilter) (cache cache' : PatternCache),
    (configMatches buildId filter cache).1 = (configMatches buildId filter cache').1
  | .string p, cache, cache' => by
      have h := getCachedPattern_fst p cache
      have h' := getCachedPattern_fst p cache'
      rw [configMatches, configMatches]
      rcases hget : getCachedPattern p cache with ⟨result, after⟩
      rcases hget' : getCachedPattern p cache' with ⟨result', after'⟩
      rw [hget] at h
      rw [hget'] at h'
      obtain rfl : result = result' := Eq.trans h h'.symm
      cases result with
      | error err => rfl
      | ok fpattern =>
          dsimp only
          cases strMatch buildId fpattern <;> rfl
  | .table items, cache, cache' => configMatchesAny_fst buildId items cache cache'
  | .other ptype, cache, cache' => rfl

theorem configMatchesAny_fst (buildId : List UInt8) : ∀ (items : List ConfigFilter) (cache cache' : PatternCache),
    (configMatchesAny buildId items cache).1 = (configMatchesAny buildId items cache').1
  | [], cache, cache' => rfl
  | item :: items, cache, cache' => by
      have h := configMatches_fst buildId item cache cache'
      rw [configMatchesAny, configMatchesAny]
      rcases hitem : configMatches buildId item cache with ⟨result, after⟩
      rcases hitem' : configMatches buildId item cache' with ⟨result', after'⟩
      rw [hitem, hitem'] at h
      obtain rfl : result = result' := h
      cases result with
      | error err => rfl
      | ok matched =>
          cases matched with
          | true => rfl
          | false => exact configMatchesAny_fst buildId items after after'

end

/-- `config_matches` as the routines over nested lists use it. -/
def filterMatches (filter : ConfigFilter) (buildId : List UInt8) :
    Except ConfigError Bool := (configMatches buildId filter .empty).1

/-- A call in the middle of a run does what the first one does. -/
theorem tableMatches_configMatches (config : ConfigFilter) (buildId : List UInt8) (cache : PatternCache) :
    (configMatches buildId config cache).1 = tableMatches filterMatches (some config) buildId :=
  configMatches_fst buildId config cache .empty

/-! ### Components -/

/-- A component of a filter: `*` or the name it wants. -/
inductive FilterComponent where
  | any
  | name (literal : List UInt8)
deriving DecidableEq

def isWord (c : UInt8) : Bool := isAlnum c || c = 95

/-- A name of letters, digits and underscores. -/
def isWords (name : List UInt8) : Bool := name ≠ [] && name.all isWord

namespace FilterComponent

def text : FilterComponent → List UInt8
  | any => [42]
  | name literal => literal

/-- What a component says about a name. -/
def agrees : FilterComponent → List UInt8 → Bool
  | any, _ => true
  | name literal, n => literal = n

/-- The names the pattern of a component goes over. -/
def accepts : FilterComponent → List UInt8 → Bool
  | any, n => isWords n
  | name literal, n => literal = n

def pattern : FilterComponent → List UInt8
  | any => wordsPattern
  | name literal => literal

/-- What the pattern of a component leaves of a subject. -/
def eat : FilterComponent → List UInt8 → Option (List UInt8)
  | any, s => if s.head?.any isWord then some (s.dropWhile isWord) else none
  | name literal, s => if literal.isPrefixOf s then some (s.drop literal.length) else none

/-- A literal name of a filter. -/
def wellFormed : FilterComponent → Bool
  | any => true
  | name literal => literal ≠ [] && !literal.contains 45 && !literal.contains 42

/-- No byte of it means something in a pattern. -/
def plain : FilterComponent → Bool
  | any => true
  | name literal => literal.all fun ch => isOrdinary ch && !isRepetition ch && ch ≠ 0

end FilterComponent

/-- The item of `[%w_]+`. -/
def wordItem : PatternItem := .set false [37, 119, 95]

theorem singleMatch_wordItem (c : UInt8) : singleMatch c wordItem = isWord c := by
  have hw : matchClass c 119 = isAlnum c := rfl
  simp [singleMatch, wordItem, matchSet, hw, isWord, eq_comm]

/-- `[%w_]+` takes a whole word when what is behind it cannot go on with a byte of one. -/
theorem matchPattern_words {src next s : List UInt8} {captures : List Capture} {fuel : Nat}
    (hnext : ∀ c s, isWord c = true → matchPattern src fuel next (c :: s) captures = .ok none) :
    matchPattern src (fuel + 1) (wordsPattern ++ next) s captures =
      if s.head?.any isWord then matchPattern src fuel next (s.dropWhile isWord) captures else .ok none := by
  have hbegins : beginsItem (wordsPattern ++ next) = true := rfl
  have hclass : classEnd (wordsPattern ++ next) = .ok (wordItem, 43 :: next) := rfl
  have hstops : ∀ c s, singleMatch c wordItem = true → matchPattern src fuel next (c :: s) captures = .ok none := by
    intro c s hc
    exact hnext c s (singleMatch_wordItem c ▸ hc)
  rw [matchPattern_plus hbegins hclass, maxExpand_stops hstops]
  simp only [singleMatch_wordItem]
  cases s with
  | nil => rfl
  | cons c s =>
      by_cases hc : isWord c = true
      · simp [hc]
      · simp [hc]

theorem matchPattern_literal {src next : List UInt8} {captures : List Capture} {fuel : Nat} (hnext : next ≠ [])
    (hsign : next.head?.any isRepetition = false) (literal : List UInt8)
    (hplain : (FilterComponent.name literal).plain = true) (s : List UInt8) :
    matchPattern src (fuel + literal.length) (literal ++ next) s captures =
      if literal.isPrefixOf s then matchPattern src fuel next (s.drop literal.length) captures else .ok none := by
  induction literal generalizing s with
  | nil => rfl
  | cons ch literal ih =>
      simp only [FilterComponent.plain, List.all_cons, Bool.and_eq_true] at hplain
      obtain ⟨⟨⟨hordinary, -⟩, -⟩, hrest⟩ := hplain
      have hend : ch :: (literal ++ next) ≠ [36] := by simp [hnext]
      have hhead : (literal ++ next).head?.any isRepetition = false := by
        cases literal with
        | nil => exact hsign
        | cons d literal =>
            simp only [List.all_cons, Bool.and_eq_true] at hrest
            simpa using hrest.1.1.2
      rw [List.length_cons, ← Nat.add_assoc, List.cons_append, matchPattern_char hordinary hend hhead]
      cases s with
      | nil => rfl
      | cons c s =>
          rw [List.tail_cons, ih hrest, List.head?_cons, List.isPrefixOf_cons_cons, List.drop_succ_cons]
          by_cases hc : c = ch
          · simp [hc]
          · simp [hc, Ne.symm hc]

theorem matchPattern_dash {src next s : List UInt8} {captures : List Capture} {fuel : Nat}
    (hsign : next.head?.any isRepetition = false) :
    matchPattern src (fuel + 1) (dashPattern ++ next) s captures =
      if s.head? = some 45 then matchPattern src fuel next s.tail captures else .ok none := by
  have hbegins : beginsItem (dashPattern ++ next) = true := rfl
  have hclass : classEnd (dashPattern ++ next) = .ok (.cls 45, next) := rfl
  rw [matchPattern_once hbegins hclass hsign]
  cases s with
  | nil => rfl
  | cons c s =>
      have hmatch : singleMatch c (.cls 45) = decide (45 = c) := rfl
      simp [hmatch, eq_comm]

/-- The end of a pattern behind components. -/
def patternRest : List FilterComponent → List UInt8
  | [] => [36]
  | c :: cs => dashPattern ++ c.pattern ++ patternRest cs

/-- What the end of a pattern lets through. -/
def eatRest : List FilterComponent → List UInt8 → Bool
  | [], s => s = []
  | c :: cs, s => s.head? = some 45 && (c.eat s.tail).any (eatRest cs)

theorem patternRest_ne_nil (cs : List FilterComponent) : patternRest cs ≠ [] := by
  cases cs <;> simp [patternRest, dashPattern]

theorem patternRest_head (cs : List FilterComponent) : (patternRest cs).head?.any isRepetition = false := by
  cases cs with
  | nil => rfl
  | cons c cs => rfl

theorem not_eatRest_word {c : UInt8} (cs : List FilterComponent) (s : List UInt8) (hc : isWord c = true) :
    eatRest cs (c :: s) = false := by
  cases cs with
  | nil => rfl
  | cons c' cs =>
      have hne : c ≠ 45 := by
        rintro rfl
        exact absurd hc (by decide)
      simp [eatRest, hne]

theorem FilterComponent.pattern_head {c : FilterComponent} (hwell : c.wellFormed = true) (hplain : c.plain = true)
    (next : List UInt8) :
    (c.pattern ++ next).head?.any isRepetition = false := by
  cases c with
  | any => rfl
  | name literal =>
      cases literal with
      | nil => simp [wellFormed] at hwell
      | cons ch literal =>
          simp only [plain, List.all_cons, Bool.and_eq_true] at hplain
          simpa [pattern] using hplain.1.1.2

theorem matchPattern_component {src : List UInt8} {c : FilterComponent} (hplain : c.plain = true)
    {cs : List FilterComponent}
    (hrest : ∀ fuel s, (patternRest cs).length < fuel →
    matchPattern src fuel (patternRest cs) s [] = .ok (if eatRest cs s then some ([], []) else none))
    {fuel : Nat} (hfuel : (c.pattern ++ patternRest cs).length < fuel) (s : List UInt8) :
    matchPattern src fuel (c.pattern ++ patternRest cs) s [] = .ok
    (if (c.eat s).any (eatRest cs) then some ([], []) else none) := by
  rw [List.length_append] at hfuel
  cases c with
  | any =>
      obtain ⟨fuel, rfl⟩ : ∃ k, fuel = k + 1 := ⟨fuel - 1, by omega⟩
      have hlt : (patternRest cs).length < fuel := by
        simp only [FilterComponent.pattern, wordsPattern, List.length_cons, List.length_nil] at hfuel
        omega
      have hnext : ∀ c s, isWord c = true → matchPattern src fuel (patternRest cs) (c :: s) [] = .ok none := by
        intro c s hc
        rw [hrest fuel _ hlt, not_eatRest_word cs s hc]
        rfl
      rw [FilterComponent.pattern, matchPattern_words hnext, hrest fuel _ hlt, FilterComponent.eat]
      split <;> rfl
  | name literal =>
      rw [FilterComponent.pattern] at hfuel
      obtain ⟨k, rfl⟩ : ∃ k, fuel = k + literal.length := ⟨fuel - literal.length, by omega⟩
      rw [FilterComponent.pattern, matchPattern_literal (patternRest_ne_nil cs) (patternRest_head cs) literal hplain,
        hrest k _ (by omega), FilterComponent.eat]
      split <;> rfl

theorem matchPattern_patternRest {src : List UInt8} {cs : List FilterComponent} (hwell : ∀ c ∈ cs, c.wellFormed = true)
    (hplain : ∀ c ∈ cs, c.plain = true) (fuel : Nat) (s : List UInt8) (hfuel : (patternRest cs).length < fuel) :
    matchPattern src fuel (patternRest cs) s [] = .ok (if eatRest cs s then some ([], []) else none) := by
  induction cs generalizing fuel s with
  | nil =>
      obtain ⟨fuel, rfl⟩ : ∃ k, fuel = k + 1 := ⟨fuel - 1, by omega⟩
      rw [patternRest, matchPattern_end, eatRest]
      by_cases hs : s = []
      · subst hs
        rfl
      · simp [hs]
  | cons c cs ih =>
      obtain ⟨fuel, rfl⟩ : ∃ k, fuel = k + 1 := ⟨fuel - 1, by omega⟩
      have hlt : (c.pattern ++ patternRest cs).length < fuel := by
        simp only [patternRest, dashPattern, List.length_append, List.length_cons, List.length_nil] at hfuel ⊢
        omega
      have hcs := ih (fun c hc => hwell c (List.mem_cons_of_mem _ hc)) fun c hc => hplain c (List.mem_cons_of_mem _ hc)
      have hhead := FilterComponent.pattern_head (hwell c List.mem_cons_self) (hplain c List.mem_cons_self)
        (patternRest cs)
      rw [patternRest, List.append_assoc, matchPattern_dash hhead,
        matchPattern_component (hplain c List.mem_cons_self) hcs hlt, eatRest]
      by_cases hs : s.head? = some 45
      · simp [hs]
      · simp [hs]

/-! ### Words between dashes -/

def joinDashes : List (List UInt8) → List UInt8
  | [] => []
  | w :: ws => w ++ ws.flatMap (45 :: ·)

theorem FilterComponent.eat_spec {c : FilterComponent} {s rest : List UInt8} (h : c.eat s = some rest) :
    ∃ w, c.accepts w = true ∧ s = w ++ rest := by
  cases c with
  | any =>
      rw [eat] at h
      split_ifs at h with hhead
      obtain rfl := Option.some.inj h
      refine ⟨s.takeWhile isWord, ?_, List.takeWhile_append_dropWhile.symm⟩
      cases s with
      | nil => cases hhead
      | cons c s =>
          have hc : isWord c = true := hhead
          simp [accepts, isWords, hc]
  | name literal =>
      rw [eat] at h
      split_ifs at h with hprefix
      obtain rfl := Option.some.inj h
      refine ⟨literal, by simp [accepts], ?_⟩
      exact (List.prefix_iff_eq_append.mp (List.isPrefixOf_iff_prefix.mp hprefix)).symm

theorem FilterComponent.eat_append {c : FilterComponent} {w rest : List UInt8} (hw : c.accepts w = true)
    (hrest : rest.head?.any isWord = false) :
    c.eat (w ++ rest) = some rest := by
  cases c with
  | any =>
      simp only [accepts, isWords, Bool.and_eq_true, decide_eq_true_eq] at hw
      obtain ⟨hne, hall⟩ := hw
      have hhead : (w ++ rest).head?.any isWord = true := by
        cases w with
        | nil => exact absurd rfl hne
        | cons c w => exact (Bool.and_eq_true _ _ ▸ hall).1
      have hdrop : rest.dropWhile isWord = rest := by
        cases rest with
        | nil => rfl
        | cons c rest => rw [List.dropWhile_cons_of_neg (by simpa using hrest)]
      rw [eat, if_pos hhead, List.dropWhile_append_of_pos (List.all_eq_true.mp hall), hdrop]
  | name literal =>
      obtain rfl : literal = w := by simpa [accepts] using hw
      simp [eat]

/-- A pattern lets through the dash-joined texts of names its components accept. -/
theorem eatRest_iff (cs : List FilterComponent) (s : List UInt8) :
    eatRest cs s = true ↔ ∃ ws, List.Forall₂ (fun c w => c.accepts w = true) cs ws ∧ s = ws.flatMap (45 :: ·) := by
  induction cs generalizing s with
  | nil => simp [eatRest]
  | cons c cs ih =>
      constructor
      · intro h
        rw [eatRest, Bool.and_eq_true, decide_eq_true_eq, Option.any_eq_true] at h
        obtain ⟨hhead, rest, heat, hrest⟩ := h
        obtain ⟨w, hw, htail⟩ := FilterComponent.eat_spec heat
        obtain ⟨ws, hws, rfl⟩ := (ih rest).mp hrest
        refine ⟨w :: ws, .cons hw hws, ?_⟩
        rw [List.flatMap_cons, List.cons_append, ← htail, List.cons_head?_tail hhead]
      · rintro ⟨ws, hforall, rfl⟩
        cases hforall with
        | cons hw hws =>
            rename_i w ws
            have hrest : (ws.flatMap (45 :: ·)).head?.any isWord = false := by
              cases ws with
              | nil => rfl
              | cons w ws => rfl
            rw [eatRest, List.flatMap_cons, List.cons_append, List.tail_cons, FilterComponent.eat_append hw hrest]
            exact (ih _).mpr ⟨ws, hws, rfl⟩

/-- Up to the first dash of a joined text goes its first word. -/
theorem takeWhile_joined {w : List UInt8} (hw : (45 : UInt8) ∉ w) (ws : List (List UInt8)) :
    (w ++ ws.flatMap (45 :: ·)).takeWhile (· ≠ 45) = w := by
  have hall : ∀ c ∈ w, decide (c ≠ 45) = true := fun c hc => decide_eq_true fun heq => hw (heq ▸ hc)
  rw [List.takeWhile_append_of_pos hall]
  cases ws with
  | nil => exact List.append_nil w
  | cons n ws => exact List.append_nil w

theorem dashFree_unique {ws ns : List (List UInt8)} (hws : ∀ w ∈ ws, (45 : UInt8) ∉ w)
    (hns : ∀ n ∈ ns, (45 : UInt8) ∉ n) (h : ws.flatMap (45 :: ·) = ns.flatMap (45 :: ·)) : ws = ns := by
  induction ws generalizing ns with
  | nil =>
      cases ns with
      | nil => rfl
      | cons n ns => cases h
  | cons w ws ih =>
      cases ns with
      | nil => cases h
      | cons n ns =>
          have htails : w ++ ws.flatMap (45 :: ·) = n ++ ns.flatMap (45 :: ·) := (List.cons.inj h).2
          have hfirst : w = n := by
            rw [← takeWhile_joined (hws w List.mem_cons_self) ws, htails, takeWhile_joined (hns n List.mem_cons_self)]
          subst hfirst
          rw [ih (fun w hw => hws w (List.mem_cons_of_mem _ hw)) (fun n hn => hns n (List.mem_cons_of_mem _ hn))
            (List.append_cancel_left htails)]

/-- As many names, put together to the same text, have no dashes either. -/
theorem count_joined (ws : List (List UInt8)) :
    (ws.flatMap (45 :: ·)).count 45 = ws.length + (ws.map (List.count 45)).sum := by
  induction ws with
  | nil => rfl
  | cons w ws ih =>
      rw [List.flatMap_cons, List.cons_append, List.count_cons_self, List.count_append, ih, List.map_cons,
        List.sum_cons, List.length_cons]
      omega

theorem FilterComponent.dashFree {c : FilterComponent} (hwell : c.wellFormed = true) {w : List UInt8}
    (hw : c.accepts w = true) : (45 : UInt8) ∉ w := by
  intro hmem
  cases c with
  | any =>
      simp only [accepts, isWords, Bool.and_eq_true, decide_eq_true_eq, List.all_eq_true] at hw
      exact absurd (hw.2 45 hmem) (by decide)
  | name literal =>
      obtain rfl : literal = w := by simpa [accepts] using hw
      simp only [wellFormed, Bool.and_eq_true, Bool.not_eq_true', decide_eq_true_eq] at hwell
      simp [hmem] at hwell

/-- A pattern lets through the text of as many names just when its components accept them one by one. -/
theorem eatRest_names {cs : List FilterComponent} (hwell : ∀ c ∈ cs, c.wellFormed = true)
    {names : List (List UInt8)} (hlen : cs.length = names.length) :
    eatRest cs (names.flatMap (45 :: ·)) = true ↔ List.Forall₂ (fun c w => c.accepts w = true) cs names := by
  rw [eatRest_iff]
  constructor
  · rintro ⟨ws, hforall, heq⟩
    have hws : ∀ w ∈ ws, (45 : UInt8) ∉ w := by
      intro w hw
      obtain ⟨k, hk, rfl⟩ := List.mem_iff_getElem.mp hw
      have hk' : k < cs.length := hforall.length_eq ▸ hk
      exact FilterComponent.dashFree (hwell _ (List.getElem_mem hk')) (hforall.get hk' hk)
    have hsum : (names.map (List.count 45)).sum = 0 := by
      have hcount := congrArg (List.count (45 : UInt8)) heq
      have hzero : (ws.map (List.count 45)).sum = 0 := by
        rw [List.sum_eq_zero_iff_forall_eq_nat]
        intro k hk
        obtain ⟨w, hw, rfl⟩ := List.mem_map.mp hk
        exact List.count_eq_zero.mpr (hws w hw)
      rw [count_joined, count_joined, hzero, ← hforall.length_eq, hlen] at hcount
      omega
    have hns : ∀ n ∈ names, (45 : UInt8) ∉ n := by
      intro n hn
      exact List.count_eq_zero.mp (List.sum_eq_zero_iff_forall_eq_nat.mp hsum _ (List.mem_map_of_mem hn))
    exact dashFree_unique hws hns heq.symm ▸ hforall
  · intro hforall
    exact ⟨names, hforall, rfl⟩

/-! ### From a filter to its pattern -/

theorem gsubFrom_star (src replacement : List UInt8) (steps : Nat) (s : List UInt8) (hsteps : s.length < steps) :
    gsubFrom src [42] replacement steps s = .ok
    (s.flatMap fun c => if c = 42 then addReplacement replacement else [c]) := by
  induction s generalizing steps with
  | nil =>
      obtain ⟨steps, rfl⟩ : ∃ k, steps = k + 1 := ⟨steps - 1, by omega⟩
      rfl
  | cons c s ih =>
      obtain ⟨steps, rfl⟩ : ∃ k, steps = k + 1 := ⟨steps - 1, by omega⟩
      have hrest := ih steps (by simpa using hsteps)
      have hmatch : matchAt src [42] (c :: s) = if c = 42 then .ok (some (s, [])) else .ok none := by
        rw [matchAt, List.length_singleton, matchPattern_char rfl (by decide) rfl, List.head?_cons]
        simp only [Option.some.injEq]
        rfl
      rw [gsubFrom, hmatch, List.flatMap_cons]
      by_cases hc : c = 42
      · rw [if_pos hc, if_pos hc]
        simp [bind, Except.bind, pure, Except.pure, hrest]
      · rw [if_neg hc, if_neg hc]
        simp [bind, Except.bind, pure, Except.pure, hrest]

theorem gsub_star (p : List UInt8) :
    gsub p [42] [91, 37, 37, 119, 95, 93, 43] = .ok (p.flatMap fun c => if c = 42 then wordsPattern else [c]) :=
  gsubFrom_star p _ _ p (Nat.lt_succ_self _)

theorem flatMap_literal {literal : List UInt8} (h : (42 : UInt8) ∉ literal) :
    (literal.flatMap fun c => if c = 42 then wordsPattern else [c]) = literal := by
  induction literal with
  | nil => rfl
  | cons c literal ih =>
      rw [List.mem_cons, not_or] at h
      rw [List.flatMap_cons, ih h.2, if_neg (Ne.symm h.1)]
      rfl

theorem FilterComponent.substituted {c : FilterComponent} (hwell : c.wellFormed = true) :
    (c.text.flatMap fun c => if c = 42 then wordsPattern else [c]) = c.pattern := by
  cases c with
  | any => rfl
  | name literal =>
      simp only [wellFormed, Bool.and_eq_true, Bool.not_eq_true', List.contains_eq_mem,
        decide_eq_false_iff_not] at hwell
      exact flatMap_literal hwell.2

theorem joinDashes_substituted {cs : List FilterComponent} (hwell : ∀ c ∈ cs, c.wellFormed = true) :
    ((joinDashes (cs.map FilterComponent.text)).flatMap fun c => if c = 42 then wordsPattern else [c]) = joinDashes
    (cs.map FilterComponent.pattern) := by
  have hrest : ∀ cs : List FilterComponent, (∀ c ∈ cs, c.wellFormed = true) →
      (((cs.map FilterComponent.text).flatMap (45 :: ·)).flatMap fun c => if c = 42 then wordsPattern else [c]) =
        (cs.map FilterComponent.pattern).flatMap (45 :: ·) := by
    intro cs hwell
    induction cs with
    | nil => rfl
    | cons c cs ih =>
        have hc := FilterComponent.substituted (hwell c List.mem_cons_self)
        have hcs := ih fun c hc => hwell c (List.mem_cons_of_mem _ hc)
        rw [List.map_cons, List.flatMap_cons, List.flatMap_append, hcs, List.flatMap_cons, hc]
        rfl
  cases cs with
  | nil => rfl
  | cons c cs =>
      rw [List.map_cons, joinDashes, List.flatMap_append, FilterComponent.substituted (hwell c List.mem_cons_self),
        hrest cs fun c hc => hwell c (List.mem_cons_of_mem _ hc)]
      rfl

theorem singleMatch_part (c : UInt8) : singleMatch c (.set true [45]) = decide (c ≠ 45) := by
  simp [singleMatch, matchSet, eq_comm]

theorem matchAt_part (src s : List UInt8) :
    matchAt src [91, 94, 45, 93, 43] s = if s.head?.any (· ≠ 45) then .ok (some (s.dropWhile (· ≠ 45), []))
    else .ok none := by
  have hclass : classEnd [91, 94, 45, 93, 43] = .ok (.set true [45], [43]) := rfl
  have hend : ∀ t, matchPattern src ([91, 94, 45, 93, 43] : List UInt8).length [] t [] = .ok (some (t, [])) :=
    fun t => rfl
  rw [matchAt, matchPattern_plus rfl hclass, maxExpand_takes hend]
  simp only [singleMatch_part]
  cases s with
  | nil => rfl
  | cons c s =>
      by_cases hc : c = 45
      · simp [hc]
      · simp [hc]

/-- The next part: what is up to the next dash behind the dashes there are. -/
theorem findMatch_part (src s : List UInt8) :
    findMatch src [91, 94, 45, 93, 43] false s =
      .ok (if s.dropWhile (· = 45) = [] then none
      else some (s.dropWhile (· = 45), (s.dropWhile (· = 45)).dropWhile (· ≠ 45), [])) := by
  induction s with
  | nil => rfl
  | cons c s ih =>
      rw [findMatch, matchAt_part]
      by_cases hc : c = 45
      · simp only [hc, List.head?_cons, Option.any_some, ne_eq, not_true, decide_false, Bool.false_eq_true, if_false,
          List.dropWhile_cons, decide_true, if_true]
        exact ih
      · simp [hc, bind, Except.bind, pure, Except.pure]

theorem dropWhile_dash {w : List UInt8} (hne : w ≠ []) (hw : (45 : UInt8) ∉ w) (rest : List UInt8) :
    (w ++ rest).dropWhile (· = 45) = w ++ rest := by
  cases w with
  | nil => exact absurd rfl hne
  | cons c w =>
      have hc : c ≠ 45 := fun heq => hw (heq ▸ List.mem_cons_self)
      rw [List.cons_append, List.dropWhile_cons_of_neg (by simpa using hc)]

theorem dropWhile_part {w : List UInt8} (hw : (45 : UInt8) ∉ w) (ws : List (List UInt8)) :
    (w ++ ws.flatMap (45 :: ·)).dropWhile (· ≠ 45) = ws.flatMap (45 :: ·) := by
  have hall : ∀ c ∈ w, decide (c ≠ 45) = true := fun c hc => decide_eq_true fun heq => hw (heq ▸ hc)
  rw [List.dropWhile_append_of_pos hall]
  cases ws with
  | nil => rfl
  | cons n ws => rfl

theorem gmatchFrom_parts (src : List UInt8) {ws : List (List UInt8)} (hws : ∀ w ∈ ws, w ≠ [] ∧ (45 : UInt8) ∉ w)
    {steps : Nat} (hsteps : ws.length ≤ steps) :
    gmatchFrom src [91, 94, 45, 93, 43] steps (ws.flatMap (45 :: ·)) = .ok (ws.map .text) := by
  induction ws generalizing steps with
  | nil =>
      cases steps with
      | zero => rfl
      | succ steps => rfl
  | cons w ws ih =>
      obtain ⟨steps, rfl⟩ : ∃ k, steps = k + 1 := ⟨steps - 1, by simp only [List.length_cons] at hsteps; omega⟩
      obtain ⟨hne, hw⟩ := hws w List.mem_cons_self
      have hrest := ih (fun w hw => hws w (List.mem_cons_of_mem _ hw)) (Nat.le_of_succ_le_succ hsteps)
      have hdrop : ((w :: ws).flatMap (45 :: ·)).dropWhile (· = 45) = w ++ ws.flatMap (45 :: ·) := by
        rw [List.flatMap_cons, List.cons_append, List.dropWhile_cons_of_pos (by decide), dropWhile_dash hne hw]
      have hsome : w ++ ws.flatMap (45 :: ·) ≠ [] := by simp [hne]
      have hmoved : ws.flatMap (45 :: ·) ≠ w ++ ws.flatMap (45 :: ·) := by
        intro heq
        exact hne (List.append_left_eq_self.mp heq.symm)
      have htake : (w ++ ws.flatMap (45 :: ·)).take
        ((w ++ ws.flatMap (45 :: ·)).length - (ws.flatMap (45 :: ·)).length) = w := by
        rw [List.length_append, Nat.add_sub_cancel, List.take_left]
      rw [gmatchFrom, findMatch_part, hdrop, if_neg hsome, dropWhile_part hw]
      simp only [bind, Except.bind, pushCaptures, if_true, pure, Except.pure, ne_eq, hmoved, not_false_eq_true, hrest,
        htake, List.map_cons]
      rfl

theorem gmatchFrom_dash (src s : List UInt8) (steps : Nat) :
    gmatchFrom src [91, 94, 45, 93, 43] steps (45 :: s) = gmatchFrom src [91, 94, 45, 93, 43] steps s := by
  cases steps with
  | zero => rfl
  | succ steps =>
      rw [gmatchFrom, gmatchFrom, findMatch_part, findMatch_part, List.dropWhile_cons_of_pos (by decide)]

theorem gmatch_parts {ws : List (List UInt8)} (hws : ∀ w ∈ ws, w ≠ [] ∧ (45 : UInt8) ∉ w) :
    gmatch (joinDashes ws) [91, 94, 45, 93, 43] = .ok (ws.map .text) := by
  cases ws with
  | nil => rfl
  | cons w ws =>
      have hlen : (w :: ws).length ≤ (joinDashes (w :: ws)).length + 1 := by
        have hcount := List.count_le_length (a := (45 : UInt8)) (l := ws.flatMap (45 :: ·))
        rw [count_joined] at hcount
        rw [joinDashes, List.length_append, List.length_cons]
        omega
      have hjoined : 45 :: joinDashes (w :: ws) = (w :: ws).flatMap (45 :: ·) := rfl
      have htext : patternText [91, 94, 45, 93, 43] = [91, 94, 45, 93, 43] := rfl
      rw [gmatch, htext, ← gmatchFrom_dash, hjoined]
      exact gmatchFrom_parts _ hws hlen

/-- A filter string: one to four components between dashes, each a literal name or `*`. -/
structure ComponentFilter where
  components : List FilterComponent
  nonempty : components ≠ []
  atMost : components.length ≤ 4
  wellFormed : ∀ c ∈ components, c.wellFormed = true

namespace ComponentFilter

def text (f : ComponentFilter) : List UInt8 := joinDashes (f.components.map FilterComponent.text)

/-- The components with the ones that are left out. -/
def full (f : ComponentFilter) : List FilterComponent := f.components ++ List.replicate (4 - f.components.length) .any

/-- What the filter says about a platform, a toolset, a variant and a subvariant. -/
def agrees (names : List (List UInt8)) (f : ComponentFilter) :
    Bool := (f.components.zip names).all fun entry => entry.1.agrees entry.2

def plain (f : ComponentFilter) : Bool := f.components.all FilterComponent.plain

/-- The names the filter leaves open are words, for the variant and the subvariant. -/
def opensWords (variant subvariant : List UInt8) (f : ComponentFilter) : Bool :=
  ((f.full.drop 2).zip [variant, subvariant]).all fun entry => entry.1 ≠ .any || isWords entry.2

theorem full_length (f : ComponentFilter) : f.full.length = 4 := by
  have hle := f.atMost
  rw [full, List.length_append, List.length_replicate]
  omega

theorem full_wellFormed (f : ComponentFilter) : ∀ c ∈ f.full, c.wellFormed = true := by
  intro c hc
  rcases List.mem_append.mp hc with h | h
  · exact f.wellFormed c h
  · exact List.eq_of_mem_replicate h ▸ rfl

theorem full_plain {f : ComponentFilter} (hplain : f.plain = true) : ∀ c ∈ f.full, c.plain = true := by
  intro c hc
  rcases List.mem_append.mp hc with h | h
  · exact List.all_eq_true.mp hplain c h
  · exact List.eq_of_mem_replicate h ▸ rfl

/-- A component that is left out has the pattern that stands in for it. -/
theorem part_eq (f : ComponentFilter) (k : Nat) :
    (((f.components.map fun c => MatchValue.text c.pattern)[k]?.map MatchValue.toText).getD wordsPattern) =
    ((f.full[k]?).getD .any).pattern := by
  rw [List.getElem?_map, full, List.getElem?_append]
  split_ifs with hk
  · rw [List.getElem?_eq_getElem hk]
    rfl
  · rw [List.getElem?_eq_none (Nat.le_of_not_lt hk)]
    cases hrest : (List.replicate (4 - f.components.length) FilterComponent.any)[k - f.components.length]? with
    | none => rfl
    | some c => rw [Option.getD_some, List.eq_of_mem_replicate (List.mem_of_getElem? hrest)]; rfl

end ComponentFilter

theorem FilterComponent.pattern_part {c : FilterComponent} (hwell : c.wellFormed = true) :
    c.pattern ≠ [] ∧ (45 : UInt8) ∉ c.pattern := by
  cases c with
  | any => decide
  | name literal =>
      simp only [wellFormed, Bool.and_eq_true, Bool.not_eq_true', List.contains_eq_mem, decide_eq_true_eq,
        decide_eq_false_iff_not] at hwell
      exact hwell.1

theorem FilterComponent.formatString_pattern {c : FilterComponent} (hplain : c.plain = true) :
    formatString c.pattern = c.pattern := by
  cases c with
  | any => rfl
  | name literal =>
      have hnul : ∀ ch ∈ literal, decide (ch ≠ 0) = true := by
        intro ch hch
        simp only [plain, List.all_eq_true, Bool.and_eq_true] at hplain
        exact (hplain ch hch).2
      rw [formatString, pattern, List.takeWhile_eq_self_iff.mpr hnul, ite_self]

theorem filterPattern_text {f : ComponentFilter} (hplain : f.plain = true) {c : FilterComponent}
    {cs : List FilterComponent} (hfull : f.full = c :: cs) :
    filterPattern f.text = .ok (94 :: (c.pattern ++ patternRest cs)) := by
  have hparts : ∀ w ∈ f.components.map FilterComponent.pattern, w ≠ [] ∧ (45 : UInt8) ∉ w := by
    intro w hw
    obtain ⟨c, hc, rfl⟩ := List.mem_map.mp hw
    exact FilterComponent.pattern_part (f.wellFormed c hc)
  have hgmatch := gmatch_parts hparts
  rw [List.map_map] at hgmatch
  have hlen := f.full_length
  have hformat : ∀ c ∈ f.full, formatString c.pattern = c.pattern :=
    fun c hc => FilterComponent.formatString_pattern (ComponentFilter.full_plain hplain c hc)
  rw [filterPattern, gsub_star, ComponentFilter.text, joinDashes_substituted f.wellFormed]
  simp only [bind, Except.bind, matchBuildId, hgmatch, pure, Except.pure, Function.comp_def, f.part_eq]
  rw [hfull] at hlen hformat ⊢
  obtain ⟨c₂, c₃, c₄, rfl⟩ : ∃ c₂ c₃ c₄, cs = [c₂, c₃, c₄] := by
    match cs, hlen with
    | [c₂, c₃, c₄], _ => exact ⟨c₂, c₃, c₄, rfl⟩
  simp [hformat, patternRest, List.append_assoc]

/-! ### Filters against build ids -/

theorem strMatch_anchored {src p : List UInt8} {b : Bool} (htext : patternText (94 :: p) = 94 :: p)
    (h : matchAt src p src = .ok (if b then some ([], []) else none)) :
    (·.isSome) <$> strMatch src (94 :: p) = .ok b := by
  have hfind : findMatch src p true src = .ok (if b then some (src, [], []) else none) := by
    cases hsrc : src with
    | nil =>
        subst hsrc
        rw [findMatch, h]
        cases b <;> rfl
    | cons c s =>
        subst hsrc
        rw [findMatch, h]
        cases b <;> rfl
  rw [strMatch, htext]
  simp only [bind, Except.bind, hfind]
  cases b <;> rfl

theorem FilterComponent.pattern_noNul {c : FilterComponent} (hplain : c.plain = true) : ∀ ch ∈ c.pattern, ch ≠ 0 := by
  intro ch hch
  cases c with
  | any =>
      have hwords : (0 : UInt8) ∉ wordsPattern := by decide
      exact ne_of_mem_of_not_mem hch hwords
  | name literal =>
      simp only [plain, List.all_eq_true, Bool.and_eq_true, decide_eq_true_eq] at hplain
      exact (hplain ch hch).2

theorem patternRest_noNul {cs : List FilterComponent} (hplain : ∀ c ∈ cs, c.plain = true) :
    ∀ ch ∈ patternRest cs, ch ≠ 0 := by
  induction cs with
  | nil =>
      intro ch hch
      have hend : (0 : UInt8) ∉ patternRest [] := by decide
      exact ne_of_mem_of_not_mem hch hend
  | cons c cs ih =>
      intro ch hch
      rw [patternRest, List.append_assoc, List.mem_append, List.mem_append] at hch
      have hdash : (0 : UInt8) ∉ dashPattern := by decide
      rcases hch with h | h | h
      · exact ne_of_mem_of_not_mem h hdash
      · exact FilterComponent.pattern_noNul (hplain c List.mem_cons_self) ch h
      · exact ih (fun c hc => hplain c (List.mem_cons_of_mem _ hc)) ch h

/-- The pattern of components lets through the names they accept one by one. -/
theorem strMatch_components {c : FilterComponent} {cs : List FilterComponent}
    (hwell : ∀ c' ∈ c :: cs, c'.wellFormed = true) (hplain : ∀ c' ∈ c :: cs, c'.plain = true)
    {names : List (List UInt8)} (hlen : (c :: cs).length = names.length) :
    (·.isSome) <$> strMatch (joinDashes names) (94 :: (c.pattern ++ patternRest cs)) =
      .ok (decide (List.Forall₂ (fun c w => c.accepts w = true) (c :: cs) names)) := by
  obtain ⟨n, ns, rfl⟩ : ∃ n ns, names = n :: ns := by
    cases names with
    | nil => cases hlen
    | cons n ns => exact ⟨n, ns, rfl⟩
  have hc := hplain c List.mem_cons_self
  have hcs : ∀ c' ∈ cs, c'.plain = true := fun c' h => hplain c' (List.mem_cons_of_mem _ h)
  have htext : patternText (94 :: (c.pattern ++ patternRest cs)) = 94 :: (c.pattern ++ patternRest cs) := by
    rw [patternText, List.takeWhile_eq_self_iff]
    intro ch hch
    rw [List.mem_cons, List.mem_append] at hch
    refine decide_eq_true ?_
    rcases hch with rfl | h | h
    · decide
    · exact FilterComponent.pattern_noNul hc ch h
    · exact patternRest_noNul hcs ch h
  refine strMatch_anchored htext ?_
  rw [matchAt, matchPattern_component hc
    (matchPattern_patternRest (fun c' h => hwell c' (List.mem_cons_of_mem _ h)) hcs) (Nat.lt_succ_self _)]
  have hiff : ((c.eat (joinDashes (n :: ns))).any (eatRest cs) = true) ↔
    List.Forall₂ (fun c w => c.accepts w = true) (c :: cs) (n :: ns) := by
    have hdash : eatRest (c :: cs) ((n :: ns).flatMap (45 :: ·)) = (c.eat (joinDashes (n :: ns))).any (eatRest cs) :=
      rfl
    rw [← hdash]
    exact eatRest_names hwell hlen
  simp only [hiff, decide_eq_true_eq]

/-- The check of `Config` lets through two words with a dash between them. -/
theorem configNameMatches_eq (name : List UInt8) :
    configNameMatches name = .ok (eatRest [.any, .any] (45 :: name)) := by
  have hend : ∀ c s, isWord c = true → matchPattern name 12 [36] (c :: s) [] = .ok none := fun c s _ => matchPattern_end
  have htoolset : ∀ s, matchPattern name 13 (wordsPattern ++ [36]) s [] =
      .ok (if (FilterComponent.any.eat s).any (eatRest []) then some ([], []) else none) := by
    intro s
    rw [matchPattern_words hend, matchPattern_end, FilterComponent.eat]
    by_cases hs : s.head?.any isWord = true
    · rw [if_pos hs, if_pos hs, Option.any_some, eatRest]
      by_cases hdrop : s.dropWhile isWord = []
      · rw [hdrop]
        rfl
      · rw [if_neg hdrop, decide_eq_false hdrop]
        rfl
    · rw [if_neg hs, if_neg hs]
      rfl
  have hdash : ∀ s, matchPattern name 14 (45 :: (wordsPattern ++ [36])) s [] =
    .ok (if eatRest [.any] s then some ([], []) else none) := by
    intro s
    rw [matchPattern_char (by decide) (by decide) rfl, htoolset, eatRest]
    by_cases hs : s.head? = some 45
    · simp [hs]
    · simp [hs]
  have hstops : ∀ c s, isWord c = true →
    matchPattern name 14 (45 :: (wordsPattern ++ [36])) (c :: s) [] = .ok none := by
    intro c s hc
    rw [hdash, not_eatRest_word _ _ hc]
    rfl
  have hpattern : configNamePattern = 94 :: (wordsPattern ++ 45 :: (wordsPattern ++ [36])) := rfl
  have hlen : (wordsPattern ++ 45 :: (wordsPattern ++ [36])).length + 1 = 15 := rfl
  rw [configNameMatches, hpattern]
  refine strMatch_anchored (by decide) ?_
  have hwhole : eatRest [.any, .any] (45 :: name) = (FilterComponent.any.eat name).any (eatRest [.any]) := rfl
  rw [matchAt, hlen, matchPattern_words hstops, hdash, hwhole, FilterComponent.eat]
  by_cases hs : name.head?.any isWord = true
  · rw [if_pos hs, if_pos hs]
    rfl
  · rw [if_neg hs, if_neg hs]
    rfl

theorem configName_words {platform toolset : List UInt8}
    (h : configNameMatches (platform ++ 45 :: toolset) = .ok true) :
    isWords platform = true ∧ isWords toolset = true := by
  have hjoined : 45 :: (platform ++ 45 :: toolset) = [platform, toolset].flatMap (45 :: ·) := by simp
  have hwell : ∀ c ∈ [FilterComponent.any, .any], c.wellFormed = true := by decide
  have hlen : [FilterComponent.any, .any].length = [platform, toolset].length := rfl
  rw [configNameMatches_eq, hjoined] at h
  cases (eatRest_names hwell hlen).mp (Except.ok.inj h) with
  | cons hplatform hrest =>
      cases hrest with
      | cons htoolset _ => exact ⟨hplatform, htoolset⟩

inductive FilterTree where
  | string (f : ComponentFilter)
  | table (items : List FilterTree)

namespace FilterTree

mutual

def toConfig : FilterTree → ConfigFilter
  | .string f => .string f.text
  | .table items => .table (toConfigAll items)

def toConfigAll : List FilterTree → List ConfigFilter
  | [] => []
  | item :: items => item.toConfig :: toConfigAll items

end

mutual

/-- Some string of a filter passes a test. -/
def any (test : ComponentFilter → Bool) : FilterTree → Bool
  | .string f => test f
  | .table items => anyOf test items

def anyOf (test : ComponentFilter → Bool) : List FilterTree → Bool
  | [] => false
  | item :: items => item.any test || anyOf test items

end

mutual

theorem any_mono {p q : ComponentFilter → Bool} (h : ∀ f, p f = true → q f = true) :
    ∀ filter : FilterTree, filter.any p = true → filter.any q = true
  | .string f, hp => h f hp
  | .table items, hp => anyOf_mono h items hp

theorem anyOf_mono {p q : ComponentFilter → Bool} (h : ∀ f, p f = true → q f = true) :
    ∀ items : List FilterTree, anyOf p items = true → anyOf q items = true
  | [], hp => hp
  | item :: items, hp => by
      rw [anyOf, Bool.or_eq_true] at hp ⊢
      exact hp.imp (any_mono h item) (anyOf_mono h items)

end

end FilterTree

/-- The pattern of a plain filter lets a build id through when each component accepts its name. -/
def ComponentFilter.accepts (names : List (List UInt8)) (f : ComponentFilter) : Bool :=
  decide (List.Forall₂ (fun c w => FilterComponent.accepts c w = true) f.full names)

theorem configMatches_string {names : List (List UInt8)} (hlen : names.length = 4) {f : ComponentFilter}
    (hplain : f.plain = true) (cache : PatternCache) :
    (configMatches (joinDashes names) (.string f.text) cache).1 = .ok (f.accepts names) := by
  obtain ⟨c, cs, hfull⟩ : ∃ c cs, f.full = c :: cs := by
    cases hfull : f.full with
    | nil => exact absurd f.full_length (by simp [hfull])
    | cons c cs => exact ⟨c, cs, rfl⟩
  have hwell := hfull ▸ f.full_wellFormed
  have hall := hfull ▸ f.full_plain hplain
  have hsame : (c :: cs).length = names.length := by rw [hlen, ← hfull, f.full_length]
  have hmatch := strMatch_components hwell hall hsame
  have hcached : (getCachedPattern f.text cache).1 = .ok (94 :: (c.pattern ++ patternRest cs)) := by
    rw [getCachedPattern_fst, filterPattern_text hplain hfull]
  rw [configMatches, ComponentFilter.accepts, hfull]
  rcases hget : getCachedPattern f.text cache with ⟨result, cache'⟩
  rw [hget] at hcached
  obtain rfl : result = .ok (94 :: (c.pattern ++ patternRest cs)) := hcached
  cases hfound : strMatch (joinDashes names) (94 :: (c.pattern ++ patternRest cs)) with
  | error err =>
      rw [hfound] at hmatch
      cases hmatch
  | ok found =>
      rw [hfound] at hmatch
      have hsome : found.isSome = decide (List.Forall₂ (fun c w => c.accepts w = true) (c :: cs) names) :=
        Except.ok.inj hmatch
      simp only [hfound, hsome]

mutual

/-- A filter lets a build id through when some string of it does. -/
theorem configMatches_any {names : List (List UInt8)} (hlen : names.length = 4) :
    ∀ (filter : FilterTree) (cache : PatternCache),
    filter.any (!·.plain) = false → (configMatches (joinDashes names) filter.toConfig cache).1 = .ok
    (filter.any (·.accepts names))
  | .string f, cache, hplain => by
      have hf : f.plain = true := by simpa [FilterTree.any] using hplain
      exact configMatches_string hlen hf cache
  | .table items, cache, hplain => configMatchesAny_any hlen items cache hplain

theorem configMatchesAny_any {names : List (List UInt8)} (hlen : names.length = 4) :
    ∀ (items : List FilterTree) (cache : PatternCache),
    FilterTree.anyOf (!·.plain) items = false →
      (configMatchesAny (joinDashes names) (FilterTree.toConfigAll items) cache).1 = .ok
      (FilterTree.anyOf (·.accepts names) items)
  | [], cache, hplain => rfl
  | item :: items, cache, hplain => by
      rw [FilterTree.anyOf, Bool.or_eq_false_iff] at hplain
      have hitem := configMatches_any hlen item cache hplain.1
      rw [FilterTree.toConfigAll, configMatchesAny, FilterTree.anyOf]
      rcases hget : configMatches (joinDashes names) item.toConfig cache with ⟨result, cache'⟩
      rw [hget] at hitem
      obtain rfl : result = .ok (item.any (·.accepts names)) := hitem
      cases hmatched : item.any (·.accepts names) with
      | true => rfl
      | false => exact configMatchesAny_any hlen items cache' hplain.2

end

/-! ### What the filter says -/

theorem FilterComponent.accepts_any {c : FilterComponent} {w : List UInt8} (hw : isWords w = true) :
    c.accepts w = c.agrees w := by
  cases c with
  | any => exact hw
  | name literal => rfl

theorem FilterComponent.accepts_eq (c : FilterComponent) (w : List UInt8) :
    c.accepts w = (c.agrees w && (c ≠ .any || isWords w)) := by
  cases c with
  | any => simp [accepts, agrees]
  | name literal => simp [accepts, agrees]

theorem all_agrees_replicate (cs : List FilterComponent) (k : Nat) (names : List (List UInt8)) :
    ((cs ++ List.replicate k FilterComponent.any).zip names).all (fun entry => entry.1.agrees entry.2) =
      (cs.zip names).all fun entry => entry.1.agrees entry.2 := by
  induction cs generalizing names with
  | nil =>
      rw [List.nil_append, List.zip_nil_left, List.all_nil, List.all_eq_true]
      intro entry hentry
      rw [List.eq_of_mem_replicate (List.of_mem_zip hentry).1]
      rfl
  | cons c cs ih =>
      cases names with
      | nil => rfl
      | cons n names => simp only [List.cons_append, List.zip_cons_cons, List.all_cons, ih]

/-- For a config that is let through, a filter accepts the names it agrees with whose open ones are words. -/
theorem ComponentFilter.accepts_eq (f : ComponentFilter) {platform toolset : List UInt8}
    (hplatform : isWords platform = true) (htoolset : isWords toolset = true) (variant subvariant : List UInt8) :
    f.accepts [platform, toolset, variant, subvariant] =
      (f.agrees [platform, toolset, variant, subvariant] && f.opensWords variant subvariant) := by
  have hagrees : f.agrees [platform, toolset, variant, subvariant] =
      (f.full.zip [platform, toolset, variant, subvariant]).all fun entry => entry.1.agrees entry.2 :=
    (all_agrees_replicate f.components _ _).symm
  have hlen := f.full_length
  rw [accepts, hagrees, opensWords]
  obtain ⟨c₁, c₂, c₃, c₄, hfull⟩ : ∃ c₁ c₂ c₃ c₄, f.full = [c₁, c₂, c₃, c₄] := by
    match f.full, hlen with
    | [c₁, c₂, c₃, c₄], _ => exact ⟨c₁, c₂, c₃, c₄, rfl⟩
  rw [hfull]
  simp [FilterComponent.accepts_any hplatform, FilterComponent.accepts_any htoolset,
    FilterComponent.accepts_eq _ variant,
    FilterComponent.accepts_eq _ subvariant]
  ac_rfl

/-- Whether `config_matches` does what a filter of plain names says, whatever is in the cache. -/
theorem configMatches_iff {config platform toolset : List UInt8} (haccepted : configNameMatches config = .ok true)
    (hconfig : config = platform ++ 45 :: toolset) (variant subvariant : List UInt8) (filter : FilterTree)
    (hplain : filter.any (!·.plain) = false) (cache : PatternCache) :
    (((configMatches (tupleBuildId config variant subvariant) filter.toConfig cache).1 = .ok true ↔
        filter.any (·.agrees [platform, toolset, variant, subvariant]) = true) ↔
      (filter.any (·.agrees [platform, toolset, variant, subvariant]) = true →
        filter.any (fun f => f.agrees [platform, toolset, variant, subvariant] && f.opensWords variant subvariant) = true)) := by
  subst hconfig
  obtain ⟨hplatform, htoolset⟩ := configName_words haccepted
  have hid : tupleBuildId (platform ++ 45 :: toolset) variant subvariant =
    joinDashes [platform, toolset, variant, subvariant] := by
    simp [tupleBuildId, joinDashes]
  have hlen : [platform, toolset, variant, subvariant].length = 4 := rfl
  have haccepts : (fun f : ComponentFilter => f.accepts [platform, toolset, variant, subvariant]) =
      fun f => f.agrees [platform, toolset, variant, subvariant] && f.opensWords variant subvariant := by
    funext f
    exact f.accepts_eq hplatform htoolset variant subvariant
  rw [hid, configMatches_any hlen filter cache hplain, haccepts, Except.ok.injEq]
  refine ⟨fun h => h.mpr, fun h => ⟨FilterTree.any_mono (fun f hf => ?_) filter, h⟩⟩
  exact (Bool.and_eq_true _ _ ▸ hf).1

/-! ### Names that are no words, and dots -/

/-- `linux-*`. -/
def linuxComponents : List FilterComponent := [.name (lit "linux"), .any]

theorem linuxComponents_some : linuxComponents ≠ [] := by decide
theorem linuxComponents_atMost : linuxComponents.length ≤ 4 := by decide
theorem linuxComponents_wellFormed : ∀ c ∈ linuxComponents, c.wellFormed = true := by decide

def linuxFilter :
    ComponentFilter := ⟨linuxComponents, linuxComponents_some, linuxComponents_atMost, linuxComponents_wellFormed⟩

/-- `*-*-x.y`. -/
def dottedComponents : List FilterComponent := [.any, .any, .name (lit "x.y")]

theorem dottedComponents_some : dottedComponents ≠ [] := by decide
theorem dottedComponents_atMost : dottedComponents.length ≤ 4 := by decide
theorem dottedComponents_wellFormed : ∀ c ∈ dottedComponents, c.wellFormed = true := by decide

def dottedFilter :
    ComponentFilter := ⟨dottedComponents, dottedComponents_some, dottedComponents_atMost, dottedComponents_wellFormed⟩

/-- `*-msvc-release`. -/
def msvcComponents : List FilterComponent := [.any, .name (lit "msvc"), .name (lit "release")]

theorem msvcComponents_some : msvcComponents ≠ [] := by decide
theorem msvcComponents_atMost : msvcComponents.length ≤ 4 := by decide
theorem msvcComponents_wellFormed : ∀ c ∈ msvcComponents, c.wellFormed = true := by decide

def msvcFilter :
    ComponentFilter := ⟨msvcComponents, msvcComponents_some, msvcComponents_atMost, msvcComponents_wellFormed⟩

/-- `{ "*-msvc-release", { "linux-*" } }`. -/
def nestedFilter : FilterTree := .table [.string msvcFilter, .table [.string linuxFilter]]

/-- The cache after a match with another build. -/
def warmCache : PatternCache :=
    (configMatches (tupleBuildId (lit "win32-msvc") (lit "release") (lit "default")) nestedFilter.toConfig .empty).2

/-- The variant `debug`, which only the second filter agrees with. -/
theorem configMatches_iff_debug : warmCache.entries.map Prod.fst = [lit "*-msvc-release"] ∧
    (configMatches (tupleBuildId (lit "linux-gcc") (lit "debug") (lit "default")) nestedFilter.toConfig warmCache).1 =
    .ok true ∧
    (configMatches (tupleBuildId (lit "macosx-clang") (lit "debug") (lit "default")) nestedFilter.toConfig
    warmCache).1 ≠ .ok true := by
  have hlinux := @configMatches_iff (lit "linux-gcc") (lit "linux") (lit "gcc") (by decide +kernel) (by decide)
    (lit "debug") (lit "default")
    nestedFilter (by decide) warmCache
  have hmacosx := @configMatches_iff (lit "macosx-clang") (lit "macosx") (lit "clang") (by decide +kernel) (by decide)
    (lit "debug")
    (lit "default") nestedFilter (by decide) warmCache
  refine ⟨by decide +kernel, (hlinux.mpr (by decide)).mpr (by decide), fun hmatches => ?_⟩
  exact absurd ((hmacosx.mpr (by decide)).mp hmatches) (by decide)

/-- The filter `linux-*` does not let the variant `rel.1` through, and the filter `*-*-x.y` lets the variant
`xzy` through. -/
theorem configMatches_names :
    ¬((configMatches (tupleBuildId (lit "linux-gcc") (lit "rel.1") (lit "default"))
    (FilterTree.string linuxFilter).toConfig .empty).1 = .ok true ↔
      (FilterTree.string linuxFilter).any (·.agrees [lit "linux", lit "gcc", lit "rel.1", lit "default"]) = true) ∧
    ¬((configMatches (tupleBuildId (lit "linux-gcc") (lit "xzy") (lit "default"))
    (FilterTree.string dottedFilter).toConfig .empty).1 = .ok true ↔
      (FilterTree.string dottedFilter).any (·.agrees [lit "linux", lit "gcc", lit "xzy", lit "default"]) = true) := by
  decide +kernel

end Tundra.Lua
