import Tundra.Json.Parser
import Mathlib.Data.List.Chain

/-!
# What the JSON parser accepts

The grammar of JSON documents over the lexemes, and that `JsonParse` accepts it. It accepts a little more: an
object may have a comma behind its last member. `jsonParse_eq_ok_iff` is about the grammar with these commas,
and `jsonParse_exact` says that they are the only difference.
-/

namespace Tundra

open JsonLexerState

/-- The nonterminals of the grammar, with the trees they stand for. -/
inductive JsonSymbol where
  | value (v : JsonValue)
  | members (kvPairs : JsonObject)
  | elements (values : List JsonValue)

/-- The grammar. The flag allows a comma behind the last member of an object. -/
inductive Derives (trailing : Bool) : JsonSymbol → List JsonLexeme → Prop
  | string (s : CString) : Derives trailing (.value (.string s)) [.string s]
  | number (n : Rat) : Derives trailing (.value (.number n)) [.number n]
  | boolean (b : Bool) : Derives trailing (.value (.boolean b)) [.boolean b]
  | null : Derives trailing (.value .null) [.null]
  | emptyObject : Derives trailing (.value (.object [])) [.beginObject, .endObject]
  | object {kvPairs : JsonObject} {ls : List JsonLexeme} (h : Derives trailing (.members kvPairs) ls) :
      Derives trailing (.value (.object kvPairs)) (.beginObject :: (ls ++ [.endObject]))
  | objectComma {kvPairs : JsonObject} {ls : List JsonLexeme} (htrailing : trailing = true)
      (h : Derives trailing (.members kvPairs) ls) :
      Derives trailing (.value (.object kvPairs)) (.beginObject :: (ls ++ [.valueSeparator, .endObject]))
  | emptyArray : Derives trailing (.value (.array [])) [.beginArray, .endArray]
  | array {values : List JsonValue} {ls : List JsonLexeme} (h : Derives trailing (.elements values) ls) :
      Derives trailing (.value (.array values)) (.beginArray :: (ls ++ [.endArray]))
  | member (key : CString) {v : JsonValue} {ls : List JsonLexeme} (h : Derives trailing (.value v) ls) :
      Derives trailing (.members [(key, v)]) (.string key :: .nameSeparator :: ls)
  | memberCons (key : CString) {v : JsonValue} {kvPairs : JsonObject} {ls ls' : List JsonLexeme}
      (h : Derives trailing (.value v) ls)
      (h' : Derives trailing (.members kvPairs) ls') :
      Derives trailing (.members ((key, v) :: kvPairs))
        (.string key :: .nameSeparator :: (ls ++ .valueSeparator :: ls'))
  | element {v : JsonValue} {ls : List JsonLexeme} (h : Derives trailing (.value v) ls) :
      Derives trailing (.elements [v]) ls
  | elementCons {v : JsonValue} {values : List JsonValue} {ls ls' : List JsonLexeme}
      (h : Derives trailing (.value v) ls)
      (h' : Derives trailing (.elements values) ls') : Derives trailing (.elements (v :: values))
        (ls ++ .valueSeparator :: ls')

variable {strtod : List UInt8 → Rat × Nat} {trailing : Bool} {lexer lexer' : JsonLexerState} {v : JsonValue}
  {l : JsonLexeme}
  {ls : List JsonLexeme} {fuel : Nat}

theorem Derives.ne_nil {symbol : JsonSymbol} (h : Derives trailing symbol ls) : ls ≠ [] := by
  induction h with
  | element h ih => exact ih
  | elementCons h h' ih ih' => simp
  | _ => simp

theorem pending_ne_nil (lexer : JsonLexerState) : ∃ l ls, lexer.pending strtod = l :: ls := by
  have hlexemes : ∀ cursor, ∃ l ls, lexemes strtod cursor = l :: ls := by
    intro cursor
    rw [lexemes_eq Prod.mk.eta.symm]
    split_ifs
    · exact ⟨_, _, rfl⟩
    · exact ⟨_, _, rfl⟩
  rw [pending]
  split
  · split_ifs
    · exact ⟨_, _, rfl⟩
    · exact ⟨_, _, rfl⟩
  · exact hlexemes _

/-! ### What is accepted is well formed -/

/-- The end of an object. -/
def Closes (ls : List JsonLexeme) : Prop := ls = [.endObject] ∨ ls = [.valueSeparator, .endObject]

/-- What the loop of `JsonParseObject` takes when it has not seen a value since the last comma: members, and the
end of the object. -/
def MembersThenClose (kvPairs : JsonObject) (ls : List JsonLexeme) : Prop :=
  (kvPairs = [] ∧ ls = [.endObject]) ∨ ∃ ls' close, Derives true (.members kvPairs) ls' ∧ Closes close ∧
    ls = ls' ++ close

/-- What the loop of `JsonParseObject` takes behind a value. -/
def CommaThenMembers (kvPairs : JsonObject) (ls : List JsonLexeme) : Prop :=
  (kvPairs = [] ∧ Closes ls) ∨ ∃ ls' close, Derives true (.members kvPairs) ls' ∧ Closes close ∧
    ls = .valueSeparator :: (ls' ++ close)

/-- What the loop of `JsonParseArray` takes, with a comma in front of it if there are values already. -/
def ElementsThenClose (values more : List JsonValue) (ls : List JsonLexeme) : Prop :=
  (more = [] ∧ ls = [.endArray]) ∨
    ∃ ls', Derives true (.elements more) ls' ∧
      ls = (if values.length > 0 then [.valueSeparator] else []) ++ (ls' ++ [.endArray])

/-- A lexeme that is taken and is not the last one. -/
theorem next_eq (h : (lexer.next strtod).1 = l) (hl : ¬l.Final) :
    lexer.pending strtod = l :: (lexer.next strtod).2.pending strtod := by
  obtain ⟨l', ls, hpending⟩ := @pending_ne_nil strtod lexer
  obtain ⟨hfirst, hrest⟩ := next_of_pending hpending
  rw [h] at hfirst
  subst hfirst
  rw [hpending, hrest hl]

/-- A lexeme that is looked at and taken then, and is not the last one. -/
theorem peek_eq (h : (lexer.peek strtod).1 = l) (hl : ¬l.Final) :
    lexer.pending strtod = l :: ((lexer.peek strtod).2.skip strtod).pending strtod ∧
    (lexer.peek strtod).2.pending strtod = lexer.pending strtod := by
  obtain ⟨l', ls, hpending⟩ := @pending_ne_nil strtod lexer
  obtain ⟨hfirst, hsame, hrest⟩ := peek_of_pending hpending
  rw [h] at hfirst
  subst hfirst
  rw [hpending, hrest hl]
  exact ⟨rfl, hsame⟩

theorem jsonParseObject_eq_ok (h : jsonParseObject strtod (fuel + 1) lexer = .ok v lexer') :
    ∃ mid, lexer.pending strtod = .beginObject :: mid.pending strtod ∧ objectLoop strtod fuel mid
    [] false false = .ok v lexer' := by
  rw [jsonParseObject] at h
  dsimp only at h
  split_ifs at h with hl
  · exact ⟨_, next_eq hl (by simp), h⟩
  · cases h

theorem jsonParseArray_eq_ok (h : jsonParseArray strtod (fuel + 1) lexer = .ok v lexer') :
    ∃ mid, lexer.pending strtod = .beginArray :: mid.pending strtod ∧ arrayLoop strtod fuel mid [] = .ok v lexer' := by
  rw [jsonParseArray] at h
  dsimp only at h
  split_ifs at h with hl
  · exact ⟨_, next_eq hl (by simp), h⟩
  · cases h

/-- How a turn of the loop of `JsonParseObject` goes when it does not fail. -/
theorem objectLoop_eq_ok {kvPairs : JsonObject} {seenValue seenComma : Bool}
    (h : objectLoop strtod (fuel + 1) lexer kvPairs seenValue seenComma = .ok v lexer') :
    (∃ key value before after, lexer.pending strtod = .string key :: .nameSeparator :: before.pending strtod ∧
      (seenValue = true → seenComma = true) ∧ jsonParseValue strtod fuel before = .ok value after ∧
      objectLoop strtod fuel after (kvPairs ++ [(key, value)]) true false = .ok v lexer') ∨
    (lexer.pending strtod = .endObject :: lexer'.pending strtod ∧ v = .object kvPairs) ∨
    ∃ mid, lexer.pending strtod = .valueSeparator :: mid.pending strtod ∧ seenValue = true ∧
      objectLoop strtod fuel mid kvPairs false true = .ok v lexer' := by
  rw [objectLoop] at h
  dsimp only at h
  split at h
  · next key hkey =>
    split_ifs at h with hcomma hcolon
    · cases h
    · have hpending := next_eq hkey (by simp)
      rw [next_eq hcolon (by simp)] at hpending
      split at h
      · next value after hvalue =>
        exact .inl ⟨key, value, _, after, hpending, by simpa using hcomma, hvalue, h⟩
      · cases h
      · cases h
    · cases h
  · next hend =>
    have hpending := next_eq hend (by simp)
    cases h
    exact .inr (.inl ⟨hpending, rfl⟩)
  · next hcomma =>
    split_ifs at h with hvalue hseen
    · cases h
    · exact .inr (.inr ⟨_, next_eq hcomma (by simp), hvalue, h⟩)
    · cases h
  · cases h

/-- How a turn of the loop of `JsonParseArray` goes when it does not fail. -/
theorem arrayLoop_eq_ok {values : List JsonValue} (h : arrayLoop strtod (fuel + 1) lexer values = .ok v lexer') :
    (lexer.pending strtod = .endArray :: lexer'.pending strtod ∧ v = .array values) ∨
    ∃ value before after, lexer.pending strtod = (if values.length > 0 then [.valueSeparator] else []) ++
    before.pending strtod ∧
      jsonParseValue strtod fuel before = .ok value after ∧ arrayLoop strtod fuel after
      (values ++ [value]) = .ok v lexer' := by
  rw [arrayLoop] at h
  dsimp only at h
  split_ifs at h with hend hcomma hmore
  · have hpending := (peek_eq hend (by simp)).1
    cases h
    exact .inl ⟨hpending, rfl⟩
  · cases h
  · have hcomma' : (lexer.peek strtod).1 = .valueSeparator := by
      by_contra hne
      exact hcomma ⟨hmore, hne⟩
    have hpending := (peek_eq hcomma' (by simp)).1
    split at h
    · next value after hvalue =>
      exact .inr ⟨value, _, after, by rw [if_pos hmore]; exact hpending, hvalue, h⟩
    · cases h
    · cases h
  · split at h
    · next value after hvalue =>
      obtain ⟨l, ls, hpending⟩ := @pending_ne_nil strtod lexer
      have hsame := (peek_of_pending hpending).2.1
      exact .inr ⟨value, _, after, by rw [if_neg hmore, hpending, ← hsame]; rfl, hvalue, h⟩
    · cases h
    · cases h

theorem jsonParseValue_eq_ok (h : jsonParseValue strtod (fuel + 1) lexer = .ok v lexer') :
    (∃ l, lexer.pending strtod = l :: lexer'.pending strtod ∧ Derives true (.value v) [l]) ∨
    (∃ before, before.pending strtod = lexer.pending strtod ∧ jsonParseObject strtod fuel before = .ok v lexer') ∨
    ∃ before, before.pending strtod = lexer.pending strtod ∧ jsonParseArray strtod fuel before = .ok v lexer' := by
  rw [jsonParseValue] at h
  dsimp only at h
  split at h
  · next hl => exact .inr (.inl ⟨_, (peek_eq hl (by simp)).2, h⟩)
  · next hl => exact .inr (.inr ⟨_, (peek_eq hl (by simp)).2, h⟩)
  · next s hl =>
    have hpending := (peek_eq hl (by simp)).1
    cases h
    exact .inl ⟨_, hpending, .string s⟩
  · next n hl =>
    have hpending := (peek_eq hl (by simp)).1
    cases h
    exact .inl ⟨_, hpending, .number n⟩
  · next b hl =>
    have hpending := (peek_eq hl (by simp)).1
    cases h
    exact .inl ⟨_, hpending, .boolean b⟩
  · next hl =>
    have hpending := (peek_eq hl (by simp)).1
    cases h
    exact .inl ⟨_, hpending, .null⟩
  · cases h

theorem MembersThenClose.value {kvPairs : JsonObject} (h : MembersThenClose kvPairs ls) :
    Derives true (.value (.object kvPairs)) (.beginObject :: ls) := by
  rcases h with ⟨rfl, rfl⟩ | ⟨ls', close, hmembers, rfl | rfl, rfl⟩
  · exact .emptyObject
  · exact .object hmembers
  · exact .objectComma rfl hmembers

theorem CommaThenMembers.cons {kvPairs : JsonObject} {ls' : List JsonLexeme} (h : CommaThenMembers kvPairs ls')
    (key : CString) (hvalue : Derives true (.value v) ls) :
    MembersThenClose ((key, v) :: kvPairs) (.string key :: .nameSeparator :: (ls ++ ls')) := by
  rcases h with ⟨rfl, hclose⟩ | ⟨ls'', close, hmembers, hclose, rfl⟩
  · exact .inr ⟨_, ls', .member key hvalue, hclose, rfl⟩
  · exact .inr ⟨_, close, .memberCons key hvalue hmembers, hclose, by simp⟩

theorem MembersThenClose.comma {kvPairs : JsonObject} (h : MembersThenClose kvPairs ls) :
    CommaThenMembers kvPairs (.valueSeparator :: ls) := by
  rcases h with ⟨rfl, rfl⟩ | ⟨ls', close, hmembers, hclose, rfl⟩
  · exact .inl ⟨rfl, .inr rfl⟩
  · exact .inr ⟨ls', close, hmembers, hclose, rfl⟩

theorem ElementsThenClose.cons {values more : List JsonValue} {ls' : List JsonLexeme}
    (h : ElementsThenClose (values ++ [v]) more ls') (hvalue : Derives true (.value v) ls) :
    ElementsThenClose values (v :: more) ((if values.length > 0 then [.valueSeparator] else []) ++ (ls ++ ls')) := by
  rcases h with ⟨rfl, rfl⟩ | ⟨ls'', helements, rfl⟩
  · exact .inr ⟨ls, .element hvalue, rfl⟩
  · exact .inr ⟨_, .elementCons hvalue helements, by simp⟩

/-- What the functions of the parser accept with this much fuel is well formed. -/
structure AcceptsWellFormed (strtod : List UInt8 → Rat × Nat) (fuel : Nat) : Prop where
  value : ∀ lexer v lexer', jsonParseValue strtod fuel lexer = .ok v lexer' →
    ∃ ls, lexer.pending strtod = ls ++ lexer'.pending strtod ∧ Derives true (.value v) ls
  object : ∀ lexer v lexer', jsonParseObject strtod fuel lexer = .ok v lexer' →
    ∃ ls, lexer.pending strtod = ls ++ lexer'.pending strtod ∧ Derives true (.value v) ls
  array : ∀ lexer v lexer', jsonParseArray strtod fuel lexer = .ok v lexer' →
    ∃ ls, lexer.pending strtod = ls ++ lexer'.pending strtod ∧ Derives true (.value v) ls
  members : ∀ lexer kvPairs seenComma v lexer', objectLoop strtod fuel lexer kvPairs false seenComma = .ok v lexer' →
    ∃ more ls, v = .object (kvPairs ++ more) ∧ lexer.pending strtod = ls ++ lexer'.pending strtod ∧
      MembersThenClose more ls
  comma : ∀ lexer kvPairs v lexer', objectLoop strtod fuel lexer kvPairs true false = .ok v lexer' →
    ∃ more ls, v = .object (kvPairs ++ more) ∧ lexer.pending strtod = ls ++ lexer'.pending strtod ∧
      CommaThenMembers more ls
  elements : ∀ lexer values v lexer', arrayLoop strtod fuel lexer values = .ok v lexer' →
    ∃ more ls, v = .array (values ++ more) ∧ lexer.pending strtod = ls ++ lexer'.pending strtod ∧
      ElementsThenClose values more ls

theorem acceptsWellFormed (strtod : List UInt8 → Rat × Nat) (fuel : Nat) : AcceptsWellFormed strtod fuel := by
  induction fuel with
  | zero => constructor <;> intros <;> contradiction
  | succ fuel ih =>
      constructor
      · intro lexer v lexer' h
        rcases jsonParseValue_eq_ok h with ⟨l, hpending, hl⟩ | ⟨before, hsame, h⟩ | ⟨before, hsame, h⟩
        · exact ⟨[l], hpending, hl⟩
        · rw [← hsame]
          exact ih.object before v lexer' h
        · rw [← hsame]
          exact ih.array before v lexer' h
      · intro lexer v lexer' h
        obtain ⟨mid, hpending, h⟩ := jsonParseObject_eq_ok h
        obtain ⟨more, ls, rfl, hmid, hmembers⟩ := ih.members mid [] false v lexer' h
        exact ⟨_, by rw [hpending, hmid]; rfl, hmembers.value⟩
      · intro lexer v lexer' h
        obtain ⟨mid, hpending, h⟩ := jsonParseArray_eq_ok h
        obtain ⟨more, ls, rfl, hmid, helements⟩ := ih.elements mid [] v lexer' h
        refine ⟨.beginArray :: ls, by rw [hpending, hmid]; rfl, ?_⟩
        rcases helements with ⟨rfl, rfl⟩ | ⟨ls', helements, rfl⟩
        · exact .emptyArray
        · exact .array helements
      · intro lexer kvPairs seenComma v lexer' h
        rcases objectLoop_eq_ok h with ⟨key, value, before, after, hpending, -, hvalue, h⟩ | ⟨hpending, rfl⟩ |
          ⟨mid, -, hseen, -⟩
        · obtain ⟨ls, hbefore, hls⟩ := ih.value before value after hvalue
          obtain ⟨more, ls', rfl, hafter, hmore⟩ := ih.comma after _ v lexer' h
          refine ⟨(key, value) :: more, _, by simp, ?_, hmore.cons key hls⟩
          rw [hpending, hbefore, hafter]
          simp
        · exact ⟨[], [.endObject], by simp, hpending, .inl ⟨rfl, rfl⟩⟩
        · cases hseen
      · intro lexer kvPairs v lexer' h
        rcases objectLoop_eq_ok h with ⟨key, value, before, after, -, hseen, -⟩ | ⟨hpending, rfl⟩ |
          ⟨mid, hpending, -, h⟩
        · cases hseen rfl
        · exact ⟨[], [.endObject], by simp, hpending, .inl ⟨rfl, .inl rfl⟩⟩
        · obtain ⟨more, ls, rfl, hmid, hmore⟩ := ih.members mid kvPairs true v lexer' h
          exact ⟨more, _, rfl, by rw [hpending, hmid]; rfl, hmore.comma⟩
      · intro lexer values v lexer' h
        rcases arrayLoop_eq_ok h with ⟨hpending, rfl⟩ | ⟨value, before, after, hpending, hvalue, h⟩
        · exact ⟨[], [.endArray], by simp, hpending, .inl ⟨rfl, rfl⟩⟩
        · obtain ⟨ls, hbefore, hls⟩ := ih.value before value after hvalue
          obtain ⟨more, ls', rfl, hafter, hmore⟩ := ih.elements after _ v lexer' h
          refine ⟨value :: more, _, by simp, ?_, hmore.cons hls⟩
          rw [hpending, hbefore, hafter]
          simp

/-! ### There is always enough fuel -/

/-- With this much fuel the functions of the parser do not run out of it, if there are few enough lexemes. -/
structure FuelSuffices (strtod : List UInt8 → Rat × Nat) (fuel : Nat) : Prop where
  value : ∀ lexer : JsonLexerState, 3 * (lexer.pending strtod).length ≤ fuel →
    jsonParseValue strtod fuel lexer ≠ .outOfFuel
  object : ∀ lexer : JsonLexerState, 3 * (lexer.pending strtod).length ≤ fuel + 1 →
    jsonParseObject strtod fuel lexer ≠ .outOfFuel
  array : ∀ lexer : JsonLexerState, 3 * (lexer.pending strtod).length ≤ fuel + 1 →
    jsonParseArray strtod fuel lexer ≠ .outOfFuel
  members : ∀ (lexer : JsonLexerState) kvPairs seenValue seenComma, 3 * (lexer.pending strtod).length + 1 ≤ fuel →
    objectLoop strtod fuel lexer kvPairs seenValue seenComma ≠ .outOfFuel
  elements : ∀ (lexer : JsonLexerState) values, 3 * (lexer.pending strtod).length + 1 ≤ fuel →
    arrayLoop strtod fuel lexer values ≠ .outOfFuel

theorem length_pending_pos (lexer : JsonLexerState) : 0 < (lexer.pending strtod).length := by
  obtain ⟨l, ls, hpending⟩ := @pending_ne_nil strtod lexer
  rw [hpending]
  exact Nat.succ_pos _

theorem length_pending_next (h : (lexer.next strtod).1 = l) (hl : ¬l.Final) :
    (lexer.pending strtod).length = ((lexer.next strtod).2.pending strtod).length + 1 := by
  rw [next_eq h hl, List.length_cons]

theorem length_pending_value (h : jsonParseValue strtod fuel lexer = .ok v lexer') :
    (lexer'.pending strtod).length < (lexer.pending strtod).length := by
  obtain ⟨ls, hpending, hls⟩ := (acceptsWellFormed strtod fuel).value lexer v lexer' h
  have hpos := List.length_pos_iff.mpr hls.ne_nil
  rw [hpending, List.length_append]
  omega

theorem length_pending_peek (lexer : JsonLexerState) :
    ((lexer.peek strtod).2.pending strtod).length = (lexer.pending strtod).length := by
  obtain ⟨l, ls, hpending⟩ := @pending_ne_nil strtod lexer
  rw [(peek_of_pending hpending).2.1, hpending]

theorem fuelSuffices (strtod : List UInt8 → Rat × Nat) (fuel : Nat) : FuelSuffices strtod fuel := by
  induction fuel with
  | zero =>
      constructor
      · intro lexer hfuel
        have hpos := @length_pending_pos strtod lexer
        omega
      · intro lexer hfuel
        have hpos := @length_pending_pos strtod lexer
        omega
      · intro lexer hfuel
        have hpos := @length_pending_pos strtod lexer
        omega
      · intro lexer _ _ _ hfuel
        omega
      · intro lexer _ hfuel
        omega
  | succ fuel ih =>
      constructor
      · intro lexer hfuel
        rw [jsonParseValue]
        dsimp only
        split
        · exact ih.object _ (by rwa [length_pending_peek])
        · exact ih.array _ (by rwa [length_pending_peek])
        all_goals simp [jsonError]
      · intro lexer hfuel
        rw [jsonParseObject]
        dsimp only
        split_ifs with hl
        · have hlength := length_pending_next hl (by simp)
          exact ih.members _ _ _ _ (by omega)
        · simp [jsonError]
      · intro lexer hfuel
        rw [jsonParseArray]
        dsimp only
        split_ifs with hl
        · have hlength := length_pending_next hl (by simp)
          exact ih.elements _ _ (by omega)
        · simp [jsonError]
      · intro lexer kvPairs seenValue seenComma hfuel
        rw [objectLoop]
        dsimp only
        split
        · next key hkey =>
          have hlength := length_pending_next hkey (by simp)
          split_ifs with hcomma hcolon
          · simp [jsonError]
          · have hlength' := length_pending_next hcolon (by simp)
            split
            · next value after hvalue =>
              have hshort := length_pending_value hvalue
              exact ih.members _ _ _ _ (by omega)
            · simp
            · next hout => exact absurd hout (ih.value _ (by omega))
          · simp [jsonError]
        · simp
        · next hcomma =>
          have hlength := length_pending_next hcomma (by simp)
          split_ifs
          · simp [jsonError]
          · exact ih.members _ _ _ _ (by omega)
          · simp [jsonError]
        · simp [jsonError]
      · intro lexer values hfuel
        rw [arrayLoop]
        dsimp only
        split_ifs with hend hcomma hmore
        · simp
        · simp [jsonError]
        · have hcomma' : (lexer.peek strtod).1 = .valueSeparator := by
            by_contra hne
            exact hcomma ⟨hmore, hne⟩
          have hlength := congrArg List.length (peek_eq hcomma' (by simp)).1
          rw [List.length_cons] at hlength
          split
          · next value after hvalue =>
            have hshort := length_pending_value hvalue
            exact ih.elements _ _ (by omega)
          · simp
          · next hout => exact absurd hout (ih.value _ (by omega))
        · have hlength := @length_pending_peek strtod lexer
          split
          · next value after hvalue =>
            have hshort := length_pending_value hvalue
            exact ih.elements _ _ (by omega)
          · simp
          · next hout => exact absurd hout (ih.value _ (by omega))

/-! ### What is well formed is accepted -/

theorem objectLoop_member {kvPairs : JsonObject} {seenComma : Bool} {key : CString} (fuel : Nat)
    (h : lexer.pending strtod = .string key :: .nameSeparator :: ls) :
    ∃ before : JsonLexerState, before.pending strtod = ls ∧
    ∀ value after, jsonParseValue strtod fuel before = .ok value after →
      objectLoop strtod (fuel + 1) lexer kvPairs false seenComma = objectLoop strtod fuel after
      (kvPairs ++ [(key, value)]) true false := by
  obtain ⟨hkey, hrest⟩ := next_of_pending h
  obtain ⟨hcolon, hrest'⟩ := next_of_pending (hrest (by simp))
  refine ⟨_, hrest' (by simp), fun value after hvalue => ?_⟩
  rw [objectLoop]
  simp only [hkey, hcolon, hvalue, if_true, Bool.false_eq_true, false_and, if_false]

theorem objectLoop_endObject {kvPairs : JsonObject} {seenValue seenComma : Bool} (fuel : Nat)
    (h : lexer.pending strtod = .endObject :: ls) :
    ∃ after : JsonLexerState, after.pending strtod = ls ∧ objectLoop strtod
    (fuel + 1) lexer kvPairs seenValue seenComma = .ok (.object kvPairs) after := by
  obtain ⟨hend, hrest⟩ := next_of_pending h
  refine ⟨_, hrest (by simp), ?_⟩
  rw [objectLoop]
  simp only [hend]

theorem objectLoop_comma {kvPairs : JsonObject} (fuel : Nat) (h : lexer.pending strtod = .valueSeparator :: ls) :
    ∃ after : JsonLexerState, after.pending strtod = ls ∧
      objectLoop strtod (fuel + 1) lexer kvPairs true false = objectLoop strtod fuel after kvPairs false true := by
  obtain ⟨hcomma, hrest⟩ := next_of_pending h
  refine ⟨_, hrest (by simp), ?_⟩
  rw [objectLoop]
  simp [hcomma]

theorem objectLoop_closes {kvPairs : JsonObject} {close : List JsonLexeme} (hclose : Closes close) (fuel : Nat)
    (h : lexer.pending strtod = close ++ ls) : ∃ after : JsonLexerState, after.pending strtod = ls ∧
      objectLoop strtod (fuel + 2) lexer kvPairs true false = .ok (.object kvPairs) after := by
  rcases hclose with rfl | rfl
  · exact objectLoop_endObject _ h
  · obtain ⟨mid, hmid, hcomma⟩ := @objectLoop_comma strtod lexer _ kvPairs (fuel + 1) h
    rw [hcomma]
    exact objectLoop_endObject _ hmid

theorem arrayLoop_endArray {values : List JsonValue} (fuel : Nat) (h : lexer.pending strtod = .endArray :: ls) :
    ∃ after : JsonLexerState, after.pending strtod = ls ∧ arrayLoop strtod (fuel + 1) lexer values = .ok
    (.array values) after := by
  obtain ⟨hend, -, hrest⟩ := peek_of_pending h
  refine ⟨_, hrest (by simp), ?_⟩
  rw [arrayLoop]
  simp only [hend, if_true]

theorem arrayLoop_element {values : List JsonValue} (fuel : Nat) (hl : l ≠ .endArray)
    (h : lexer.pending strtod = (if values.length > 0 then [.valueSeparator] else []) ++ l :: ls) :
    ∃ before : JsonLexerState, before.pending strtod = l :: ls ∧
    ∀ value after, jsonParseValue strtod fuel before = .ok value after →
      arrayLoop strtod (fuel + 1) lexer values = arrayLoop strtod fuel after (values ++ [value]) := by
  by_cases hmore : values.length > 0
  · rw [if_pos hmore, List.singleton_append] at h
    obtain ⟨hcomma, -, hrest⟩ := peek_of_pending h
    refine ⟨_, hrest (by simp), fun value after hvalue => ?_⟩
    rw [arrayLoop]
    simp only [hcomma, hvalue, if_pos hmore, reduceCtorEq, if_false, ne_eq, not_true_eq_false, and_false]
  · rw [if_neg hmore, List.nil_append] at h
    obtain ⟨hfirst, hsame, -⟩ := peek_of_pending h
    refine ⟨_, hsame, fun value after hvalue => ?_⟩
    rw [arrayLoop]
    simp only [hfirst, hvalue, hmore, if_neg hl, false_and, if_false]

/-- A value does not begin with the end of an array or of an object. -/
theorem Derives.value_cons (h : Derives trailing (.value v) ls) :
    ∃ l ls', ls = l :: ls' ∧ l ≠ .endArray ∧ l ≠ .endObject := by
  cases h with
  | _ => exact ⟨_, _, rfl, by simp, by simp⟩

/-- What it is to accept what a nonterminal stands for: the lexemes are taken, and the tree is the result. -/
def Accepts (strtod : List UInt8 → Rat × Nat) : JsonSymbol → List JsonLexeme → Prop
  | .value v, ls => ∀ (fuel : Nat) (lexer : JsonLexerState) (rest : List JsonLexeme), lexer.pending strtod = ls ++
  rest → 3 * ls.length ≤ fuel →
      ∃ after : JsonLexerState, after.pending strtod = rest ∧ jsonParseValue strtod fuel lexer = .ok v after
  | .members more, ls =>
      ∀ (fuel : Nat) (lexer : JsonLexerState) (close rest : List JsonLexeme) (kvPairs : JsonObject) (seenComma : Bool),
      Closes close → lexer.pending strtod = ls ++ (close ++ rest) → 3 * (ls.length + close.length) + 1 ≤ fuel →
      ∃ after : JsonLexerState, after.pending strtod = rest ∧
        objectLoop strtod fuel lexer kvPairs false seenComma = .ok (.object (kvPairs ++ more)) after
  | .elements more, ls => ∀ (fuel : Nat) (lexer : JsonLexerState) (rest : List JsonLexeme) (values : List JsonValue),
      lexer.pending strtod = (if values.length > 0 then [.valueSeparator] else []) ++ (ls ++ .endArray :: rest) →
        3 * (ls.length + 1) + 1 ≤ fuel →
      ∃ after : JsonLexerState, after.pending strtod = rest ∧
        arrayLoop strtod fuel lexer values = .ok (.array (values ++ more)) after

theorem accepts_lexeme (hl : ¬l.Final)
    (hvalue : ∀ (fuel : Nat) (lexer : JsonLexerState), (lexer.peek strtod).1 = l →
    jsonParseValue strtod (fuel + 1) lexer = .ok v ((lexer.peek strtod).2.skip strtod)) :
    Accepts strtod (.value v) [l] := by
  intro fuel lexer rest hpending hfuel
  obtain ⟨fuel, rfl⟩ : ∃ k, fuel = k + 1 := ⟨fuel - 1, by simp at hfuel; omega⟩
  obtain ⟨hfirst, -, hrest⟩ := peek_of_pending hpending
  exact ⟨_, hrest hl, hvalue fuel lexer hfirst⟩

theorem accepts_object {kvPairs : JsonObject}
    (h : ∀ (fuel : Nat) (lexer : JsonLexerState) (rest : List JsonLexeme), lexer.pending strtod = ls ++ rest →
    3 * ls.length + 1 ≤ fuel → ∃ after : JsonLexerState, after.pending strtod = rest ∧ objectLoop strtod fuel lexer [] false false = .ok (.object kvPairs) after) :
    Accepts strtod (.value (.object kvPairs)) (.beginObject :: ls) := by
  intro fuel lexer rest hpending hfuel
  rw [List.length_cons] at hfuel
  obtain ⟨fuel, rfl⟩ : ∃ k, fuel = k + 2 := ⟨fuel - 2, by omega⟩
  obtain ⟨hfirst, hsame, -⟩ := peek_of_pending hpending
  obtain ⟨hbegin, hrest⟩ := next_of_pending hsame
  obtain ⟨after, hafter, hloop⟩ := h fuel _ rest (hrest (by simp)) (by omega)
  refine ⟨after, hafter, ?_⟩
  rw [jsonParseValue]
  simp only [hfirst]
  rw [jsonParseObject]
  simp only [hbegin, if_true, hloop]

theorem accepts_array {values : List JsonValue}
    (h : ∀ (fuel : Nat) (lexer : JsonLexerState) (rest : List JsonLexeme), lexer.pending strtod = ls ++ rest →
    3 * ls.length + 1 ≤ fuel → ∃ after : JsonLexerState, after.pending strtod = rest ∧ arrayLoop strtod fuel lexer [] = .ok (.array values) after) :
    Accepts strtod (.value (.array values)) (.beginArray :: ls) := by
  intro fuel lexer rest hpending hfuel
  rw [List.length_cons] at hfuel
  obtain ⟨fuel, rfl⟩ : ∃ k, fuel = k + 2 := ⟨fuel - 2, by omega⟩
  obtain ⟨hfirst, hsame, -⟩ := peek_of_pending hpending
  obtain ⟨hbegin, hrest⟩ := next_of_pending hsame
  obtain ⟨after, hafter, hloop⟩ := h fuel _ rest (hrest (by simp)) (by omega)
  refine ⟨after, hafter, ?_⟩
  rw [jsonParseValue]
  simp only [hfirst]
  rw [jsonParseArray]
  simp only [hbegin, if_true, hloop]

theorem Derives.accepts (strtod : List UInt8 → Rat × Nat) {symbol : JsonSymbol} (h : Derives trailing symbol ls) :
    Accepts strtod symbol ls := by
  induction h with
  | string s =>
      refine accepts_lexeme (by simp) fun fuel lexer hl => ?_
      rw [jsonParseValue]
      simp only [hl]
  | number n =>
      refine accepts_lexeme (by simp) fun fuel lexer hl => ?_
      rw [jsonParseValue]
      simp only [hl]
  | boolean b =>
      refine accepts_lexeme (by simp) fun fuel lexer hl => ?_
      rw [jsonParseValue]
      simp only [hl]
  | null =>
      refine accepts_lexeme (by simp) fun fuel lexer hl => ?_
      rw [jsonParseValue]
      simp only [hl]
  | emptyObject =>
      refine accepts_object fun fuel lexer rest hpending hfuel => ?_
      obtain ⟨fuel, rfl⟩ : ∃ k, fuel = k + 1 := ⟨fuel - 1, by omega⟩
      exact objectLoop_endObject fuel hpending
  | @object kvPairs ls h ih =>
      refine accepts_object fun fuel lexer rest hpending hfuel => ?_
      rw [List.append_assoc] at hpending
      rw [List.length_append] at hfuel
      exact ih fuel lexer _ rest [] false (.inl rfl) hpending hfuel
  | @objectComma kvPairs ls htrailing h ih =>
      refine accepts_object fun fuel lexer rest hpending hfuel => ?_
      rw [List.append_assoc] at hpending
      rw [List.length_append] at hfuel
      exact ih fuel lexer _ rest [] false (.inr rfl) hpending hfuel
  | emptyArray =>
      refine accepts_array fun fuel lexer rest hpending hfuel => ?_
      obtain ⟨fuel, rfl⟩ : ∃ k, fuel = k + 1 := ⟨fuel - 1, by omega⟩
      exact arrayLoop_endArray fuel hpending
  | @array values ls h ih =>
      refine accepts_array fun fuel lexer rest hpending hfuel => ?_
      rw [List.append_assoc] at hpending
      rw [List.length_append] at hfuel
      exact ih fuel lexer rest [] hpending hfuel
  | @member key v ls h ih =>
      intro fuel lexer close rest kvPairs seenComma hclose hpending hfuel
      simp only [List.length_cons] at hfuel
      obtain ⟨fuel, rfl⟩ : ∃ k, fuel = k + 3 := ⟨fuel - 3, by omega⟩
      obtain ⟨before, hbefore, hmember⟩ := objectLoop_member (fuel + 2) hpending
      obtain ⟨mid, hmid, hvalue⟩ := ih (fuel + 2) before _ hbefore (by omega)
      rw [hmember v mid hvalue]
      exact objectLoop_closes hclose fuel hmid
  | @memberCons key v more ls ls' h h' ih ih' =>
      intro fuel lexer close rest kvPairs seenComma hclose hpending hfuel
      simp only [List.length_cons, List.length_append] at hfuel
      obtain ⟨fuel, rfl⟩ : ∃ k, fuel = k + 2 := ⟨fuel - 2, by omega⟩
      simp only [List.cons_append, List.append_assoc] at hpending
      obtain ⟨before, hbefore, hmember⟩ := objectLoop_member (fuel + 1) hpending
      obtain ⟨mid, hmid, hvalue⟩ := ih (fuel + 1) before _ hbefore (by omega)
      rw [hmember v mid hvalue]
      obtain ⟨mid', hmid', hcomma⟩ := objectLoop_comma fuel hmid
      rw [hcomma]
      obtain ⟨after, hafter, hloop⟩ := ih' fuel mid' close rest (kvPairs ++ [(key, v)]) true hclose hmid' (by omega)
      exact ⟨after, hafter, by rw [hloop, List.append_assoc, List.singleton_append]⟩
  | @element v ls h ih =>
      intro fuel lexer rest values hpending hfuel
      obtain ⟨l, ls, rfl, hl, -⟩ := h.value_cons
      obtain ⟨fuel, rfl⟩ : ∃ k, fuel = k + 2 := ⟨fuel - 2, by omega⟩
      obtain ⟨before, hbefore, helement⟩ := arrayLoop_element (fuel + 1) hl hpending
      obtain ⟨mid, hmid, hvalue⟩ := ih (fuel + 1) before _ hbefore (by omega)
      rw [helement v mid hvalue]
      exact arrayLoop_endArray fuel hmid
  | @elementCons v more ls ls' h h' ih ih' =>
      intro fuel lexer rest values hpending hfuel
      obtain ⟨l, ls, rfl, hl, -⟩ := h.value_cons
      simp only [List.length_cons, List.length_append] at hfuel
      obtain ⟨fuel, rfl⟩ : ∃ k, fuel = k + 1 := ⟨fuel - 1, by omega⟩
      rw [List.append_assoc] at hpending
      obtain ⟨before, hbefore, helement⟩ := arrayLoop_element fuel hl hpending
      obtain ⟨mid, hmid, hvalue⟩ := ih fuel before _ hbefore (by simp only [List.length_cons]; omega)
      rw [helement v mid hvalue]
      obtain ⟨after, hafter, hloop⟩ := ih' fuel mid rest (values ++ [v]) (by simpa using hmid) (by omega)
      exact ⟨after, hafter, by rw [hloop, List.append_assoc, List.singleton_append]⟩

/-! ### Documents -/

theorem pending_final (h : lexer.pending strtod = l :: ls) (hl : l.Final) : ls = [] := by
  have hlexemes : ∀ cursor, lexemes strtod cursor = l :: ls → ls = [] := by
    intro cursor h
    rw [lexemes_eq Prod.mk.eta.symm] at h
    split_ifs at h with hfinal
    · exact (List.cons.inj h).2.symm
    · exact absurd ((List.cons.inj h).1 ▸ hl) hfinal
  rw [pending] at h
  split at h
  · split_ifs at h with hfinal
    · exact (List.cons.inj h).2.symm
    · exact absurd ((List.cons.inj h).1 ▸ hl) hfinal
  · exact hlexemes _ h

theorem length_pending_init (text : CString) : 3 * ((init text).pending strtod).length ≤ 4 * text.bytes.length + 4 := by
  have hlength := @length_lexemes strtod text.bytes
  rw [pending_init]
  omega

theorem jsonParse_ne_outOfFuel (strtod : List UInt8 → Rat × Nat) (text : CString) :
    jsonParse strtod text ≠ .outOfFuel := by
  have hvalue := (fuelSuffices strtod _).value (init text) (length_pending_init text)
  rw [jsonParse]
  split
  · dsimp only
    split_ifs
    · simp
    · simp [jsonError]
  · simp
  · next hout => exact absurd hout hvalue

/-- `JsonParse` returns a tree just when the lexemes are a document of this tree, commas behind the last members
allowed. -/
theorem jsonParse_eq_ok_iff (strtod : List UInt8 → Rat × Nat) (text : CString) (v : JsonValue) :
    (∃ lexer, jsonParse strtod text = .ok v lexer) ↔ ∃ ls, lexemes strtod text.bytes = ls ++ [.eof] ∧ Derives true
    (.value v) ls := by
  constructor
  · rintro ⟨lexer, h⟩
    rw [jsonParse] at h
    split at h
    · next root after hvalue =>
      dsimp only at h
      split_ifs at h with heof
      · obtain ⟨ls, hpending, hls⟩ := (acceptsWellFormed strtod _).value _ root after hvalue
        obtain ⟨l, rest, hrest⟩ := @pending_ne_nil strtod after
        obtain rfl : JsonLexeme.eof = l := by
          rw [← heof]
          exact (next_of_pending hrest).1
        have hnil := pending_final hrest (.inl rfl)
        cases h
        exact ⟨ls, by rw [← pending_init, hpending, hrest, hnil], hls⟩
      · cases h
    · cases h
    · cases h
  · rintro ⟨ls, hlexemes, hls⟩
    have hlength := @length_pending_init strtod text
    rw [pending_init, hlexemes, List.length_append] at hlength
    obtain ⟨after, hafter, hvalue⟩ :=
      hls.accepts strtod (4 * text.bytes.length + 4) (init text) [.eof] hlexemes (by omega)
    have heof := (next_of_pending hafter).1
    refine ⟨(after.next strtod).2, ?_⟩
    rw [jsonParse, hvalue]
    exact if_pos heof

/-! ### Commas behind the last member -/

/-- No comma is followed by a closing brace. -/
def NoTrailingComma (ls : List JsonLexeme) : Prop := ls.IsChain fun l l' => ¬(l = .valueSeparator ∧ l' = .endObject)

instance (ls : List JsonLexeme) : Decidable (NoTrailingComma ls) := inferInstanceAs (Decidable (ls.IsChain _))

/-- What holds of all that the grammar without such commas stands for. -/
structure Tidy (ls : List JsonLexeme) : Prop where
  ne_nil : ls ≠ []
  noTrailingComma : NoTrailingComma ls
  head : ∀ l ∈ ls.head?, l ≠ .endObject
  last : ∀ l ∈ ls.getLast?, l ≠ .valueSeparator

namespace Tidy

variable {ls' : List JsonLexeme}

theorem singleton (hcomma : l ≠ .valueSeparator) (hend : l ≠ .endObject) : Tidy [l] where
  ne_nil := List.cons_ne_nil _ _
  noTrailingComma := List.isChain_singleton _
  head := by simpa using hend
  last := by simpa using hcomma

theorem cons (h : Tidy ls) (hcomma : l ≠ .valueSeparator) (hend : l ≠ .endObject) : Tidy (l :: ls) where
  ne_nil := List.cons_ne_nil _ _
  noTrailingComma := List.IsChain.cons h.noTrailingComma fun _ _ hpair => hcomma hpair.1
  head := by simpa using hend
  last := by
    rw [List.getLast?_cons_of_ne_nil h.ne_nil]
    exact h.last

theorem concat (h : Tidy ls) (hcomma : l ≠ .valueSeparator) : Tidy (ls ++ [l]) where
  ne_nil := List.append_ne_nil_of_left_ne_nil h.ne_nil _
  noTrailingComma := List.IsChain.append h.noTrailingComma (List.isChain_singleton _)
    fun l hl _ _ hpair => h.last l hl hpair.1
  head := by
    rw [List.head?_append_of_ne_nil _ h.ne_nil]
    exact h.head
  last := by simpa using hcomma

theorem comma (h : Tidy ls) (h' : Tidy ls') : Tidy (ls ++ .valueSeparator :: ls') where
  ne_nil := List.append_ne_nil_of_left_ne_nil h.ne_nil _
  noTrailingComma := by
    refine List.IsChain.append h.noTrailingComma (List.IsChain.cons h'.noTrailingComma fun l hl hpair => ?_)
      fun l hl _ _ hpair => ?_
    · exact h'.head l hl hpair.2
    · exact h.last l hl hpair.1
  head := by
    rw [List.head?_append_of_ne_nil _ h.ne_nil]
    exact h.head
  last := by
    rw [List.getLast?_append_cons, List.getLast?_cons_of_ne_nil h'.ne_nil]
    exact h'.last

end Tidy

theorem Derives.tidy {symbol : JsonSymbol} (h : Derives false symbol ls) : Tidy ls := by
  induction h with
  | string s => exact .singleton (by simp) (by simp)
  | number n => exact .singleton (by simp) (by simp)
  | boolean b => exact .singleton (by simp) (by simp)
  | null => exact .singleton (by simp) (by simp)
  | emptyObject => exact (Tidy.singleton (by simp) (by simp) : Tidy [.beginObject]).concat (by simp)
  | object h ih => exact (ih.concat (by simp)).cons (by simp) (by simp)
  | objectComma htrailing h ih => cases htrailing
  | emptyArray => exact (Tidy.singleton (by simp) (by simp) : Tidy [.beginArray]).concat (by simp)
  | array h ih => exact (ih.concat (by simp)).cons (by simp) (by simp)
  | member key h ih => exact (ih.cons (by simp) (by simp)).cons (by simp) (by simp)
  | memberCons key h h' ih ih' => exact ((ih.comma ih').cons (by simp) (by simp)).cons (by simp) (by simp)
  | element h ih => exact ih
  | elementCons h h' ih ih' => exact ih.comma ih'

theorem Derives.lenient {symbol : JsonSymbol} (h : Derives false symbol ls) : Derives true symbol ls := by
  induction h with
  | string s => exact .string s
  | number n => exact .number n
  | boolean b => exact .boolean b
  | null => exact .null
  | emptyObject => exact .emptyObject
  | object h ih => exact .object ih
  | objectComma htrailing h ih => exact .objectComma rfl ih
  | emptyArray => exact .emptyArray
  | array h ih => exact .array ih
  | member key h ih => exact .member key ih
  | memberCons key h h' ih ih' => exact .memberCons key ih ih'
  | element h ih => exact .element ih
  | elementCons h h' ih ih' => exact .elementCons ih ih'

theorem Derives.strict {symbol : JsonSymbol} (h : Derives true symbol ls) (hls : NoTrailingComma ls) :
    Derives false symbol ls := by
  induction h with
  | string s => exact .string s
  | number n => exact .number n
  | boolean b => exact .boolean b
  | null => exact .null
  | emptyObject => exact .emptyObject
  | object h ih => exact .object (ih (List.IsChain.tail hls).left_of_append)
  | objectComma htrailing h ih =>
      have hclose := (List.IsChain.tail hls).right_of_append
      exact absurd ⟨rfl, rfl⟩ (List.isChain_pair.mp hclose)
  | emptyArray => exact .emptyArray
  | array h ih => exact .array (ih (List.IsChain.tail hls).left_of_append)
  | member key h ih => exact .member key (ih (List.IsChain.tail hls).tail)
  | memberCons key h h' ih ih' =>
      have hrest := (List.IsChain.tail hls).tail
      exact .memberCons key (ih hrest.left_of_append) (ih' hrest.right_of_append.tail)
  | element h ih => exact .element (ih hls)
  | elementCons h h' ih ih' =>
      exact .elementCons (ih (List.IsChain.left_of_append hls)) (ih' (List.IsChain.right_of_append hls).tail)

/-- `JsonParse` returns on this text, and it returns a tree just when the lexemes are a document of this tree. -/
def AcceptsExactly (strtod : List UInt8 → Rat × Nat) (text : CString) : Prop :=
  jsonParse strtod text ≠ .outOfFuel ∧ ∀ v, (∃ lexer, jsonParse strtod text = .ok v lexer) ↔
    ∃ ls, lexemes strtod text.bytes = ls ++ [.eof] ∧ Derives false (.value v) ls

/-- `JsonParse` accepts exactly the documents, unless the text is a document apart from commas behind the last
members of objects. -/
theorem jsonParse_exact (strtod : List UInt8 → Rat × Nat) (text : CString) : AcceptsExactly strtod text ↔
    ∀ v ls, lexemes strtod text.bytes = ls ++ [.eof] → Derives true (.value v) ls → NoTrailingComma ls := by
  constructor
  · rintro ⟨-, h⟩ v ls hlexemes hls
    obtain ⟨ls', hlexemes', hls'⟩ := (h v).mp ((jsonParse_eq_ok_iff strtod text v).mpr ⟨ls, hlexemes, hls⟩)
    obtain rfl : ls = ls' := List.append_cancel_right (hlexemes ▸ hlexemes')
    exact hls'.tidy.noTrailingComma
  · intro h
    refine ⟨jsonParse_ne_outOfFuel strtod text, fun v => ?_⟩
    rw [jsonParse_eq_ok_iff]
    constructor
    · rintro ⟨ls, hlexemes, hls⟩
      exact ⟨ls, hlexemes, hls.strict (h v ls hlexemes hls)⟩
    · rintro ⟨ls, hlexemes, hls⟩
      exact ⟨ls, hlexemes, hls.lenient⟩

/-- An object with a comma behind its only member is accepted. -/
theorem trailingComma_accepted : ¬AcceptsExactly (fun _ => (0, 0)) (.lit "\x7b\"a\":true,\x7d") := by
  rintro ⟨-, h⟩
  have hlexemes : lexemes (fun _ => (0, 0)) (CString.lit "\x7b\"a\":true,\x7d").bytes =
      [.beginObject, .string (.lit "a"), .nameSeparator, .boolean true, .valueSeparator, .endObject] ++ [.eof] := by
        decide +kernel
  obtain ⟨ls, hls, hstrict⟩ :=
    (h _).mp ((jsonParse_eq_ok_iff _ _ _).mpr ⟨_, hlexemes, .objectComma rfl (.member (.lit "a") (.boolean true))⟩)
  rw [hlexemes] at hls
  obtain rfl := List.append_cancel_right hls
  exact absurd hstrict.tidy.noTrailingComma (by decide)

end Tundra
