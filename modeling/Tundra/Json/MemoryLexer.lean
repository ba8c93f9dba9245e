import Tundra.Json.Memory

/-!
# Strings in the buffer

The loop of `GetStringLexeme` writes behind the place where it reads: a turn takes at least one byte and gives
at most one. So a string and its terminator fit into the text they are written over, what is read is the text as
it was, and the lexer on the buffer gives the lexemes of the lexer on the text.
-/

namespace Tundra

open Bytes Checked Region

namespace JsonMemory

variable {buffer buffer' : List UInt8} {ptr rptr rptr' wptr wptr' start stop limit : Nat} {ch c : UInt8}

theorem readByte_eq_ok : readByte buffer ptr = .ok ch ↔ buffer[ptr]? = some ch := by
  rw [readByte]
  cases buffer[ptr]? <;> simp

theorem readByte_of_drop {l : List UInt8} (h : buffer.drop ptr = ch :: l) : readByte buffer ptr = .ok ch := by
  have hhead := congrArg (fun l => l[0]?) h
  rw [readByte_eq_ok]
  simpa using hhead

theorem writeByte_eq_ok :
    writeByte buffer ptr ch = .ok buffer' ↔ ptr < buffer.length ∧ buffer.set ptr ch = buffer' := by
  rw [writeByte]
  split_ifs with h <;> simp [h]

/-! ### The read and write positions -/

theorem hexLoop_place {n hexCode hexCode' : Nat} (h : hexLoop buffer n rptr hexCode = .ok (some (hexCode', rptr'))) :
    rptr' = rptr + n := by
  induction n generalizing rptr hexCode with
  | zero =>
      cases h
      rfl
  | succ n ih =>
      rw [hexLoop] at h
      obtain ⟨code, -, h⟩ := bind_eq_ok.mp h
      cases hdigit : hexDigit code with
      | none =>
          rw [hdigit] at h
          cases h
      | some digit =>
          rw [hdigit] at h
          rw [ih h, Nat.add_assoc, Nat.add_comm 1 n]

/-- What a turn has done: nothing is left to do after an error, and otherwise a byte was taken and one was written. -/
inductive TurnDone (buffer : List UInt8) (rptr wptr : Nat) : StringTurn → Prop
  | next (c : UInt8) {rptr' : Nat} (h : rptr < rptr') : TurnDone buffer rptr wptr
      (.next (buffer.set wptr c) rptr' (wptr + 1))
  | done : TurnDone buffer rptr wptr (.done (buffer.set wptr 0) (rptr + 1))
  | failed : TurnDone buffer rptr wptr .failed

theorem turnDone {turn : StringTurn} (h : stringTurn buffer rptr wptr = .ok turn) : TurnDone buffer rptr wptr turn := by
  rw [stringTurn] at h
  obtain ⟨ch, -, h⟩ := bind_eq_ok.mp h
  split_ifs at h with hend hquote hbackslash
  · cases h
    exact .failed
  · obtain ⟨written, hwrite, h⟩ := bind_eq_ok.mp h
    obtain ⟨-, rfl⟩ := writeByte_eq_ok.mp hwrite
    cases h
    exact .done
  · obtain ⟨next, -, h⟩ := bind_eq_ok.mp h
    cases hescape : escapedChar next with
    | some c =>
        rw [hescape] at h
        obtain ⟨written, hwrite, h⟩ := bind_eq_ok.mp h
        obtain ⟨-, rfl⟩ := writeByte_eq_ok.mp hwrite
        cases h
        exact .next c (by omega)
    | none =>
        rw [hescape] at h
        dsimp only at h
        split_ifs at h
        · obtain ⟨code, hcode, h⟩ := bind_eq_ok.mp h
          cases code with
          | none =>
              cases h
              exact .failed
          | some code =>
              obtain ⟨hexCode, rptr'⟩ := code
              have hplace := hexLoop_place hcode
              dsimp only at h
              split_ifs at h
              · cases h
                exact .failed
              · obtain ⟨written, hwrite, h⟩ := bind_eq_ok.mp h
                obtain ⟨-, rfl⟩ := writeByte_eq_ok.mp hwrite
                cases h
                exact .next _ (by omega)
        · cases h
          exact .failed
  · obtain ⟨written, hwrite, h⟩ := bind_eq_ok.mp h
    obtain ⟨-, rfl⟩ := writeByte_eq_ok.mp hwrite
    cases h
    exact .next ch (Nat.lt_succ_self _)

/-- The places where the loop of `GetStringLexeme` comes to: the buffer, where it reads and where it writes. -/
inductive StringRun (source : List UInt8) (start : Nat) : List UInt8 → Nat → Nat → Prop
  | start : StringRun source start source (start + 1) start
  | next {buffer buffer' : List UInt8} {rptr rptr' wptr wptr' : Nat} (h : StringRun source start buffer rptr wptr)
      (hturn : stringTurn buffer rptr wptr = .ok (.next buffer' rptr' wptr')) : StringRun source start buffer' rptr'
        wptr'

/-- It writes behind the place where it reads, and has changed nothing but what it has written. -/
theorem StringRun.behind {source : List UInt8} (h : StringRun source start buffer rptr wptr) :
    start ≤ wptr ∧ wptr < rptr ∧ Within start wptr source buffer := by
  induction h with
  | start => exact ⟨Nat.le_refl _, Nat.lt_succ_self _, .refl _ _ _⟩
  | next _ hturn ih =>
      obtain ⟨hstart, hbehind, hwithin⟩ := ih
      cases turnDone hturn with
      | next c hread =>
          refine ⟨by omega, by omega, (hwithin.mono (Nat.le_refl _) (Nat.le_succ _)).trans ?_⟩
          exact .set hstart (Nat.lt_succ_self _) _ c

theorem StringRun.stringLoop {source : List UInt8} (h : StringRun source start buffer rptr wptr) {fuel : Nat}
    {result : List UInt8 × Option Nat} (hloop : JsonMemory.stringLoop fuel source (start + 1) start = .ok result) :
    ∃ fuel', JsonMemory.stringLoop fuel' buffer rptr wptr = .ok result := by
  induction h with
  | start => exact ⟨fuel, hloop⟩
  | next _ hturn ih =>
      obtain ⟨fuel', hrest⟩ := ih
      cases fuel' with
      | zero => cases hrest
      | succ fuel' =>
          rw [JsonMemory.stringLoop, hturn] at hrest
          exact ⟨fuel', hrest⟩

theorem stringLoop_le {fuel : Nat} (h : stringLoop fuel buffer rptr wptr = .ok (buffer', some stop)) : rptr < stop := by
  induction fuel generalizing buffer rptr wptr with
  | zero => cases h
  | succ fuel ih =>
      rw [stringLoop] at h
      obtain ⟨turn, hturn, h⟩ := bind_eq_ok.mp h
      cases turnDone hturn with
      | next c hread => exact hread.trans (ih h)
      | done =>
          cases h
          exact Nat.lt_succ_self _
      | failed => cases h

/-! ### The decoded string -/

theorem drop_succ_of_cons {l : List UInt8} (h : buffer.drop ptr = ch :: l) : buffer.drop (ptr + 1) = l := by
  rw [← List.tail_drop, h, List.tail_cons]

theorem behind_append {written : List UInt8} (hwptr : start + written.length < rptr) (hread : rptr < rptr')
    (c : UInt8) :
    start + (written ++ [c]).length < rptr' := by
  rw [List.length_append, List.length_singleton]
  omega

theorem lt_of_drop_cons {l : List UInt8} (h : buffer.drop ptr = ch :: l) : ptr < buffer.length := by
  by_contra hge
  rw [List.drop_of_length_le (not_lt.mp hge)] at h
  cases h

theorem writeByte_behind {l : List UInt8} (hdrop : buffer.drop rptr = ch :: l) (hwptr : wptr < rptr) (c : UInt8) :
    writeByte buffer wptr c = .ok (buffer.set wptr c) :=
  writeByte_eq_ok.mpr ⟨hwptr.trans (lt_of_drop_cons hdrop), rfl⟩

/-- A byte that is written behind what stands in the buffer. -/
theorem at_set {written : List UInt8} (hat : At buffer start written) (hlt : start + written.length < buffer.length)
    (c : UInt8) :
    At (buffer.set (start + written.length) c) start (written ++ [c]) := by
  obtain ⟨tail, htail⟩ := hat
  have hlength := congrArg List.length htail
  rw [List.length_append, List.length_drop] at hlength
  cases tail with
  | nil =>
      rw [List.length_nil] at hlength
      omega
  | cons b tail =>
      refine ⟨tail, ?_⟩
      rw [List.drop_set, if_neg (by omega), Nat.add_sub_cancel_left, ← htail,
        List.set_append_right _ _ (Nat.le_refl _), Nat.sub_self,
        List.append_assoc]
      rfl

/-- The four digits, if they are there before the end of the text. -/
theorem hexLoop_eq {text rest : List UInt8} (hdrop : buffer.drop rptr = text ++ 0 :: rest) (n hexCode : Nat) :
    hexLoop buffer n rptr hexCode = .ok (if n ≤ text.length then
      ((text.take n).foldlM (fun hexCode code => (hexDigit code).map fun digit => hexCode * 16 + digit) hexCode).map
      fun hexCode => (hexCode, rptr + n)
      else none) := by
  induction n generalizing rptr text hexCode with
  | zero => simp [hexLoop]
  | succ n ih =>
      cases text with
      | nil =>
          have hzero : hexDigit 0 = none := by decide
          rw [hexLoop, readByte_of_drop hdrop, ok_bind, hzero]
          rfl
      | cons code text =>
          rw [hexLoop, readByte_of_drop hdrop, ok_bind]
          cases hdigit : hexDigit code with
          | none => simp [hdigit, pure, Except.pure]
          | some digit =>
              have hrest : buffer.drop (rptr + 1) = text ++ 0 :: rest := drop_succ_of_cons hdrop
              dsimp only
              rw [ih hrest]
              simp [hdigit, Nat.add_assoc, Nat.add_comm 1 n]

theorem stringTurn_plain {l : List UInt8} (hdrop : buffer.drop rptr = ch :: l) (hch : ch ≠ 0)
    (hquote : ch ≠ ascii '"') (hbackslash : ch ≠ ascii '\\')
    (hwptr : wptr < rptr) : stringTurn buffer rptr wptr = .ok (.next (buffer.set wptr ch) (rptr + 1) (wptr + 1)) := by
  rw [stringTurn, readByte_of_drop hdrop, ok_bind, if_neg hch, if_neg hquote, if_neg hbackslash,
    writeByte_behind hdrop hwptr]
  rfl

theorem stringTurn_quote {l : List UInt8} (hdrop : buffer.drop rptr = ascii '"' :: l) (hwptr : wptr < rptr) :
    stringTurn buffer rptr wptr = .ok (.done (buffer.set wptr 0) (rptr + 1)) := by
  rw [stringTurn, readByte_of_drop hdrop, ok_bind, if_neg (by decide), if_pos rfl, writeByte_behind hdrop hwptr]
  rfl

theorem stringTurn_end {l : List UInt8} (hdrop : buffer.drop rptr = 0 :: l) :
    stringTurn buffer rptr wptr = .ok .failed := by
  rw [stringTurn, readByte_of_drop hdrop, ok_bind, if_pos rfl]
  rfl

section Escape

variable {next : UInt8} {l : List UInt8} (hdrop : buffer.drop rptr = ascii '\\' :: next :: l)

include hdrop

theorem stringTurn_escape (hescape : escapedChar next = some c) (hwptr : wptr < rptr) :
    stringTurn buffer rptr wptr = .ok (.next (buffer.set wptr c) (rptr + 2) (wptr + 1)) := by
  rw [stringTurn, readByte_of_drop hdrop, ok_bind, if_neg (by decide), if_neg (by decide), if_pos rfl,
    readByte_of_drop (drop_succ_of_cons hdrop), ok_bind, hescape]
  dsimp only
  rw [writeByte_behind hdrop hwptr]
  rfl

theorem stringTurn_unsupported (hescape : escapedChar next = none) (hu : next ≠ ascii 'u') :
    stringTurn buffer rptr wptr = .ok .failed := by
  rw [stringTurn, readByte_of_drop hdrop, ok_bind, if_neg (by decide), if_neg (by decide), if_pos rfl,
    readByte_of_drop (drop_succ_of_cons hdrop), ok_bind, hescape]
  dsimp only
  rw [if_neg hu]
  rfl

theorem stringTurn_code (hu : next = ascii 'u') {hexCode : Nat}
    (hdigits : hexLoop buffer 4 (rptr + 2) 0 = .ok (some (hexCode, rptr'))) (hsmall : ¬hexCode > 127)
    (hwptr : wptr < rptr) :
    stringTurn buffer rptr wptr = .ok (.next (buffer.set wptr (.ofNat hexCode)) rptr' (wptr + 1)) := by
  subst hu
  have hescape : escapedChar (ascii 'u') = none := by decide
  rw [stringTurn, readByte_of_drop hdrop, ok_bind, if_neg (by decide), if_neg (by decide), if_pos rfl,
    readByte_of_drop (drop_succ_of_cons hdrop), ok_bind, hescape]
  dsimp only
  rw [if_pos rfl, hdigits, ok_bind]
  dsimp only
  rw [if_neg hsmall, writeByte_behind hdrop hwptr]
  rfl

theorem stringTurn_badCode (hu : next = ascii 'u') {code : Option (Nat × Nat)}
    (hdigits : hexLoop buffer 4 (rptr + 2) 0 = .ok code) (hlarge : ∀ hexCode ∈ code, hexCode.1 > 127) :
    stringTurn buffer rptr wptr = .ok .failed := by
  subst hu
  have hescape : escapedChar (ascii 'u') = none := by decide
  rw [stringTurn, readByte_of_drop hdrop, ok_bind, if_neg (by decide), if_neg (by decide), if_pos rfl,
    readByte_of_drop (drop_succ_of_cons hdrop), ok_bind, hescape]
  dsimp only
  rw [if_pos rfl, hdigits, ok_bind]
  cases code with
  | none => rfl
  | some code => exact if_pos (hlarge code rfl)

end Escape

/-- The text that is not read yet, up to the terminator and what stands behind that. -/
def Unread (after buffer : List UInt8) (cursor : Nat) (text : List UInt8) :
    Prop := (0 : UInt8) ∉ text ∧ buffer.drop cursor = text ++ 0 :: after

namespace Unread

variable {after text : List UInt8}

theorem drop_eq (h : Unread after buffer ptr (ch :: text)) : ∃ l, buffer.drop ptr = ch :: l := by
  obtain ⟨-, hdrop⟩ := h
  exact ⟨_, hdrop⟩

theorem drop_nil (h : Unread after buffer ptr []) : ∃ l, buffer.drop ptr = 0 :: l := by
  obtain ⟨-, hdrop⟩ := h
  exact ⟨_, hdrop⟩

theorem ne_zero (h : Unread after buffer ptr (ch :: text)) : ch ≠ 0 := by
  rintro rfl
  exact h.1 List.mem_cons_self

theorem tail (h : Unread after buffer ptr (ch :: text)) : Unread after buffer (ptr + 1) text := by
  obtain ⟨hnul, hdrop⟩ := h
  exact ⟨fun hmem => hnul (List.mem_cons_of_mem _ hmem), drop_succ_of_cons hdrop⟩

theorem drop (h : Unread after buffer ptr text) {n : Nat} (hn : n ≤ text.length) :
    Unread after buffer (ptr + n) (text.drop n) := by
  obtain ⟨hnul, hdrop⟩ := h
  refine ⟨fun hmem => hnul (List.mem_of_mem_drop hmem), ?_⟩
  rw [← List.drop_drop, hdrop, List.drop_append_of_le_length hn]

theorem set (h : Unread after buffer rptr text) (hwptr : wptr < rptr) (c : UInt8) :
    Unread after (buffer.set wptr c) rptr text := by
  obtain ⟨hnul, hdrop⟩ := h
  exact ⟨hnul, by rw [List.drop_set_of_lt hwptr, hdrop]⟩

theorem length_lt (h : Unread after buffer ptr text) : ptr + text.length < buffer.length := by
  obtain ⟨-, hdrop⟩ := h
  have hlength := congrArg List.length hdrop
  rw [List.length_drop, List.length_append, List.length_cons] at hlength
  omega

theorem hexLoop_eq {c0 c1 c2 c3 : UInt8} (h : Unread after buffer ptr (c0 :: c1 :: c2 :: c3 :: text)) :
    hexLoop buffer 4 ptr 0 = .ok ((hexCode [c0, c1, c2, c3]).map fun hexCode => (hexCode, ptr + 4)) := by
  obtain ⟨-, hdrop⟩ := h
  rw [JsonMemory.hexLoop_eq hdrop, if_pos (by simp)]
  rfl

theorem hexLoop_short (h : Unread after buffer ptr text) (hshort : text.length < 4) :
    hexLoop buffer 4 ptr 0 = .ok none := by
  obtain ⟨-, hdrop⟩ := h
  rw [JsonMemory.hexLoop_eq hdrop, if_neg (Nat.not_le.mpr hshort)]

end Unread

/-- The loop of `GetStringLexeme` comes to the end of a string, from a place where it has written some of it. -/
def Decodes (after : List UInt8) (start fuel : Nat) (buffer : List UInt8) (rptr : Nat)
    (written written' text' : List UInt8) : Prop :=
  ∃ buffer' stop, stringLoop fuel buffer rptr (start + written.length) = .ok (buffer', some stop) ∧
    Unread after buffer' stop text' ∧
    At buffer' start (written' ++ [0]) ∧ start + written'.length < stop ∧ Within start stop buffer buffer'

theorem Decodes.turn {fuel : Nat} {after written written' text' : List UInt8}
    (hturn : stringTurn buffer rptr (start + written.length) =
    .ok (.next (buffer.set (start + written.length) c) rptr' (start + written.length + 1)))
    (hwptr : start + written.length < rptr')
    (h : Decodes after start fuel (buffer.set (start + written.length) c) rptr' (written ++ [c]) written' text') :
    Decodes after start (fuel + 1) buffer rptr written written' text' := by
  obtain ⟨buffer', stop, hloop, hunread, hat, hstop, hwithin⟩ := h
  rw [List.length_append, List.length_singleton, ← Nat.add_assoc] at hloop
  have hend := stringLoop_le hloop
  refine ⟨buffer', stop, ?_, hunread, hat, hstop, .trans (.set (by omega) (by omega) _ c) hwithin⟩
  rw [stringLoop, hturn]
  exact hloop

/-- The loop of `GetStringLexeme` and the loop on the text, up to the closing quote. -/
theorem decodes (after text : List UInt8) : ∀ {written written' text' buffer : List UInt8} {rptr fuel : Nat},
    Tundra.stringLoop text written = some (written', text') → Unread after buffer rptr text →
    At buffer start written → start + written.length < rptr →
      text.length < fuel → Decodes after start fuel buffer rptr written written' text' := by
  intro written
  fun_induction Tundra.stringLoop text written with
  | case2 written text =>
      intro written' text' buffer rptr fuel h hunread hat hwptr hfuel
      cases h
      obtain ⟨fuel, rfl⟩ := Nat.exists_eq_add_one_of_ne_zero (Nat.ne_zero_of_lt hfuel)
      obtain ⟨l, hdrop⟩ := hunread.drop_eq
      refine ⟨_, rptr + 1, ?_, hunread.tail.set (by omega) 0,
        at_set hat (hwptr.trans (lt_of_drop_cons hdrop)) 0, by omega,
        .set (by omega) (by omega) _ 0⟩
      rw [stringLoop, stringTurn_quote hdrop hwptr]
      rfl
  | case3 written next text c hescape hquote ih =>
      intro written' text' buffer rptr fuel h hunread hat hwptr hfuel
      rw [List.length_cons, List.length_cons] at hfuel
      obtain ⟨fuel, rfl⟩ := Nat.exists_eq_add_one_of_ne_zero (Nat.ne_zero_of_lt hfuel)
      obtain ⟨-, hdrop⟩ := id hunread
      apply Decodes.turn (stringTurn_escape hdrop hescape hwptr) (by omega)
      apply ih h (hunread.tail.tail.set (by omega) c) (at_set hat (hwptr.trans (lt_of_drop_cons hdrop)) c)
      · exact behind_append hwptr (by omega) _
      · omega
  | case5 written c0 c1 c2 c3 text hexCode hcode hsmall hquote hnone ih =>
      intro written' text' buffer rptr fuel h hunread hat hwptr hfuel
      simp only [List.length_cons] at hfuel
      obtain ⟨fuel, rfl⟩ := Nat.exists_eq_add_one_of_ne_zero (Nat.ne_zero_of_lt hfuel)
      obtain ⟨-, hdrop⟩ := id hunread
      have hdigits := hunread.tail.tail.hexLoop_eq
      rw [hcode] at hdigits
      apply Decodes.turn (stringTurn_code hdrop rfl hdigits hsmall hwptr) (by omega)
      apply ih h (hunread.tail.tail.tail.tail.tail.tail.set (by omega) _)
        (at_set hat (hwptr.trans (lt_of_drop_cons hdrop)) _)
      · exact behind_append hwptr (by omega) _
      · omega
  | case10 ch text written hquote hbackslash ih =>
      intro written' text' buffer rptr fuel h hunread hat hwptr hfuel
      obtain ⟨fuel, rfl⟩ := Nat.exists_eq_add_one_of_ne_zero (Nat.ne_zero_of_lt hfuel)
      obtain ⟨l, hdrop⟩ := hunread.drop_eq
      apply Decodes.turn (stringTurn_plain hdrop hunread.ne_zero hquote hbackslash hwptr) (by omega)
      apply ih h (hunread.tail.set (by omega) ch) (at_set hat (hwptr.trans (lt_of_drop_cons hdrop)) ch)
      · exact behind_append hwptr (Nat.lt_succ_self _) ch
      · exact Nat.lt_of_succ_lt_succ hfuel
  | _ => simp

/-- The loop of `GetStringLexeme` comes to an error, from a place where it has written some of a string. -/
def Fails (start fuel : Nat) (buffer : List UInt8) (rptr : Nat) (written : List UInt8) : Prop :=
  ∃ buffer', stringLoop fuel buffer rptr (start + written.length) = .ok (buffer', none)

theorem Fails.turn {fuel : Nat} {written : List UInt8}
    (hturn : stringTurn buffer rptr (start + written.length) =
    .ok (.next (buffer.set (start + written.length) c) rptr' (start + written.length + 1)))
    (h : Fails start fuel (buffer.set (start + written.length) c) rptr' (written ++ [c])) :
    Fails start (fuel + 1) buffer rptr written := by
  obtain ⟨buffer', hloop⟩ := h
  rw [List.length_append, List.length_singleton, ← Nat.add_assoc] at hloop
  refine ⟨buffer', ?_⟩
  rw [stringLoop, hturn]
  exact hloop

theorem Fails.of_turn {fuel : Nat} {written : List UInt8}
    (hturn : stringTurn buffer rptr (start + written.length) = .ok .failed) :
    Fails start (fuel + 1) buffer rptr written := by
  refine ⟨buffer, ?_⟩
  rw [stringLoop, hturn]
  rfl

/-- The loop of `GetStringLexeme` and the loop on the text, where there is no string. -/
theorem fails (after text : List UInt8) :
    ∀ {written buffer : List UInt8} {rptr fuel : Nat}, Tundra.stringLoop text written = none →
    Unread after buffer rptr text →
    start + written.length < rptr → text.length < fuel → Fails start fuel buffer rptr written := by
  intro written
  fun_induction Tundra.stringLoop text written with
  | case1 written =>
      intro buffer rptr fuel h hunread hwptr hfuel
      obtain ⟨fuel, rfl⟩ := Nat.exists_eq_add_one_of_ne_zero (Nat.ne_zero_of_lt hfuel)
      obtain ⟨l, hdrop⟩ := hunread.drop_nil
      exact .of_turn (stringTurn_end hdrop)
  | case2 written text => simp
  | case3 written next text c hescape hquote ih =>
      intro buffer rptr fuel h hunread hwptr hfuel
      rw [List.length_cons, List.length_cons] at hfuel
      obtain ⟨fuel, rfl⟩ := Nat.exists_eq_add_one_of_ne_zero (Nat.ne_zero_of_lt hfuel)
      obtain ⟨-, hdrop⟩ := id hunread
      apply Fails.turn (stringTurn_escape hdrop hescape hwptr)
      apply ih h (hunread.tail.tail.set (by omega) c)
      · exact behind_append hwptr (by omega) _
      · omega
  | case4 written c0 c1 c2 c3 text hexCode hcode hlarge hquote hnone =>
      intro buffer rptr fuel h hunread hwptr hfuel
      obtain ⟨fuel, rfl⟩ := Nat.exists_eq_add_one_of_ne_zero (Nat.ne_zero_of_lt hfuel)
      obtain ⟨-, hdrop⟩ := id hunread
      have hdigits := hunread.tail.tail.hexLoop_eq
      rw [hcode] at hdigits
      refine .of_turn (stringTurn_badCode hdrop rfl hdigits ?_)
      rintro _ ⟨⟩
      exact hlarge
  | case5 written c0 c1 c2 c3 text hexCode hcode hsmall hquote hnone ih =>
      intro buffer rptr fuel h hunread hwptr hfuel
      simp only [List.length_cons] at hfuel
      obtain ⟨fuel, rfl⟩ := Nat.exists_eq_add_one_of_ne_zero (Nat.ne_zero_of_lt hfuel)
      obtain ⟨-, hdrop⟩ := id hunread
      have hdigits := hunread.tail.tail.hexLoop_eq
      rw [hcode] at hdigits
      apply Fails.turn (stringTurn_code hdrop rfl hdigits hsmall hwptr)
      apply ih h (hunread.tail.tail.tail.tail.tail.tail.set (by omega) _)
      · exact behind_append hwptr (by omega) _
      · omega
  | case6 written c0 c1 c2 c3 text hcode hquote hnone =>
      intro buffer rptr fuel h hunread hwptr hfuel
      obtain ⟨fuel, rfl⟩ := Nat.exists_eq_add_one_of_ne_zero (Nat.ne_zero_of_lt hfuel)
      obtain ⟨-, hdrop⟩ := id hunread
      have hdigits := hunread.tail.tail.hexLoop_eq
      rw [hcode] at hdigits
      exact .of_turn (stringTurn_badCode hdrop rfl hdigits fun _ hmem => by cases hmem)
  | case7 written text hfour hquote hnone =>
      intro buffer rptr fuel h hunread hwptr hfuel
      obtain ⟨fuel, rfl⟩ := Nat.exists_eq_add_one_of_ne_zero (Nat.ne_zero_of_lt hfuel)
      obtain ⟨-, hdrop⟩ := id hunread
      have hshort : text.length < 4 := by
        rcases text with _ | ⟨c0, _ | ⟨c1, _ | ⟨c2, _ | ⟨c3, text⟩⟩⟩⟩
        · simp
        · simp
        · simp
        · simp
        · exact (hfour c0 c1 c2 c3 text rfl).elim
      exact .of_turn (stringTurn_badCode hdrop rfl (hunread.tail.tail.hexLoop_short hshort) fun _ hmem => by cases hmem)
  | case8 written next text hescape hu hquote =>
      intro buffer rptr fuel h hunread hwptr hfuel
      obtain ⟨fuel, rfl⟩ := Nat.exists_eq_add_one_of_ne_zero (Nat.ne_zero_of_lt hfuel)
      obtain ⟨-, hdrop⟩ := id hunread
      exact .of_turn (stringTurn_unsupported hdrop hescape hu)
  | case9 written hquote =>
      intro buffer rptr fuel h hunread hwptr hfuel
      obtain ⟨fuel, rfl⟩ := Nat.exists_eq_add_one_of_ne_zero (Nat.ne_zero_of_lt hfuel)
      obtain ⟨-, hdrop⟩ := id hunread
      exact .of_turn (stringTurn_unsupported hdrop (by decide) (by decide))
  | case10 ch text written hquote hbackslash ih =>
      intro buffer rptr fuel h hunread hwptr hfuel
      obtain ⟨fuel, rfl⟩ := Nat.exists_eq_add_one_of_ne_zero (Nat.ne_zero_of_lt hfuel)
      obtain ⟨l, hdrop⟩ := hunread.drop_eq
      apply Fails.turn (stringTurn_plain hdrop hunread.ne_zero hquote hbackslash hwptr)
      apply ih h (hunread.tail.set (by omega) ch)
      · exact behind_append hwptr (Nat.lt_succ_self _) ch
      · exact Nat.lt_of_succ_lt_succ hfuel

/-! ### Strings at pointers -/

def stringAt (buffer : List UInt8) (ptr : Nat) : CString := .ofBytes (buffer.drop ptr)

/-- The string at a pointer ends in front of a place. -/
def StringBelow (buffer : List UInt8) (limit ptr : Nat) : Prop := (0 : UInt8) ∈ (buffer.take limit).drop ptr

theorem ofBytes_append {l : List UInt8} (h : (0 : UInt8) ∈ l) (l' : List UInt8) :
    CString.ofBytes (l ++ l') = .ofBytes l := by
  apply CString.ext_bytes
  change (l ++ l').takeWhile (· ≠ 0) = l.takeWhile (· ≠ 0)
  rw [List.takeWhile_append, if_neg]
  intro hlength
  have hall := (List.takeWhile_prefix (l := l) (fun ch : UInt8 => decide (ch ≠ 0))).eq_of_length hlength
  simpa using List.takeWhile_eq_self_iff.mp hall 0 h

theorem stringAt_eq (h : StringBelow buffer limit ptr) :
    stringAt buffer ptr = .ofBytes ((buffer.take limit).drop ptr) := by
  rw [stringAt]
  nth_rewrite 1 [← List.take_append_drop limit buffer]
  rw [List.drop_append]
  exact ofBytes_append h _

/-- A string stays what it is as long as nothing in front of its end is changed. -/
theorem StringBelow.kept (h : StringBelow buffer limit ptr) (htake : buffer'.take limit = buffer.take limit) :
    StringBelow buffer' limit ptr ∧ stringAt buffer' ptr = stringAt buffer ptr := by
  have h' : StringBelow buffer' limit ptr := by rwa [StringBelow, htake]
  refine ⟨h', ?_⟩
  rw [stringAt_eq h, stringAt_eq h', htake]

theorem StringBelow.mono (h : StringBelow buffer limit ptr) {limit' : Nat} (hle : limit ≤ limit') :
    StringBelow buffer limit' ptr := by
  rw [StringBelow, ← Nat.min_eq_left hle, ← List.take_take, List.drop_take] at h
  exact List.mem_of_mem_take h

theorem stringBelow_of_at {written : List UInt8} (hat : At buffer ptr (written ++ [0]))
    (hlimit : ptr + written.length < limit) :
    StringBelow buffer limit ptr ∧ stringAt buffer ptr = .ofBytes written := by
  obtain ⟨tail, htail⟩ := hat
  have hzero : (0 : UInt8) ∈ written ++ [0] := List.mem_append_right _ (List.mem_singleton_self 0)
  have hlength : (written ++ [0]).length ≤ limit - ptr := by
    rw [List.length_append, List.length_singleton]
    omega
  constructor
  · rw [StringBelow, List.drop_take, ← htail, List.take_append, List.take_of_length_le hlength]
    exact List.mem_append_left _ hzero
  · rw [stringAt, ← htail, ofBytes_append hzero]
    apply CString.ext_bytes
    change (written ++ [0]).takeWhile (· ≠ 0) = written.takeWhile (· ≠ 0)
    rw [List.takeWhile_append]
    split_ifs with hall
    · have hself := (List.takeWhile_prefix (l := written) (fun ch : UInt8 => decide (ch ≠ 0))).eq_of_length hall
      rw [hself]
      exact List.append_nil _
    · rfl

def Lexeme.read (buffer : List UInt8) : Lexeme → JsonLexeme
  | .string ptr => .string (stringAt buffer ptr)
  | .number n => .number n
  | .valueSeparator => .valueSeparator
  | .nameSeparator => .nameSeparator
  | .beginObject => .beginObject
  | .beginArray => .beginArray
  | .endObject => .endObject
  | .endArray => .endArray
  | .boolean b => .boolean b
  | .null => .null
  | .eof => .eof
  | .error => .error

/-- The string of the lexeme ends in front of a place. -/
def Lexeme.Below (buffer : List UInt8) (limit : Nat) (l : Lexeme) :
    Prop := ∀ ptr, l = .string ptr → StringBelow buffer limit ptr

/-! ### The lexer -/

/-- The buffer has changed between the cursors only. -/
structure Moved (state state' : LexerState) : Prop where
  cursor : state.cursor ≤ state'.cursor
  buffer : Within state.cursor state'.cursor state.buffer state'.buffer

theorem Moved.refl (state : LexerState) : Moved state state := ⟨Nat.le_refl _, .refl _ _ _⟩

theorem Moved.trans {state state' state'' : LexerState} (h : Moved state state') (h' : Moved state' state'') :
    Moved state state'' where
  cursor := h.cursor.trans h'.cursor
  buffer := (h.buffer.mono (Nat.le_refl _) h'.cursor).trans (h'.buffer.mono h.cursor (Nat.le_refl _))

/-- A lexeme of the buffer, for a lexeme of the text that is left behind it. After an error nothing is said
about the buffer. -/
structure Lexed (after : List UInt8) (state : LexerState) (l' : JsonLexeme) (text' : List UInt8) (l : Lexeme)
    (state' : LexerState) : Prop where
  read : l.read state'.buffer = l'
  lineNumber : state'.lineNumber = state.lineNumber
  lexeme : state'.lexeme = state.lexeme
  moved : l ≠ .error → Moved state state'
  unread : l ≠ .error → Unread after state'.buffer state'.cursor text'
  below : l ≠ .error → l.Below state'.buffer state'.cursor

/-- The lexer takes a lexeme, and the lexer on the text takes the same. -/
def Lexes (after : List UInt8) (state : LexerState) (result : Except MemoryFault (Lexeme × LexerState))
    (result' : JsonLexeme × List UInt8) : Prop :=
  ∃ l state', result = .ok (l, state') ∧ Lexed after state result'.1 result'.2 l state'

section Lexer

variable {strtod : List UInt8 → Rat × Nat} {state : LexerState} {after text : List UInt8}

theorem Lexes.ite {c : Prop} [Decidable c] {a b : Except MemoryFault (Lexeme × LexerState)}
    {a' b' : JsonLexeme × List UInt8} (ha : c → Lexes after state a a') (hb : ¬c → Lexes after state b b') :
    Lexes after state (if c then a else b) (if c then a' else b') := by
  by_cases h : c
  · rw [if_pos h, if_pos h]
    exact ha h
  · rw [if_neg h, if_neg h]
    exact hb h

theorem lexed_error (state : LexerState) (buffer : List UInt8) (text' : List UInt8) :
    Lexed after state .error text' .error { state with buffer := buffer } :=
  ⟨rfl, rfl, rfl, fun h => absurd rfl h, fun h => absurd rfl h, fun h => absurd rfl h⟩

theorem lexed_of_ne (l : Lexeme) (hl : ∀ ptr, l ≠ .string ptr)
    (hunread : Unread after state.buffer state.cursor text) {n : Nat} (hn : n ≤ text.length) :
    Lexed after state (l.read state.buffer) (text.drop n) l { state with cursor := state.cursor + n } where
  read := rfl
  lineNumber := rfl
  lexeme := rfl
  moved := fun _ => ⟨Nat.le_add_right _ _, .refl _ _ _⟩
  unread := fun _ => hunread.drop hn
  below := fun _ ptr hptr => absurd hptr (hl ptr)

theorem getStringLexeme_lexed (hunread : Unread after state.buffer state.cursor (ch :: text)) :
    Lexes after state (getStringLexeme state) (Tundra.getStringLexeme (ch :: text)) := by
  have hlength := hunread.length_lt
  rw [List.length_cons] at hlength
  have hfuel : text.length < state.buffer.length := by omega
  rw [getStringLexeme, Tundra.getStringLexeme, List.tail_cons]
  cases hloop : Tundra.stringLoop text [] with
  | some decoded =>
      obtain ⟨written, text'⟩ := decoded
      have hdecodes : Decodes after state.cursor state.buffer.length state.buffer (state.cursor + 1) [] written text' :=
        decodes after text hloop hunread.tail .nil (Nat.lt_succ_self state.cursor) hfuel
      obtain ⟨buffer', stop, hrun, hunread', hat, hstop, hwithin⟩ := hdecodes
      obtain ⟨hbelow, hstring⟩ := stringBelow_of_at hat hstop
      have hcursor : state.cursor ≤ stop := by omega
      refine ⟨.string state.cursor, { state with buffer := buffer', cursor := stop }, ?_,
        congrArg JsonLexeme.string hstring, rfl, rfl,
        fun _ => ⟨hcursor, hwithin⟩, fun _ => hunread', ?_⟩
      · rw [show stringLoop state.buffer.length state.buffer (state.cursor + 1) state.cursor = _ from hrun]
        rfl
      · rintro _ ptr ⟨⟩
        exact hbelow
  | none =>
      obtain ⟨buffer', hrun⟩ := fails after text hloop hunread.tail (Nat.lt_succ_self state.cursor) hfuel
      refine ⟨.error, { state with buffer := buffer' }, ?_, lexed_error state buffer' _⟩
      rw [show stringLoop state.buffer.length state.buffer (state.cursor + 1) state.cursor = _ from hrun]
      rfl

theorem readText_eq (hunread : Unread after buffer ptr text) : readText buffer ptr = .ok text := by
  obtain ⟨hnul, hdrop⟩ := hunread
  have hat : At buffer ptr (text ++ [0]) := ⟨after, by rw [hdrop, List.append_assoc, List.singleton_append]⟩
  rw [readText, hat.readString hnul]

theorem getNumberLexeme_lexed (hstrtod : ∀ text, (strtod text).2 ≤ text.length)
    (hunread : Unread after state.buffer state.cursor text) :
    Lexes after state (getNumberLexeme strtod state) (Tundra.getNumberLexeme strtod text) := by
  rw [getNumberLexeme, readText_eq hunread, ok_bind, Tundra.getNumberLexeme]
  dsimp only
  split_ifs with hlength
  · exact ⟨_, _, rfl, lexed_of_ne (.number (strtod text).1) (by simp) hunread (hstrtod text)⟩
  · exact ⟨_, _, rfl, lexed_error state state.buffer _⟩

/-- A loop over the bytes of a kind stops within the text. -/
theorem scanWhile_eq {p : UInt8 → Bool} (hp : p 0 = false) (hunread : Unread after buffer ptr text) :
    scanWhile p buffer ptr = .ok (ptr + (text.takeWhile p).length) ∧ (buffer.drop ptr).take
    (text.takeWhile p).length = text.takeWhile p := by
  have hlength := hunread.length_lt
  have hstarts := List.takeWhile_prefix (l := text) p
  have hle := hstarts.length_le
  obtain ⟨-, hdrop⟩ := hunread
  have hrun : (buffer.drop ptr).takeWhile p = text.takeWhile p := by
    rw [hdrop, List.takeWhile_append]
    split_ifs with hall
    · rw [List.takeWhile_cons_of_neg (by simp [hp]), List.append_nil, hstarts.eq_of_length hall]
    · rfl
  constructor
  · rw [scanWhile, hrun]
    exact if_pos (by omega)
  · rw [hdrop, List.take_append_of_le_length hle]
    exact (List.prefix_iff_eq_take.mp hstarts).symm

theorem getLiteralLexeme_lexed (hunread : Unread after state.buffer state.cursor text) :
    Lexes after state (getLiteralLexeme state) (Tundra.getLiteralLexeme text) := by
  obtain ⟨hscan, hword⟩ := scanWhile_eq (show isAlnum 0 = false by decide) hunread
  have hle := (List.takeWhile_prefix (l := text) isAlnum).length_le
  rw [getLiteralLexeme, hscan, ok_bind, Tundra.getLiteralLexeme]
  dsimp only
  rw [Nat.add_sub_cancel_left, hword]
  split_ifs with htrue hnull hfalse
  · rw [htrue] at hle ⊢
    exact ⟨_, _, rfl, lexed_of_ne (.boolean true) (by simp) hunread hle⟩
  · rw [hnull] at hle ⊢
    exact ⟨_, _, rfl, lexed_of_ne .null (by simp) hunread hle⟩
  · rw [hfalse] at hle ⊢
    exact ⟨_, _, rfl, lexed_of_ne (.boolean false) (by simp) hunread hle⟩
  · exact ⟨_, _, rfl, lexed_error state state.buffer _⟩

theorem Lexes.oneByte {c : Prop} [Decidable c] (l : Lexeme) (hl : ∀ ptr, l ≠ .string ptr)
    (hunread : Unread after state.buffer state.cursor (ch :: text)) {b : Except MemoryFault (Lexeme × LexerState)}
    {b' : JsonLexeme × List UInt8} (hb : Lexes after state b b') :
    Lexes after state (if c then pure (l, state.advance) else b) (if c then (l.read state.buffer, text) else b') := by
  apply Lexes.ite
  · intro hc
    exact ⟨l, state.advance, rfl, lexed_of_ne l hl hunread (Nat.le_add_left 1 text.length)⟩
  · intro hc
    exact hb

theorem getLexeme_lexed (hstrtod : ∀ text, (strtod text).2 ≤ text.length)
    (hunread : Unread after state.buffer state.cursor text) :
    Lexes after state (state.getLexeme strtod) (Tundra.getLexeme strtod text) := by
  cases text with
  | nil =>
      obtain ⟨l, hdrop⟩ := hunread.drop_nil
      refine ⟨.eof, state, ?_, lexed_of_ne .eof (by simp) hunread (Nat.le_refl 0)⟩
      rw [LexerState.getLexeme, readByte_of_drop hdrop]
      rfl
  | cons ch text =>
      obtain ⟨l, hdrop⟩ := hunread.drop_eq
      rw [LexerState.getLexeme, readByte_of_drop hdrop, ok_bind, Tundra.getLexeme]
      apply Lexes.ite
      · intro hnumber
        exact getNumberLexeme_lexed hstrtod hunread
      intro hnumber
      apply Lexes.ite
      · intro hquote
        exact getStringLexeme_lexed hunread
      intro hquote
      apply Lexes.oneByte .beginObject (by simp) hunread
      apply Lexes.oneByte .endObject (by simp) hunread
      apply Lexes.oneByte .beginArray (by simp) hunread
      apply Lexes.oneByte .endArray (by simp) hunread
      apply Lexes.oneByte .valueSeparator (by simp) hunread
      apply Lexes.oneByte .nameSeparator (by simp) hunread
      rw [if_neg hunread.ne_zero]
      exact getLiteralLexeme_lexed hunread

end Lexer

end JsonMemory

end Tundra
