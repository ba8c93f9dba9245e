import Tundra.Lua.StringRuns

/-!
# Quoting twice

`Quote` on a text that is in quotation marks takes away one backslash in front of the last mark, and no more. A
text is quoted for good the first time exactly if there is no second backslash to take.
-/

namespace Tundra

namespace StringBuffer

variable {b : StringBuffer} {text front : List UInt8} {ch : UInt8}

/-- A text between quotation marks, which can be one and the same. -/
def InQuotes (text : List UInt8) : Prop := text.head? = some 34 ∧ text.getLast? = some 34

theorem suffix_concat_iff (pre : List UInt8) : pre ++ [ch] <:+ front ++ [ch] ↔ pre <:+ front := by
  constructor
  · rintro ⟨rest, hrest⟩
    rw [← List.append_assoc] at hrest
    exact ⟨rest, List.append_cancel_right hrest⟩
  · rintro ⟨rest, rfl⟩
    exact ⟨rest, (List.append_assoc _ _ _).symm⟩

theorem singleton_suffix_iff : [ch] <:+ text ↔ text.getLast? = some ch := by
  rw [List.getLast?_eq_some_iff]
  constructor
  · rintro ⟨rest, hrest⟩
    exact ⟨rest, hrest.symm⟩
  · rintro ⟨rest, hrest⟩
    exact ⟨rest, hrest.symm⟩

/-- The second byte from the end, as `Quote` looks at it. -/
theorem backslash_suffix_iff (hlast : text.getLast? = some 34) :
    [92, 34] <:+ text ↔ 1 < text.length ∧ text[text.length - 2]? = some 92 := by
  obtain ⟨front, rfl⟩ := List.getLast?_eq_some_iff.mp hlast
  rw [show ([92, 34] : List UInt8) = [92] ++ [34] from rfl, suffix_concat_iff, singleton_suffix_iff,
    List.getLast?_eq_getElem?,
    List.length_append, List.length_singleton]
  cases front with
  | nil => simp
  | cons first front =>
      rw [List.getElem?_append_left (by rw [List.length_cons]; omega), List.length_cons]
      simp

theorem take_of_concat {last : List UInt8} (h : front ++ last = text) (hlast : last.length = 2) :
    text.take (text.length - 2) = front := by
  rw [← h, List.length_append, hlast, Nat.add_sub_cancel]
  exact List.take_left

/-- A text in quotation marks loses at most one backslash. -/
theorem contents_quote_of_inQuotes (h : InQuotes b.contents) :
    b.quote.contents = if [92, 34] <:+ b.contents then b.contents.take (b.contents.length - 2) ++ [34]
    else b.contents := by
  have huncovered : ¬(b.heap ≠ [] ∧ b.internal ≠ [] ∧ b.contents = [92]) := by
    rintro ⟨-, -, hcontents⟩
    rw [InQuotes, hcontents] at h
    exact absurd h.1 (by decide)
  rw [(BufferOp.quote_iff b).mpr huncovered, BufferOp.quoted]
  unfold InQuotes at h
  rw [if_pos h]
  simp only [backslash_suffix_iff h.2]

theorem contents_quote_of_not_inQuotes (h : ¬InQuotes b.contents) :
    b.quote.contents = 34 :: b.dropBackslash.contents.flatMap doubled ++ [34] := by
  unfold InQuotes at h
  rw [quote, if_neg h, contents_add, contents_prepend, BufferOp.contents_prepQuoteCommon, List.singleton_append]

theorem inQuotes_quote (b : StringBuffer) : InQuotes b.quote.contents := by
  by_cases h : InQuotes b.contents
  · rw [contents_quote_of_inQuotes h]
    split_ifs with hsuffix
    · obtain ⟨front, hfront⟩ := hsuffix
      have hhead : front.head? = some 34 := by
        rw [InQuotes, ← hfront] at h
        cases front with
        | nil => exact absurd h.1 (by decide)
        | cons first front => exact h.1
      rw [take_of_concat hfront rfl]
      exact ⟨by rw [List.head?_append, hhead]; rfl, List.getLast?_concat⟩
    · exact h
  · rw [contents_quote_of_not_inQuotes h]
    exact ⟨rfl, List.getLast?_concat⟩

/-- A quoted text changes exactly if there is a backslash to take away. -/
theorem contents_quote_eq_iff (h : InQuotes b.contents) : b.quote.contents = b.contents ↔ ¬[92, 34] <:+ b.contents := by
  rw [contents_quote_of_inQuotes h]
  split_ifs with hsuffix
  · refine iff_of_false (fun heq => ?_) (not_not_intro hsuffix)
    have hlength := congrArg List.length heq
    have hlong := hsuffix.length_le
    simp only [List.length_append, List.length_take, List.length_cons, List.length_nil] at hlength hlong
    omega
  · exact iff_of_true rfl hsuffix

theorem getLast_flatMap_doubled (text : List UInt8) : (text.flatMap doubled).getLast? = text.getLast? := by
  induction text using List.reverseRecOn with
  | nil => rfl
  | append_singleton text ch _ =>
      rw [List.flatMap_append, List.flatMap_singleton, List.getLast?_concat, List.getLast?_append, doubled]
      split_ifs with hch
      · rw [hch]
        rfl
      · rfl

theorem getLast_withoutBackslash_iff (text : List UInt8) :
    (BufferOp.withoutBackslash text).getLast? = some 92 ↔ [92, 92] <:+ text := by
  rw [BufferOp.withoutBackslash]
  split_ifs with hlast
  · obtain ⟨front, rfl⟩ := List.getLast?_eq_some_iff.mp hlast
    rw [List.dropLast_concat, show ([92, 92] : List UInt8) = [92] ++ [92] from rfl, suffix_concat_iff,
      singleton_suffix_iff]
  · refine iff_of_false hlast fun hsuffix => hlast ?_
    exact singleton_suffix_iff.mp ((List.suffix_append [92] [92]).trans hsuffix)

/-- A text whose quoted form still has a backslash in front of the last mark: two backslashes end it, or stand
in front of its own last mark. When the one backslash of a text on the heap goes, the bytes in the object are
the text. -/
def EndsInBackslashes (b : StringBuffer) : Prop :=
  if b.heap ≠ [] ∧ b.contents = [92] then [92] <:+ b.internal
  else [92, 92] <:+ b.contents ∨ b.contents.head? = some 34 ∧ [92, 92, 34] <:+ b.contents

theorem backslash_suffix_quote_iff (b : StringBuffer) : [92, 34] <:+ b.quote.contents ↔ b.EndsInBackslashes := by
  rw [EndsInBackslashes]
  by_cases h : InQuotes b.contents
  · have hcontents : b.contents ≠ [92] := by
      intro heq
      rw [InQuotes, heq] at h
      exact absurd h.1 (by decide)
    have hends : ¬[92, 92] <:+ b.contents := by
      intro hsuffix
      have hlast := singleton_suffix_iff.mp ((List.suffix_append [92] [92]).trans hsuffix)
      rw [h.2] at hlast
      cases hlast
    rw [if_neg fun hboth => hcontents hboth.2, contents_quote_of_inQuotes h, or_iff_right hends, and_iff_right h.1]
    split_ifs with hsuffix
    · obtain ⟨front, hfront⟩ := hsuffix
      have hlong : [92, 92, 34] <:+ front ++ [92, 34] ↔ [92] <:+ front := by
        rw [show front ++ [92, 34] = (front ++ [92]) ++ [34] by rw [List.append_assoc]; rfl]
        exact (suffix_concat_iff [92, 92]).trans (suffix_concat_iff [92])
      rw [take_of_concat hfront rfl, ← hfront, hlong]
      exact suffix_concat_iff [92]
    · exact iff_of_false hsuffix fun hlonger => hsuffix ((List.suffix_append [92] [92, 34]).trans hlonger)
  · have hquoted : ¬(b.contents.head? = some 34 ∧ [92, 92, 34] <:+ b.contents) := by
      rintro ⟨hhead, hsuffix⟩
      exact h ⟨hhead, singleton_suffix_iff.mp ((List.suffix_append [92, 92] [34]).trans hsuffix)⟩
    have hlast : [92, 34] <:+ b.quote.contents ↔ b.dropBackslash.contents.getLast? = some 92 := by
      rw [contents_quote_of_not_inQuotes h, show ([92, 34] : List UInt8) = [92] ++ [34] from rfl, suffix_concat_iff,
        singleton_suffix_iff,
        ← getLast_flatMap_doubled b.dropBackslash.contents]
      cases b.dropBackslash.contents.flatMap doubled with
      | nil => decide
      | cons first rest => rw [List.getLast?_cons_cons]
    rw [hlast, BufferOp.contents_dropBackslash, or_iff_left hquoted]
    split_ifs
    · exact singleton_suffix_iff.symm
    · exact getLast_withoutBackslash_iff _

end StringBuffer

theorem HoldsBuffer.quote_quote {m : StringMemory} {b : StringBuffer} (h : HoldsBuffer m b) :
    ∃ m₁ m₂, m.quote = some m₁ ∧ m₁.quote = some m₂ ∧ (m₂.contents = m₁.contents ↔ ¬b.EndsInBackslashes) := by
  obtain ⟨m₁, hquote₁, h₁⟩ := h.quote
  obtain ⟨m₂, hquote₂, h₂⟩ := h₁.quote
  refine ⟨m₁, m₂, hquote₁, hquote₂, ?_⟩
  rw [h₁.contents, h₂.contents, Option.some.injEq, StringBuffer.contents_quote_eq_iff (StringBuffer.inQuotes_quote b),
    StringBuffer.backslash_suffix_quote_iff]

/-- A buffer that was filled once has its bytes in one place. -/
theorem internal_of_added {text : List UInt8} (h : (StringBuffer.empty.add text).heap ≠ []) :
    (StringBuffer.empty.add text).internal = [] := by
  rw [StringBuffer.add, StringBuffer.grown] at h ⊢
  split_ifs at h ⊢
  · exact absurd rfl h
  · rfl

/-- A text is quoted once and for all exactly if two backslashes do not end it, or stand in front of the mark
that ends a text in quotation marks. -/
theorem quote_idempotent_iff (internal : Block UInt8 kInternalBufferSize) (text : List UInt8) :
    ∃ m m₁ m₂, (StringMemory.init internal).add text = some m ∧ m.contents = some text ∧ m.quote = some m₁ ∧
    m₁.quote = some m₂ ∧
      (m₂.contents = m₁.contents ↔ ¬([92, 92] <:+ text ∨ text.head? = some 34 ∧ [92, 92, 34] <:+ text)) := by
  obtain ⟨m, hadd, hm⟩ := (HoldsBuffer.init internal).add text
  obtain ⟨m₁, m₂, hquote₁, hquote₂, hiff⟩ := hm.quote_quote
  have hcontents : (StringBuffer.empty.add text).contents = text := StringBuffer.contents_add _ _
  have hends : (StringBuffer.empty.add text).EndsInBackslashes ↔ [92, 92] <:+ text ∨ text.head? = some 34 ∧
    [92, 92, 34] <:+ text := by
    rw [StringBuffer.EndsInBackslashes, hcontents]
    split_ifs with hboth
    · rw [internal_of_added hboth.1, hboth.2]
      decide
    · rfl
  rw [hends] at hiff
  exact ⟨m, m₁, m₂, hadd, hm.contents.trans (congrArg some hcontents), hquote₁, hquote₂, hiff⟩

/-- `a\\` in quotation marks still ends in a backslash, and loses it when it is quoted again. -/
theorem quote_quote_backslashes :
    ¬∀ (internal : Block UInt8 kInternalBufferSize) (text : List UInt8) (m m₁ m₂ : StringMemory), 0 ∉ text →
    (StringMemory.init internal).add text = some m → m.quote = some m₁ → m₁.quote = some m₂ →
    m₂.contents = m₁.contents := by
  intro h
  obtain ⟨m, hadd, hm⟩ := (HoldsBuffer.init zeroedInternal).add [97, 92, 92]
  obtain ⟨m₁, m₂, hquote₁, hquote₂, hiff⟩ := hm.quote_quote
  have hends : (StringBuffer.empty.add [97, 92, 92]).EndsInBackslashes := by
    rw [StringBuffer.EndsInBackslashes]
    decide
  exact absurd hends (hiff.mp (h _ _ m m₁ m₂ (by decide) hadd hquote₁ hquote₂))

end Tundra
