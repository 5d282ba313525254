import ModuleBundler.Import.Statement
import Mathlib
/-!
Texts as the import reader sees them.

No character of an identifier is a blank, a quote, a comma, a brace or a star. Trimming leaves
alone a text that neither starts nor ends with a blank (a tight text), and tight items written
with `, ` between them and single spaces around them split back into those items.
-/

namespace ModuleBundler.Import

open ModuleBundler.Text ModuleBundler.Syntax

/-! ### Characters of identifiers -/

/-- The White_Space code points. -/
def blankCodes : List Nat :=
  [0x9, 0xA, 0xB, 0xC, 0xD, 0x20, 0x85, 0xA0, 0x1680, 0x2000, 0x2001, 0x2002, 0x2003, 0x2004,
    0x2005, 0x2006, 0x2007, 0x2008, 0x2009, 0x200A, 0x2028, 0x2029, 0x202F, 0x205F, 0x3000]

theorem toNat_mem_blankCodes {c : Char} (h : isBlank c = true) : c.toNat ∈ blankCodes := by
  simp only [isBlank, Bool.or_eq_true, Bool.and_eq_true, decide_eq_true_eq, beq_iff_eq] at h
  have hv : c.toNat = c.val.toNat := rfl
  simp only [UInt32.le_iff_toNat_le, UInt32.ext_iff] at h
  simp only [blankCodes, List.mem_cons, List.not_mem_nil, or_false, hv]
  simp at h
  omega

/-- No blank is a word character. -/
theorem isWordChar_of_isBlank {c : Char} (h : isBlank c = true) : isWordChar c = false := by
  have hw : ∀ n ∈ blankCodes, inRanges wordRanges n = false := by decide +kernel
  exact hw _ (toNat_mem_blankCodes h)

theorem isIdentPart_of_isBlank {c : Char} (h : isBlank c = true) : isIdentPart c = false := by
  have hd : c ≠ '$' := by rintro rfl; exact absurd h (by decide)
  simp [isIdentPart, isWordChar_of_isBlank h, hd]

/-- Every character that may start a name may continue one. -/
theorem isIdentPart_of_isIdentStart {c : Char} (h : isIdentStart c = true) : isIdentPart c = true := by
  have hc : c.toNat ∈ List.range' 0x41 26 ++ List.range' 0x61 26 ++ [0x5F] ∨ c = '$' := by
    simp only [isIdentStart, Bool.or_eq_true, Bool.and_eq_true, decide_eq_true_eq] at h
    have hv : c.toNat = c.val.toNat := rfl
    simp only [Char.le_def, UInt32.le_iff_toNat_le] at h
    rcases h with ((h | h) | h) | h
    · left; simp only [List.mem_append, List.mem_range'_1, List.mem_singleton, hv]; simp at h; omega
    · left; simp only [List.mem_append, List.mem_range'_1, List.mem_singleton, hv]; simp at h; omega
    · left; subst h; decide
    · right; exact h
  have hw : ∀ n ∈ List.range' 0x41 26 ++ List.range' 0x61 26 ++ [0x5F], inRanges wordRanges n = true := by
    decide +kernel
  rcases hc with hc | rfl
  · simp [isIdentPart, isWordChar, hw _ hc]
  · rfl

/-- No character of a name is a blank, a quote, a comma, a slash, a backslash, a backtick, a
brace or a star. -/
theorem isIdentPart_spec {c : Char} (h : isIdentPart c = true) :
    isBlank c = false ∧ isQuote c = false ∧ c ≠ ',' ∧ c ≠ '/' ∧ c ≠ '\\' ∧ c ≠ '\x60' ∧
      c ≠ '\x7b' ∧ c ≠ '\x7d' ∧ c ≠ '*' := by
  have hb : isBlank c = false := by
    cases hb : isBlank c
    · rfl
    · rw [isIdentPart_of_isBlank hb] at h; cases h
  refine ⟨hb, ?_, ?_, ?_, ?_, ?_, ?_, ?_, ?_⟩
  · simp only [isQuote, Bool.or_eq_false_iff, decide_eq_false_iff_not]
    constructor <;> rintro rfl <;> exact absurd h (by decide +kernel)
  all_goals rintro rfl; exact absurd h (by decide +kernel)

@[simp] theorem isIdentifier_nil : isIdentifier [] = false := rfl

theorem isIdentifier_cons {c : Char} {rest : List Char} :
    isIdentifier (c :: rest) = true ↔ isIdentStart c = true ∧ ∀ x ∈ rest, isIdentPart x = true := by
  by_cases hc : isIdentStart c = true
  · simp only [isIdentifier, identLength, hc, if_true, List.length_cons, ne_eq, Nat.add_one_ne_zero,
      not_false_eq_true, decide_true, Nat.add_right_cancel_iff, Bool.true_and, decide_eq_true_eq,
      true_and]
    constructor
    · intro h
      exact List.takeWhile_eq_self_iff.1 (List.IsPrefix.eq_of_length (List.takeWhile_prefix _) h)
    · intro h
      rw [List.takeWhile_eq_self_iff.2 h]
  · simp [isIdentifier, identLength, hc]

/-! ### Trimming -/

theorem trimStart_of_head {cs : List Char} (h : ∀ c ∈ cs.head?, isBlank c = false) :
    trimStart cs = cs := by
  cases cs with
  | nil => rfl
  | cons c rest => simp [trimStart, h c rfl]

theorem trimEnd_of_getLast {cs : List Char} (h : ∀ c ∈ cs.getLast?, isBlank c = false) :
    trimEnd cs = cs := by
  have hr := @trimStart_of_head cs.reverse (by simpa [List.head?_reverse] using h)
  rw [trimStart] at hr
  rw [trimEnd, hr, List.reverse_reverse]

theorem trim_of_ends {cs : List Char} (h₁ : ∀ c ∈ cs.head?, isBlank c = false)
    (h₂ : ∀ c ∈ cs.getLast?, isBlank c = false) : trim cs = cs := by
  rw [trim, trimStart_of_head h₁, trimEnd_of_getLast h₂]

theorem trimStart_append {x : List Char} (hx : ∃ c ∈ x, isBlank c = false) (y : List Char) :
    trimStart (x ++ y) = trimStart x ++ y := by
  have hne : (x.dropWhile isBlank).isEmpty = false := by
    obtain ⟨c, hc, hb⟩ := hx
    rw [List.isEmpty_eq_false_iff, ne_eq, List.dropWhile_eq_nil_iff]
    intro h
    simp [h c hc] at hb
  simp only [trimStart, List.dropWhile_append, hne, if_false, Bool.false_eq_true]

/-- Dropping the leading blanks of a text that ends with a character that is not blank keeps
that character at the end. -/
theorem trimStart_append_singleton {v : List Char} {b : Char} (hb : isBlank b = false) :
    ∃ w, trimStart (v ++ [b]) = w ++ [b] := by
  by_cases hv : ∃ c ∈ v, isBlank c = false
  · exact ⟨trimStart v, trimStart_append hv [b]⟩
  · push Not at hv
    refine ⟨[], ?_⟩
    simp only [trimStart, List.dropWhile_append_of_pos (fun a ha => by simpa using hv a ha)]
    simp [hb]

/-! ### Words and comma-separated items -/

theorem words_append_blank {x y : List Char} {b : Char} (hb : isBlank b = true) :
    words (x ++ b :: y) = words x ++ words y := by
  simp only [words, List.splitOnP_append_cons x y hb, List.filter_append]

theorem words_of_forall {x : List Char} (hne : x ≠ []) (hx : ∀ c ∈ x, isBlank c = false) :
    words x = [x] := by
  simp [words, List.splitOnP_eq_singleton hx, hne]

theorem commaItems_append_comma (x y : List Char) :
    commaItems (x ++ ',' :: y) = commaItems x ++ commaItems y := by
  simp only [commaItems, List.splitOn_append_cons_self, List.map_append, List.filter_append]

theorem commaItems_of_not_mem {x : List Char} (hx : ',' ∉ x) :
    commaItems x = if trim x = [] then [] else [trim x] := by
  simp only [commaItems, List.splitOn_eq_singleton hx, List.map_cons, List.map_nil]
  split <;> simp_all

theorem trimEnd_append_blank {x : List Char} {b : Char} (hb : isBlank b = true) :
    trimEnd (x ++ [b]) = trimEnd x := by
  simp [trimEnd, hb]

/-- A text that is not empty and neither starts nor ends with a blank. -/
def Tight (e : List Char) : Prop :=
  e ≠ [] ∧ (∀ c ∈ e.head?, isBlank c = false) ∧ ∀ c ∈ e.getLast?, isBlank c = false

theorem Tight.trim_eq {e : List Char} (h : Tight e) : trim e = e :=
  trim_of_ends h.2.1 h.2.2

theorem Tight.exists_not_blank {e : List Char} (h : Tight e) : ∃ c ∈ e, isBlank c = false := by
  obtain ⟨c, cs, rfl⟩ := List.exists_cons_of_ne_nil h.1
  exact ⟨c, List.mem_cons_self, h.2.1 c rfl⟩

theorem Tight.trim_space_cons {e : List Char} (h : Tight e) : trim (' ' :: e) = e := by
  have hs : trimStart (' ' :: e) = trimStart e := by simp [trimStart, show isBlank ' ' = true by decide]
  rw [trim, hs, ← trim, h.trim_eq]

theorem Tight.trim_spaced {e : List Char} (h : Tight e) : trim (' ' :: e ++ [' ']) = e := by
  have hs : trimStart (' ' :: e ++ [' ']) = trimStart e ++ [' '] := by
    rw [List.cons_append]
    simp only [trimStart, List.dropWhile_cons, show isBlank ' ' = true by decide, if_true]
    exact trimStart_append h.exists_not_blank [' ']
  rw [trim, hs, trimEnd_append_blank (by decide), ← trim, h.trim_eq]

/-- The items of a list written `e₁, e₂, …` between single spaces are the entries. -/
theorem commaItems_spaced : ∀ es : List (List Char), (∀ e ∈ es, Tight e ∧ ',' ∉ e) →
    commaItems (' ' :: ", ".toList.intercalate es ++ [' ']) = es
  | [], _ => by
    rw [commaItems_of_not_mem (by decide)]
    rfl
  | [e], h => by
    have he := h e List.mem_cons_self
    rw [List.intercalate_singleton, commaItems_of_not_mem (by simpa using he.2),
      he.1.trim_spaced, if_neg he.1.1]
  | e :: e' :: es, h => by
    have he := h e List.mem_cons_self
    have hsplit : ' ' :: ", ".toList.intercalate (e :: e' :: es) ++ [' '] =
        (' ' :: e) ++ ',' :: (' ' :: ", ".toList.intercalate (e' :: es) ++ [' ']) := by
      rw [List.intercalate_cons_cons]
      simp
    rw [hsplit, commaItems_append_comma, commaItems_of_not_mem (by simpa using he.2),
      he.1.trim_space_cons, if_neg he.1.1,
      commaItems_spaced (e' :: es) (fun x hx => h x (List.mem_cons_of_mem _ hx))]
    rfl

theorem Tight.append {x y : List Char} (hx : Tight x) (hy : Tight y) (m : List Char) :
    Tight (x ++ m ++ y) := by
  obtain ⟨c, cs, rfl⟩ := List.exists_cons_of_ne_nil hx.1
  refine ⟨by simp, fun b hb => hx.2.1 b (by simpa using hb), ?_⟩
  rw [List.getLast?_append_of_ne_nil _ hy.1]
  exact hy.2.2

/-! ### Names as texts -/

theorem isIdentPart_of_isIdentifier {cs : List Char} (h : isIdentifier cs = true) :
    cs ≠ [] ∧ ∀ c ∈ cs, isIdentPart c = true := by
  cases cs with
  | nil => simp at h
  | cons c rest =>
    obtain ⟨hc, hr⟩ := isIdentifier_cons.1 h
    refine ⟨List.cons_ne_nil _ _, fun x hx => ?_⟩
    rcases List.mem_cons.1 hx with rfl | hx
    · exact isIdentPart_of_isIdentStart hc
    · exact hr x hx

/-- A name is a tight text without blanks or commas. -/
theorem tight_of_isIdentifier {cs : List Char} (h : isIdentifier cs = true) :
    Tight cs ∧ (∀ c ∈ cs, isBlank c = false) ∧ ',' ∉ cs := by
  obtain ⟨hne, hp⟩ := isIdentPart_of_isIdentifier h
  have hb : ∀ c ∈ cs, isBlank c = false := fun c hc => (isIdentPart_spec (hp c hc)).1
  refine ⟨⟨hne, fun c hc => hb c (List.mem_of_mem_head? hc),
    fun c hc => hb c (List.mem_of_getLast? hc)⟩, hb, fun hc => ?_⟩
  exact (isIdentPart_spec (hp ',' hc)).2.2.1 rfl

theorem head_not_open {n : List Char} (hi : isIdentifier n = true) :
    ∃ c cs, n = c :: cs ∧ (c = '\x7b' || c = '*') = false := by
  obtain ⟨hne, hp⟩ := isIdentPart_of_isIdentifier hi
  obtain ⟨c, cs, rfl⟩ := List.exists_cons_of_ne_nil hne
  obtain ⟨-, -, -, -, -, -, h1, -, h2⟩ := isIdentPart_spec (hp c List.mem_cons_self)
  exact ⟨c, cs, rfl, by simp [h1, h2]⟩

end ModuleBundler.Import
