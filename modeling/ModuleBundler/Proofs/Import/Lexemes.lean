import ModuleBundler.Proofs.Import.RoundTrip
import Mathlib
/-!
The words and commas of a braced list.

The reader of a braced import list splits the text between the braces at commas, trims each
item and splits it at blanks. What it reads therefore depends only on the `lexemes` of that
text: its words, with each comma a word of its own. Texts cut at blanks or commas, trimmed or
spaced otherwise have the same lexemes, so the reader gives the same imports for them
(`ofClause_braced_congr`). A list the reader accepts holds between its braces only characters
of names, blanks and commas (`listChars_of_bracedList`).
-/

namespace ModuleBundler.Import

open ModuleBundler.Text ModuleBundler.Syntax

/-! ### Words and commas -/

/-- No piece of a split holds a character it was split at, and each of its characters is one of
the text's. -/
theorem mem_of_mem_splitOnP {α : Type} {p : α → Bool} :
    ∀ {t w : List α}, w ∈ t.splitOnP p → ∀ c ∈ w, c ∈ t ∧ p c = false
  | [], w, hw => by simp [List.splitOnP_nil] at hw; subst hw; simp
  | x :: xs, w, hw => by
    rw [List.splitOnP_cons_eq_if_modifyHead] at hw
    split at hw
    · rcases List.mem_cons.1 hw with rfl | hw
      · simp
      · exact fun c hc => ⟨List.mem_cons_of_mem _ (mem_of_mem_splitOnP hw c hc).1,
          (mem_of_mem_splitOnP hw c hc).2⟩
    · rename_i hx
      obtain ⟨r, rs, hr⟩ := List.exists_cons_of_ne_nil (List.splitOnP_ne_nil p xs)
      rw [hr, List.modifyHead_cons] at hw
      have hr' : ∀ v ∈ r :: rs, ∀ c ∈ v, c ∈ x :: xs ∧ p c = false := fun v hv c hc =>
        ⟨List.mem_cons_of_mem _ (mem_of_mem_splitOnP (hr ▸ hv) c hc).1,
          (mem_of_mem_splitOnP (hr ▸ hv) c hc).2⟩
      rcases List.mem_cons.1 hw with rfl | hw
      · intro c hc
        rcases List.mem_cons.1 hc with rfl | hc
        · exact ⟨List.mem_cons_self, by simpa using hx⟩
        · exact hr' r List.mem_cons_self c hc
      · exact hr' w (List.mem_cons_of_mem _ hw)

theorem mem_of_mem_words {e w : List Char} (hw : w ∈ words e) {c : Char} (hc : c ∈ w) :
    c ∈ e ∧ isBlank c = false :=
  mem_of_mem_splitOnP (List.mem_filter.1 hw).1 c hc

@[simp] theorem words_nil : words [] = [] := by
  simp [words, List.splitOnP_nil]

theorem words_cons_blank {b : Char} (hb : isBlank b = true) (x : List Char) :
    words (b :: x) = words x := by
  simpa using words_append_blank (x := []) (y := x) hb

theorem words_of_blank : ∀ {x : List Char}, (∀ c ∈ x, isBlank c = true) → words x = []
  | [], _ => words_nil
  | b :: x, h => by
    rw [words_cons_blank (h b List.mem_cons_self)]
    exact words_of_blank fun c hc => h c (List.mem_cons_of_mem _ hc)

theorem words_cons_ne_nil {c : Char} (hc : isBlank c = false) (x : List Char) :
    words (c :: x) ≠ [] := by
  obtain ⟨r, rs, hr⟩ := List.exists_cons_of_ne_nil (List.splitOnP_ne_nil isBlank x)
  simp [words, List.splitOnP_cons_eq_if_modifyHead, hc, hr]

theorem words_append_of_getLast {u w : List Char} (h : ∃ b ∈ u.getLast?, isBlank b = true) :
    words (u ++ w) = words u ++ words w := by
  obtain ⟨b, hb, hbl⟩ := h
  obtain ⟨u', rfl⟩ := List.getLast?_eq_some_iff.1 hb
  rw [List.append_assoc, List.singleton_append, words_append_blank hbl, words_append_blank hbl,
    words_nil, List.append_nil]

theorem words_append_of_head {u w : List Char} (h : ∃ b ∈ w.head?, isBlank b = true) :
    words (u ++ w) = words u ++ words w := by
  obtain ⟨b, hb, hbl⟩ := h
  obtain ⟨w', rfl⟩ := List.head?_eq_some_iff.1 hb
  rw [words_append_blank hbl, words_cons_blank hbl]

/-- A text with a blank on each side of every comma. -/
def spaceCommas (x : List Char) : List Char :=
  x.flatMap fun c => if c = ',' then [' ', ',', ' '] else [c]

/-- The words and commas of a text in order, each comma a word of its own. -/
def lexemes (x : List Char) : List (List Char) :=
  words (spaceCommas x)

/-- Two texts meet at a blank or a comma. -/
def Separated (u w : List Char) : Prop :=
  (∃ c ∈ u.getLast?, isBlank c = true ∨ c = ',') ∨ ∃ c ∈ w.head?, isBlank c = true ∨ c = ','

theorem spaceCommas_append (u w : List Char) :
    spaceCommas (u ++ w) = spaceCommas u ++ spaceCommas w :=
  List.flatMap_append

theorem spaceCommas_of_not_mem {x : List Char} (h : ',' ∉ x) : spaceCommas x = x := by
  induction x with
  | nil => rfl
  | cons c x ih =>
    have hc : c ≠ ',' := fun hc => h (hc ▸ List.mem_cons_self)
    simp only [spaceCommas, List.flatMap_cons, hc, if_false] at ih ⊢
    rw [ih fun hx => h (List.mem_cons_of_mem _ hx)]
    rfl

theorem getLast?_spaceCommas {u : List Char} (h : ∃ c ∈ u.getLast?, isBlank c = true ∨ c = ',') :
    ∃ b ∈ (spaceCommas u).getLast?, isBlank b = true := by
  obtain ⟨c, hc, hs⟩ := h
  obtain ⟨u', rfl⟩ := List.getLast?_eq_some_iff.1 hc
  rw [spaceCommas_append]
  rcases hs with hs | rfl
  · have hc : c ≠ ',' := by rintro rfl; exact absurd hs (by decide)
    exact ⟨c, by simp [spaceCommas, hc], hs⟩
  · exact ⟨' ', by simp [spaceCommas], by decide⟩

theorem head?_spaceCommas {w : List Char} (h : ∃ c ∈ w.head?, isBlank c = true ∨ c = ',') :
    ∃ b ∈ (spaceCommas w).head?, isBlank b = true := by
  obtain ⟨c, hc, hs⟩ := h
  obtain ⟨w', rfl⟩ := List.head?_eq_some_iff.1 hc
  rcases hs with hs | rfl
  · have hc : c ≠ ',' := by rintro rfl; exact absurd hs (by decide)
    exact ⟨c, by simp [spaceCommas, hc], hs⟩
  · exact ⟨' ', by simp [spaceCommas], by decide⟩

/-- Texts that meet at a blank or a comma have the words and commas of both, in order. -/
theorem lexemes_append {u w : List Char} (h : Separated u w) :
    lexemes (u ++ w) = lexemes u ++ lexemes w := by
  unfold lexemes
  rw [spaceCommas_append]
  rcases h with h | h
  · exact words_append_of_getLast (getLast?_spaceCommas h)
  · exact words_append_of_head (head?_spaceCommas h)

theorem separated_space (u w : List Char) : Separated u (' ' :: w) :=
  .inr ⟨' ', rfl, .inl (by decide)⟩

theorem separated_of_blank_left {u : List Char} (hne : u ≠ []) (h : ∀ c ∈ u, isBlank c = true)
    (w : List Char) : Separated u w :=
  .inl ⟨u.getLast hne, List.getLast?_eq_some_getLast hne, .inl (h _ (List.getLast_mem hne))⟩

theorem separated_of_blank_right {w : List Char} (hne : w ≠ []) (h : ∀ c ∈ w, isBlank c = true)
    (u : List Char) : Separated u w := by
  obtain ⟨c, w', rfl⟩ := List.exists_cons_of_ne_nil hne
  exact .inr ⟨c, rfl, .inl (h c List.mem_cons_self)⟩

theorem lexemes_of_blank {x : List Char} (h : ∀ c ∈ x, isBlank c = true) : lexemes x = [] := by
  have hx : ',' ∉ x := fun hc => absurd (h ',' hc) (by decide)
  rw [lexemes, spaceCommas_of_not_mem hx, words_of_blank h]

theorem lexemes_blank_append {t : List Char} (ht : ∀ c ∈ t, isBlank c = true) (w : List Char) :
    lexemes (t ++ w) = lexemes w := by
  cases t with
  | nil => rfl
  | cons b t' =>
    rw [lexemes_append (separated_of_blank_left (List.cons_ne_nil _ _) ht w), lexemes_of_blank ht,
      List.nil_append]

theorem lexemes_append_blank (u : List Char) {t : List Char} (ht : ∀ c ∈ t, isBlank c = true) :
    lexemes (u ++ t) = lexemes u := by
  cases t with
  | nil => rw [List.append_nil]
  | cons b t' =>
    rw [lexemes_append (separated_of_blank_right (List.cons_ne_nil _ _) ht u), lexemes_of_blank ht,
      List.append_nil]

theorem lexemes_space (u w : List Char) : lexemes (u ++ ' ' :: w) = lexemes u ++ lexemes w := by
  have hs : ∀ c ∈ [' '], isBlank c = true := by
    simp only [List.mem_singleton, forall_eq]
    decide
  rw [lexemes_append (separated_space u w), show ' ' :: w = [' '] ++ w from rfl,
    lexemes_blank_append hs]

/-- A text is the text without its trailing blanks, followed by them. -/
theorem eq_trimEnd_append_blanks (x : List Char) :
    ∃ t, x = trimEnd x ++ t ∧ ∀ c ∈ t, isBlank c = true := by
  refine ⟨((x.reverse).takeWhile isBlank).reverse, ?_, fun c hc => ?_⟩
  · have h := congrArg List.reverse (List.takeWhile_append_dropWhile (p := isBlank) (l := x.reverse))
    rw [List.reverse_append, List.reverse_reverse] at h
    rw [trimEnd]
    exact h.symm
  · simpa using List.mem_takeWhile_imp (List.mem_reverse.1 hc)

theorem lexemes_trimStart (x : List Char) : lexemes (trimStart x) = lexemes x := by
  have hb : ∀ c ∈ x.takeWhile isBlank, isBlank c = true := fun c hc => by
    simpa using List.mem_takeWhile_imp hc
  conv_rhs => rw [← List.takeWhile_append_dropWhile (p := isBlank) (l := x)]
  rw [lexemes_blank_append hb]
  rfl

theorem lexemes_trimEnd (x : List Char) : lexemes (trimEnd x) = lexemes x := by
  obtain ⟨t, ht, htb⟩ := eq_trimEnd_append_blanks x
  conv_rhs => rw [ht]
  rw [lexemes_append_blank _ htb]

/-- Trimming keeps the words and commas of a text. -/
theorem lexemes_trim (x : List Char) : lexemes (trim x) = lexemes x := by
  rw [trim, lexemes_trimEnd, lexemes_trimStart]

/-- The words and commas of pieces cut at blanks and commas are those of each piece in turn. -/
theorem lexemes_flatten : ∀ {xs : List (List Char)}, xs.IsChain Separated →
    lexemes xs.flatten = (xs.map lexemes).flatten
  | [], _ => rfl
  | [x], _ => by simp
  | x :: y :: ys, h => by
    rw [List.isChain_cons_cons] at h
    have hsep : Separated x (y :: ys).flatten := by
      rcases h.1 with hl | ⟨c, hc, hs⟩
      · exact .inl hl
      · obtain ⟨y', rfl⟩ := List.head?_eq_some_iff.1 hc
        exact .inr ⟨c, by simp, hs⟩
    rw [List.flatten_cons, lexemes_append hsep, lexemes_flatten h.2]
    rfl

/-- The words and commas of texts joined with a blank before each. -/
theorem lexemes_spaced (u : List Char) : ∀ ys : List (List Char),
    lexemes (u ++ (ys.map (' ' :: ·)).flatten) = lexemes u ++ (ys.map lexemes).flatten
  | [] => by simp
  | y :: ys => by
    rw [List.map_cons, List.flatten_cons, ← List.append_assoc, lexemes_spaced _ ys, lexemes_space,
      List.map_cons, List.flatten_cons, List.append_assoc]

/-- Pieces of a text joined by single spaces, the first trimmed at its end, the last at its
start and the others at both: the list of a broken statement as the reader joins its lines. -/
def joinedPieces (x : List Char) (ys : List (List Char)) (y : List Char) : List Char :=
  trimEnd x ++ ((ys.map trim ++ [trimStart y]).map (' ' :: ·)).flatten

/-- Joining the pieces of a text cut at blanks and commas keeps its words and commas. -/
theorem lexemes_joinedPieces {x y : List Char} {ys : List (List Char)}
    (h : (x :: ys ++ [y]).IsChain Separated) :
    lexemes (joinedPieces x ys y) = lexemes (x :: ys ++ [y]).flatten := by
  rw [joinedPieces, lexemes_spaced, lexemes_flatten h]
  simp [lexemes_trim, lexemes_trimStart, lexemes_trimEnd, Function.comp_def]

theorem lexemes_comma : lexemes [','] = [[',']] := by
  decide

/-- The words and commas of comma-free pieces written with commas between them. -/
theorem lexemes_intercalate : ∀ {es : List (List Char)}, (∀ e ∈ es, ',' ∉ e) →
    lexemes ([','].intercalate es) = [[',']].intercalate (es.map words)
  | [], _ => rfl
  | [e], h => by
    rw [List.intercalate_singleton, List.map_singleton, List.intercalate_singleton, lexemes,
      spaceCommas_of_not_mem (h e List.mem_cons_self)]
  | e :: e' :: es, h => by
    have hc : Separated [','] ([','].intercalate (e' :: es)) := .inl ⟨',', rfl, .inr rfl⟩
    rw [List.intercalate_cons_cons, List.map_cons, List.map_cons, List.intercalate_cons_cons,
      List.append_assoc, lexemes_append (.inr ⟨',', rfl, .inr rfl⟩), lexemes_append hc,
      lexemes_comma, lexemes, spaceCommas_of_not_mem (h e List.mem_cons_self), ← List.map_cons,
      lexemes_intercalate fun x hx => h x (List.mem_cons_of_mem _ hx), List.append_assoc]

theorem not_mem_of_mem_splitOn {x e : List Char} (he : e ∈ x.splitOn ',') : ',' ∉ e := by
  intro hc
  rw [List.splitOn_eq_splitOnP] at he
  have := (mem_of_mem_splitOnP he ',' hc).2
  simp at this

/-- The words and commas of a text are the words of its comma-separated pieces, a comma
between each two. -/
theorem lexemes_eq_intercalate (x : List Char) :
    lexemes x = [[',']].intercalate ((x.splitOn ',').map words) := by
  conv_lhs => rw [← show [','].intercalate (x.splitOn ',') = x from List.intercalate_splitOn ',']
  exact lexemes_intercalate fun e he => not_mem_of_mem_splitOn he

/-- The words and commas of a text give back the words of each comma-separated piece. -/
theorem splitOn_lexemes (x : List Char) :
    (lexemes x).splitOn [','] = (x.splitOn ',').map words := by
  rw [lexemes_eq_intercalate, List.splitOn_intercalate]
  · intro l hl hm
    obtain ⟨e, he, rfl⟩ := List.mem_map.1 hl
    exact not_mem_of_mem_splitOn he (mem_of_mem_words hm (List.mem_singleton_self ',')).1
  · simp

/-! ### Trimming and the items of a list -/

theorem trimStart_append_cons {b : Char} (hb : isBlank b = false) (u w : List Char) :
    trimStart (u ++ b :: w) = trimStart u ++ b :: w := by
  by_cases hu : ∃ c ∈ u, isBlank c = false
  · exact trimStart_append hu _
  · push Not at hu
    simp only [ne_eq, Bool.not_eq_false] at hu
    have hnil : trimStart u = [] := List.dropWhile_eq_nil_iff.2 hu
    rw [hnil, List.nil_append, trimStart, List.dropWhile_append_of_pos hu]
    simp [hb]

theorem trimEnd_append_cons {b : Char} (hb : isBlank b = false) (u w : List Char) :
    trimEnd (u ++ b :: w) = u ++ b :: trimEnd w := by
  have h := trimStart_append_cons hb w.reverse u.reverse
  unfold trimStart at h
  unfold trimEnd
  rw [List.reverse_append, List.reverse_cons, List.append_assoc, List.singleton_append, h]
  simp

theorem words_blank_append {t : List Char} (ht : ∀ c ∈ t, isBlank c = true) (w : List Char) :
    words (t ++ w) = words w := by
  cases t with
  | nil => rfl
  | cons b t' =>
    have hne : b :: t' ≠ [] := List.cons_ne_nil _ _
    rw [words_append_of_getLast ⟨_, List.getLast?_eq_some_getLast hne, ht _ (List.getLast_mem hne)⟩,
      words_of_blank ht, List.nil_append]

theorem words_append_blanks (u : List Char) {t : List Char} (ht : ∀ c ∈ t, isBlank c = true) :
    words (u ++ t) = words u := by
  cases t with
  | nil => rw [List.append_nil]
  | cons b t' =>
    rw [words_append_of_head ⟨b, rfl, ht b List.mem_cons_self⟩, words_of_blank ht, List.append_nil]

theorem words_trimStart (x : List Char) : words (trimStart x) = words x := by
  have hb : ∀ c ∈ x.takeWhile isBlank, isBlank c = true := fun c hc => by
    simpa using List.mem_takeWhile_imp hc
  conv_rhs => rw [← List.takeWhile_append_dropWhile (p := isBlank) (l := x)]
  rw [words_blank_append hb]
  rfl

theorem words_trim (x : List Char) : words (trim x) = words x := by
  obtain ⟨t, ht, htb⟩ := eq_trimEnd_append_blanks (trimStart x)
  rw [← words_trimStart x, ht, words_append_blanks _ htb]
  rfl

/-- A text has no words exactly when trimming leaves nothing of it. -/
theorem words_eq_nil_iff (x : List Char) : words x = [] ↔ trim x = [] := by
  constructor
  · intro h
    cases ht : trimStart x with
    | nil => rw [trim, ht]; rfl
    | cons c r =>
      -- a text that starts, after its blanks, with a character that is not blank has a word
      have hd : x.dropWhile isBlank = c :: r := ht
      have hc : isBlank c = false := by
        have := List.head_dropWhile_not isBlank (l := x) (by rw [hd]; simp)
        simpa [hd] using this
      have hw := words_trimStart x
      rw [ht] at hw
      exact absurd (hw.trans h) (words_cons_ne_nil hc r)
  · intro h
    rw [← words_trim, h, words_nil]

/-- The words of the items of a text are the words of its comma-separated pieces that have
some. -/
theorem map_words_commaItems (x : List Char) :
    (commaItems x).map words = ((x.splitOn ',').map words).filter (· ≠ []) := by
  unfold commaItems
  induction x.splitOn ',' with
  | nil => rfl
  | cons e es ih =>
    by_cases he : trim e = []
    · have hw : words e = [] := (words_eq_nil_iff e).2 he
      simp [he, hw, ih]
    · have hw : words e ≠ [] := fun h => he ((words_eq_nil_iff e).1 h)
      simp [he, hw, ih, words_trim]

theorem listEntry_congr {e e' : List Char} (h : words e = words e') : listEntry e = listEntry e' := by
  unfold listEntry
  rw [h]

/-- Reading entries looks at their words only. -/
theorem foldlM_addEntry_congr :
    ∀ {es es' : List (List Char)} (acc : List String × List (String × String)),
      es.map words = es'.map words → es.foldlM addEntry acc = es'.foldlM addEntry acc
  | [], [], _, _ => rfl
  | e :: es, e' :: es', acc, h => by
    simp only [List.map_cons, List.cons.injEq] at h
    have hstep : addEntry acc e = addEntry acc e' := by
      unfold addEntry
      rw [listEntry_congr h.1]
    rw [List.foldlM_cons, List.foldlM_cons, hstep]
    cases addEntry acc e' with
    | none => rfl
    | some acc' => exact foldlM_addEntry_congr acc' h.2
  | [], _ :: _, _, h => by simp at h
  | _ :: _, [], _, h => by simp at h

theorem trim_sublist (x : List Char) : (trim x).Sublist x := by
  obtain ⟨t, ht, -⟩ := eq_trimEnd_append_blanks (trimStart x)
  have h1 : (trim x).Sublist (trimStart x) := by
    rw [trim]
    conv_rhs => rw [ht]
    exact List.sublist_append_left _ _
  exact h1.trans (List.dropWhile_suffix _).sublist

theorem trimEnd_append_blanks (u : List Char) {t : List Char} (ht : ∀ c ∈ t, isBlank c = true) :
    trimEnd (u ++ t) = trimEnd u := by
  unfold trimEnd
  rw [List.reverse_append, List.dropWhile_append_of_pos (by simpa using ht)]

theorem trim_append_blanks (x : List Char) {t : List Char} (ht : ∀ c ∈ t, isBlank c = true) :
    trim (x ++ t) = trim x := by
  by_cases hx : ∃ c ∈ x, isBlank c = false
  · rw [trim, trimStart_append hx, trimEnd_append_blanks _ ht]
    rfl
  · push Not at hx
    simp only [ne_eq, Bool.not_eq_false] at hx
    have h1 : trimStart (x ++ t) = [] := List.dropWhile_eq_nil_iff.2 (by
      intro c hc
      rcases List.mem_append.1 hc with hc | hc
      · exact hx c hc
      · exact ht c hc)
    have h2 : trimStart x = [] := List.dropWhile_eq_nil_iff.2 hx
    rw [trim, trim, h1, h2]

theorem trimEnd_of_last {u : List Char} {b : Char} (hb : isBlank b = false) :
    trimEnd (u ++ [b]) = u ++ [b] := by
  rw [trimEnd_append_cons hb]
  rfl

/-! ### Braced clauses -/

/-- A braced list is read from the words and commas between its braces. -/
theorem bracedList_congr {x y : List Char} (h : lexemes x = lexemes y) :
    bracedList ('\x7b' :: (x ++ ['\x7d'])) = bracedList ('\x7b' :: (y ++ ['\x7d'])) := by
  have hw : (commaItems x).map words = (commaItems y).map words := by
    rw [map_words_commaItems, map_words_commaItems, ← splitOn_lexemes, ← splitOn_lexemes, h]
  rw [bracedList, bracedList, if_pos List.getLast?_concat, if_pos List.getLast?_concat,
    List.dropLast_concat, List.dropLast_concat]
  exact foldlM_addEntry_congr _ hw

theorem tight_braced (x : List Char) : Tight ('\x7b' :: (x ++ ['\x7d'])) := by
  refine ⟨List.cons_ne_nil _ _, ?_, ?_⟩
  · simp only [List.head?_cons, Option.mem_def, Option.some.injEq, forall_eq']
    decide
  · rw [← List.cons_append, List.getLast?_concat]
    simp only [Option.mem_def, Option.some.injEq, forall_eq']
    decide

theorem restOfClause_braced (x : List Char) (source : String) (line : Nat)
    (before : List Import) :
    restOfClause source line ('\x7b' :: (x ++ ['\x7d'])) before =
      (bracedList ('\x7b' :: (x ++ ['\x7d']))).map fun (names, aliases) =>
        before ++ [⟨.named, source, names, aliases, line⟩] := by
  have hn : namespaceName ('\x7b' :: (x ++ ['\x7d'])) = none := rfl
  simp only [restOfClause, List.isEmpty_cons, Bool.false_eq_true, if_false, hn]

/-- A braced clause, alone or after a default name and a comma, reads as its braced list after
the imports of what comes before it. -/
theorem ofClause_braced {pre : List Char}
    (hpre : pre = [] ∨ ∃ name, isIdentifier name = true ∧ pre = name ++ ", ".toList)
    (source : String) (line : Nat) : ∃ before, ∀ x,
      ofClause (pre ++ '\x7b' :: (x ++ ['\x7d'])) source line =
        restOfClause source line ('\x7b' :: (x ++ ['\x7d'])) before := by
  rcases hpre with rfl | ⟨name, hi, rfl⟩
  · exact ⟨[], fun _ => rfl⟩
  · exact ⟨_, fun x => ofClause_name_comma hi (tight_braced x) source line⟩

/-- A braced clause is read from the words and commas between its braces. -/
theorem ofClause_braced_congr {pre x y : List Char}
    (hpre : pre = [] ∨ ∃ name, isIdentifier name = true ∧ pre = name ++ ", ".toList)
    (h : lexemes x = lexemes y) (source : String) (line : Nat) :
    ofClause (pre ++ '\x7b' :: (x ++ ['\x7d'])) source line =
      ofClause (pre ++ '\x7b' :: (y ++ ['\x7d'])) source line := by
  obtain ⟨before, hb⟩ := ofClause_braced hpre source line
  rw [hb, hb, restOfClause_braced, restOfClause_braced, bracedList_congr h]

theorem bracedList_of_ofClause {pre x : List Char}
    (hpre : pre = [] ∨ ∃ name, isIdentifier name = true ∧ pre = name ++ ", ".toList)
    {source : String} {line : Nat} {v : List Import}
    (h : ofClause (pre ++ '\x7b' :: (x ++ ['\x7d'])) source line = some v) :
    ∃ r, bracedList ('\x7b' :: (x ++ ['\x7d'])) = some r := by
  obtain ⟨before, hb⟩ := ofClause_braced hpre source line
  rw [hb, restOfClause_braced] at h
  obtain ⟨r, hr, -⟩ := Option.map_eq_some_iff.1 h
  exact ⟨r, hr⟩

/-! ### What a braced list holds -/

/-- A character that a braced list the reader accepts may hold between its braces: a character
of a name, a blank or a comma. -/
def ListChar (c : Char) : Prop :=
  isIdentPart c = true ∨ isBlank c = true ∨ c = ','

theorem ListChar.spec {c : Char} (h : ListChar c) :
    c ≠ '\'' ∧ c ≠ '"' ∧ c ≠ '\x60' ∧ c ≠ '/' ∧ c ≠ '\x7b' ∧ c ≠ '\x7d' := by
  rcases h with h | h | rfl
  · obtain ⟨-, hq, -, h1, -, h2, h3, h4, -⟩ := isIdentPart_spec h
    simp only [isQuote, Bool.or_eq_false_iff, decide_eq_false_iff_not] at hq
    exact ⟨hq.1, hq.2, h2, h1, h3, h4⟩
  · refine ⟨?_, ?_, ?_, ?_, ?_, ?_⟩ <;> rintro rfl <;> exact absurd h (by decide)
  · decide

theorem listChar_quote_brace {c : Char} (h : ListChar c) : isQuote c = false ∧ c ≠ '\x7d' := by
  obtain ⟨h1, h2, -, -, -, h3⟩ := h.spec
  exact ⟨by simp [isQuote, h1, h2], h3⟩

/-- The middle lines of a broken statement each join it as their piece, trimmed. -/
theorem exists_mem_splitOnP {α : Type} {p : α → Bool} :
    ∀ {t : List α} {c : α}, c ∈ t → p c = false → ∃ w ∈ t.splitOnP p, c ∈ w
  | [], _, hc, _ => absurd hc List.not_mem_nil
  | x :: xs, c, hc, hp => by
    rw [List.splitOnP_cons_eq_if_modifyHead]
    split
    · rename_i hx
      have hcx : c ∈ xs := (List.mem_cons.1 hc).resolve_left (by rintro rfl; simp [hx] at hp)
      obtain ⟨w, hw, hcw⟩ := exists_mem_splitOnP hcx hp
      exact ⟨w, List.mem_cons_of_mem _ hw, hcw⟩
    · obtain ⟨r, rs, hr⟩ := List.exists_cons_of_ne_nil (List.splitOnP_ne_nil p xs)
      rw [hr, List.modifyHead_cons]
      rcases List.mem_cons.1 hc with rfl | hcx
      · exact ⟨_, List.mem_cons_self, List.mem_cons_self⟩
      · obtain ⟨w, hw, hcw⟩ := exists_mem_splitOnP hcx hp
        rw [hr] at hw
        rcases List.mem_cons.1 hw with rfl | hw
        · exact ⟨_, List.mem_cons_self, List.mem_cons_of_mem _ hcw⟩
        · exact ⟨w, List.mem_cons_of_mem _ hw, hcw⟩

theorem exists_word_of_mem {e : List Char} {c : Char} (hc : c ∈ e) (hb : isBlank c = false) :
    ∃ w ∈ words e, c ∈ w := by
  obtain ⟨w, hw, hcw⟩ := exists_mem_splitOnP hc hb
  refine ⟨w, List.mem_filter.2 ⟨hw, ?_⟩, hcw⟩
  cases w with
  | nil => exact absurd hcw List.not_mem_nil
  | cons => rfl

theorem mem_trim_of_not_blank {e : List Char} {c : Char} (hc : c ∈ e) (hb : isBlank c = false) :
    c ∈ trim e := by
  have hs : c ∈ trimStart e := by
    rw [← List.takeWhile_append_dropWhile (p := isBlank) (l := e)] at hc
    rcases List.mem_append.1 hc with hc | hc
    · have := List.mem_takeWhile_imp hc
      simp [hb] at this
    · exact hc
  obtain ⟨t, ht, htb⟩ := eq_trimEnd_append_blanks (trimStart e)
  rw [ht] at hs
  rcases List.mem_append.1 hs with hs | hs
  · exact hs
  · simp [htb c hs] at hb

theorem identParts_of_listEntry {e : List Char} {r : String × Option String}
    (h : listEntry e = some r) : ∀ w ∈ words e, ∀ c ∈ w, isIdentPart c = true := by
  unfold listEntry at h
  split at h
  · rename_i name hw
    split at h
    · rename_i hi
      intro w hw' c hc
      rw [hw, List.mem_singleton] at hw'
      subst hw'
      exact (isIdentPart_of_isIdentifier hi).2 c hc
    · cases h
  · rename_i member as name hw
    split at h
    · rename_i hi
      simp only [Bool.and_eq_true, decide_eq_true_eq] at hi
      obtain ⟨⟨rfl, hm⟩, hn⟩ := hi
      intro w hw' c hc
      rw [hw] at hw'
      simp only [List.mem_cons, List.not_mem_nil, or_false] at hw'
      rcases hw' with rfl | rfl | rfl
      · exact (isIdentPart_of_isIdentifier hm).2 c hc
      · simp only [show "as".toList = ['a', 's'] from rfl, List.mem_cons, List.not_mem_nil,
          or_false] at hc
        rcases hc with rfl | rfl <;> decide +kernel
      · exact (isIdentPart_of_isIdentifier hn).2 c hc
    · cases h
  · cases h

theorem isSome_listEntry_of_foldlM :
    ∀ {es : List (List Char)} {acc r : List String × List (String × String)},
      es.foldlM addEntry acc = some r → ∀ e ∈ es, (listEntry e).isSome
  | [], _, _, _ => fun _ he => absurd he List.not_mem_nil
  | e :: es, acc, r, h => by
    rw [List.foldlM_cons] at h
    cases ha : addEntry acc e with
    | none => rw [ha] at h; cases h
    | some a =>
      rw [ha] at h
      intro e' he'
      rcases List.mem_cons.1 he' with rfl | he'
      · unfold addEntry at ha
        cases hl : listEntry e' with
        | none => rw [hl] at ha; cases ha
        | some _ => rfl
      · exact isSome_listEntry_of_foldlM h e' he'

/-- Between the braces of a list the reader accepts there are only characters of names, blanks
and commas. -/
theorem listChars_of_bracedList {x : List Char} {r : List String × List (String × String)}
    (h : bracedList ('\x7b' :: (x ++ ['\x7d'])) = some r) : ∀ c ∈ x, ListChar c := by
  rw [bracedList, if_pos List.getLast?_concat, List.dropLast_concat] at h
  intro c hc
  by_cases hcomma : c = ','
  · exact .inr (.inr hcomma)
  by_cases hb : isBlank c = true
  · exact .inr (.inl hb)
  simp only [Bool.not_eq_true] at hb
  -- the character lies in a comma-separated piece, and in that piece's item, which has a reading
  obtain ⟨e, he, hce⟩ := exists_mem_splitOnP (p := (· == ',')) hc (by simpa using hcomma)
  have hct := mem_trim_of_not_blank hce hb
  have hitem : trim e ∈ commaItems x := by
    refine List.mem_filter.2 ⟨List.mem_map.2 ⟨e, by rwa [List.splitOn_eq_splitOnP], rfl⟩, ?_⟩
    cases ht : trim e with
    | nil => rw [ht] at hct; exact absurd hct List.not_mem_nil
    | cons => rfl
  obtain ⟨r', hr'⟩ := Option.isSome_iff_exists.1 (isSome_listEntry_of_foldlM h _ hitem)
  obtain ⟨w, hw, hcw⟩ := exists_word_of_mem hct hb
  exact .inl (identParts_of_listEntry hr' w hw c hcw)

theorem listChars_of_defaultPart {pre : List Char}
    (hpre : pre = [] ∨ ∃ name, isIdentifier name = true ∧ pre = name ++ ", ".toList) :
    ∀ c ∈ pre, ListChar c := by
  rcases hpre with rfl | ⟨name, hi, rfl⟩
  · simp
  · intro c hc
    rcases List.mem_append.1 hc with hc | hc
    · exact .inl ((isIdentPart_of_isIdentifier hi).2 c hc)
    · simp only [show ", ".toList = [',', ' '] from rfl, List.mem_cons, List.not_mem_nil,
        or_false] at hc
      rcases hc with rfl | rfl
      · exact .inr (.inr rfl)
      · exact .inr (.inl (by decide))

end ModuleBundler.Import
