import ModuleBundler.Proofs.Import.Lexemes
import ModuleBundler.Proofs.Module.Reading
import ModuleBundler.Module.Parser
import Mathlib
/-!
An import statement broken over several lines.

The reader joins an import statement whose braces are still open with the lines after it, each
trimmed and without its trailing line comment, until the text is a whole statement. A braced
statement broken at blanks and commas inside its braces, with a line comment at the end of any
of its lines, is read as the statement on one line, and exactly its lines are taken
(`importItem_broken_statement`). The comment after the statement is cut off only when the
specifier leaves no backslash escape open: in `'x\'` the closing quote is escaped, the comment
stays in the text and the statement is refused (`escaped_quote_before_comment`).
-/

namespace ModuleBundler

open Text Syntax Import

namespace Syntax

/-! ### Cutting a trailing comment -/

/-- No quote, backtick or slash: a text in which no string or comment starts. -/
def Unmarked (x : List Char) : Prop :=
  ∀ c ∈ x, c ≠ '\'' ∧ c ≠ '"' ∧ c ≠ '\x60' ∧ c ≠ '/'

theorem cutComment_unmarked {whole : List Char} : ∀ {x : List Char} (pre r : List Char), Unmarked x →
    cutComment whole pre none (x ++ r) = cutComment whole (x.reverse ++ pre) none r
  | [], pre, r, _ => rfl
  | c :: x, pre, r, h => by
    obtain ⟨h1, h2, h3, h4⟩ := h c List.mem_cons_self
    rw [List.cons_append, cutComment]
    simp only [h1, h2, h3, h4, false_and, or_self, if_false]
    rw [cutComment_unmarked (c :: pre) r (fun d hd => h d (List.mem_cons_of_mem _ hd))]
    simp

theorem cutComment_lineComment (whole pre t : List Char) :
    cutComment whole pre none ('/' :: '/' :: t) = trimEnd pre.reverse := by
  rw [cutComment]
  simp

theorem cutComment_open (whole pre r : List Char) :
    cutComment whole pre none ('\'' :: r) = cutComment whole ('\'' :: pre) (some '\'') r := by
  rw [cutComment.eq_def]
  simp

/-- Whether a quoted text leaves no escape open: read from the left, each backslash takes the
character after it, and the last backslash has one. -/
def escapesClosed : List Char → Bool
  | [] => true
  | ['\\'] => false
  | '\\' :: _ :: rest => escapesClosed rest
  | _ :: rest => escapesClosed rest

/-- Inside a string a backslash takes the character after it. -/
theorem cutComment_escape (whole pre : List Char) (q d : Char) (rest : List Char) :
    cutComment whole pre (some q) ('\\' :: d :: rest) =
      cutComment whole (d :: '\\' :: pre) (some q) rest := by
  rw [cutComment.eq_def]
  simp

theorem cutComment_quoted {c q : Char} (hb : c ≠ '\\') (hcq : c ≠ q) (whole pre rest : List Char) :
    cutComment whole pre (some q) (c :: rest) = cutComment whole (c :: pre) (some q) rest := by
  rw [cutComment.eq_def]
  simp [hb, hcq]

theorem ne_backslash_of_unescaped {c : Char} {rest : List Char} (hc : c = '\\' → rest = [] → False)
    (hc' : ∀ d rest', c = '\\' → rest = d :: rest' → False) : c ≠ '\\' := by
  intro hb
  cases rest with
  | nil => exact hc hb rfl
  | cons d rest => exact hc' d rest hb rfl

theorem cutComment_closing {whole : List Char} {q : Char} (hq : q ≠ '\\') (s : List Char) :
    ∀ (pre r : List Char), escapesClosed s = true → q ∉ s →
      cutComment whole pre (some q) (s ++ q :: r) = cutComment whole (q :: (s.reverse ++ pre)) none r := by
  fun_induction escapesClosed s with
  | case1 =>
    intro pre r _ _
    rw [List.nil_append, cutComment.eq_def]
    simp [hq]
  | case2 => intro _ _ h; cases h
  | case3 d rest ih =>
    intro pre r h hn
    simp only [List.mem_cons, not_or] at hn
    rw [List.cons_append, List.cons_append, cutComment_escape, ih (d :: '\\' :: pre) r h hn.2.2]
    simp
  | case4 c rest hc hc' ih =>
    intro pre r h hn
    simp only [List.mem_cons, not_or] at hn
    have hb := ne_backslash_of_unescaped hc hc'
    rw [List.cons_append, cutComment_quoted hb (Ne.symm hn.1), ih (c :: pre) r h hn.2]
    simp

/-- A string that runs to `;` at the end of the text holds no comment, whether its closing quote
closes it or is taken by a backslash. -/
theorem cutComment_quoted_end {whole : List Char} {q : Char} (hq : q ≠ '\\') (hs : q ≠ ';')
    (s : List Char) : ∀ (pre : List Char), q ∉ s →
      cutComment whole pre (some q) (s ++ [q, ';']) = whole := by
  fun_induction escapesClosed s with
  | case1 =>
    intro pre _
    rw [List.nil_append, cutComment.eq_def]
    simp [hq, cutComment.eq_def]
  | case2 =>
    intro pre _
    rw [cutComment.eq_def]
    simp [cutComment.eq_def, Ne.symm hs]
  | case3 d rest ih =>
    intro pre hn
    simp only [List.mem_cons, not_or] at hn
    rw [List.cons_append, List.cons_append, cutComment_escape]
    exact ih _ hn.2.2
  | case4 c rest hc hc' ih =>
    intro pre hn
    simp only [List.mem_cons, not_or] at hn
    have hb := ne_backslash_of_unescaped hc hc'
    rw [List.cons_append, cutComment_quoted hb (Ne.symm hn.1)]
    exact ih _ hn.2

/-- A line comment after some blanks, or nothing. -/
def TrailingComment (c : List Char) : Prop :=
  c = [] ∨ ∃ sp t, (∀ b ∈ sp, isBlank b = true) ∧ c = sp ++ '/' :: '/' :: t

theorem Unmarked.sublist {x y : List Char} (h : Unmarked y) (hs : x.Sublist y) : Unmarked x :=
  fun c hc => h c (hs.subset hc)

theorem unmarked_of_blank {sp : List Char} (h : ∀ b ∈ sp, isBlank b = true) : Unmarked sp := by
  intro c hc
  have hb := h c hc
  refine ⟨?_, ?_, ?_, ?_⟩ <;> rintro rfl <;> exact absurd hb (by decide)

/-- An unmarked text followed by a trailing comment reads, trimmed and without its comment, as
the text trimmed. -/
theorem strip_trim_unmarked {x c : List Char} (hx : Unmarked x) (hc : TrailingComment c) :
    stripTrailingComment (trim (x ++ c)) = trim x := by
  rcases hc with rfl | ⟨sp, t, hsp, rfl⟩
  · rw [List.append_nil, stripTrailingComment]
    conv_lhs => arg 4; rw [← List.append_nil (trim x)]
    rw [cutComment_unmarked _ _ (hx.sublist (trim_sublist x)), cutComment]
  · have hslash : isBlank '/' = false := by decide
    have ht : trim (x ++ (sp ++ '/' :: '/' :: t)) = trimStart (x ++ sp) ++ '/' :: '/' :: trimEnd t := by
      rw [← List.append_assoc, trim, trimStart_append_cons hslash, trimEnd_append_cons hslash,
        show '/' :: t = [] ++ '/' :: t from rfl, trimEnd_append_cons hslash, List.nil_append]
    have hp : Unmarked (trimStart (x ++ sp)) := fun d hd => by
      rcases List.mem_append.1 ((List.dropWhile_suffix _).subset hd) with hd | hd
      · exact hx d hd
      · exact unmarked_of_blank hsp d hd
    rw [ht, stripTrailingComment, cutComment_unmarked _ _ hp, cutComment_lineComment,
      List.append_nil, List.reverse_reverse, ← trim, trim_append_blanks _ hsp]

end Syntax

namespace Import

/-! ### Texts that are no statement yet -/

theorem sourceTail_eq_quoted (p : List Char) :
    sourceTail p = " from ".toList ++ '\'' :: (p ++ ['\'', ';']) := by
  unfold sourceTail
  simp

theorem unmarked_of_listChars {x : List Char} (h : ∀ c ∈ x, ListChar c) : Unmarked x := fun c hc =>
  let hs := (h c hc).spec
  ⟨hs.1, hs.2.1, hs.2.2.1, hs.2.2.2.1⟩

theorem quote_of_quotedTail {t spec : List Char} (h : quotedTail t = some spec) :
    ∃ c ∈ t, isQuote c = true :=
  List.countP_pos_iff.1 (by rw [(quotedTail_spec h).1]; omega)

theorem clauseAndSource_tail {cs clause spec : List Char}
    (h : clauseAndSource cs = some (clause, spec)) : ∃ t, t <:+ cs ∧ quotedTail t = some spec := by
  unfold clauseAndSource at h
  cases ha : afterWord "import".toList cs with
  | none => rw [ha] at h; cases h
  | some rest =>
    rw [ha, Option.bind_some] at h
    obtain ⟨k, -, hk⟩ := List.exists_of_findSome?_eq_some h
    obtain ⟨n, -, hn⟩ := List.exists_of_findSome?_eq_some hk
    obtain ⟨s', hs', he⟩ := Option.map_eq_some_iff.1 hn
    cases he
    obtain ⟨t, htf, ht⟩ := fromTail_eq_some hs'
    refine ⟨t, ?_, ht⟩
    have h1 : t <:+ trimStart ((rest.drop k).drop n) := by
      rw [htf]
      exact List.suffix_append _ _
    have h2 : rest <:+ cs := by
      rw [afterWord_eq_some ha]
      exact List.suffix_append _ _
    exact h1.trans ((List.dropWhile_suffix _).trans
      ((List.drop_suffix _ _).trans ((List.drop_suffix _ _).trans h2)))

theorem sideEffectSource_tail {cs spec : List Char} (h : sideEffectSource cs = some spec) :
    ∃ t, t <:+ cs ∧ quotedTail t = some spec := by
  unfold sideEffectSource at h
  cases ha : afterWord "import".toList cs with
  | none => rw [ha] at h; cases h
  | some t =>
    rw [ha, Option.bind_some] at h
    refine ⟨t, ?_, h⟩
    rw [afterWord_eq_some ha]
    exact List.suffix_append _ _

/-- A text without quotes is never a whole import statement. -/
theorem isComplete_of_no_quote {s : List Char} (h : ∀ c ∈ s, isQuote c = false) :
    isComplete s = false := by
  have hno : ∀ t spec, t <:+ s → quotedTail t = some spec → False := fun t spec hts ht => by
    obtain ⟨c, hc, hq⟩ := quote_of_quotedTail ht
    simp [h c (hts.subset hc)] at hq
  unfold isComplete
  cases hc : clauseAndSource s with
  | some r =>
    obtain ⟨t, hts, ht⟩ := clauseAndSource_tail hc
    exact (hno t _ hts ht).elim
  | none =>
    cases hs : sideEffectSource s with
    | some spec =>
      obtain ⟨t, hts, ht⟩ := sideEffectSource_tail hs
      exact (hno t _ hts ht).elim
    | none => rfl

end Import

namespace Module

/-! ### Joining the lines of a statement -/

theorem gatherImport_of_isComplete {s : List Char} (h : isComplete s = true) (k : Nat)
    (ls : List Line) : gatherImport s k ls = .ok (s, k) := by
  cases ls <;> simp [gatherImport, h]

/-- A statement still open at its braces and with no quote joins the next line. -/
theorem gatherImport_open {s : List Char} (hq : ∀ c ∈ s, isQuote c = false ∧ c ≠ '\x7d')
    (ho : '\x7b' ∈ s) (k : Nat) (m : Line) (ms : List Line) :
    gatherImport s k (m :: ms) =
      gatherImport (s ++ ' ' :: stripTrailingComment (trim m.text)) (k + 1) ms := by
  have hc := isComplete_of_no_quote fun c hc => (hq c hc).1
  have hopen : openClause s = true := by
    simp only [openClause, Bool.and_eq_true, Bool.not_eq_true', List.contains_iff_mem]
    refine ⟨ho, ?_⟩
    simpa using fun h => (hq _ h).2 rfl
  simp [gatherImport, hc, hopen]

theorem gatherImport_middles {s : List Char} (hq : ∀ c ∈ s, isQuote c = false ∧ c ≠ '\x7d')
    (ho : '\x7b' ∈ s) (mids : List (List Char × List Char)) (ms : List Line) (k : Nat)
    (rest : List Line) (hz : ∀ z ∈ mids, (∀ c ∈ z.1, ListChar c) ∧ TrailingComment z.2)
    (hms : ms.map Line.text = mids.map fun z => z.1 ++ z.2) :
    gatherImport s k (ms ++ rest) =
      gatherImport (s ++ (mids.map fun z => ' ' :: trim z.1).flatten) (k + ms.length) rest := by
  induction mids generalizing s ms k with
  | nil =>
    obtain rfl : ms = [] := List.map_eq_nil_iff.1 hms
    simp
  | cons z zs ih =>
    obtain ⟨m, ms', rfl⟩ : ∃ m ms', ms = m :: ms' := List.exists_cons_of_ne_nil (by
      rintro rfl
      simp at hms)
    simp only [List.map_cons, List.cons.injEq] at hms
    obtain ⟨hc, hzc⟩ := hz z List.mem_cons_self
    have hstrip : stripTrailingComment (trim m.text) = trim z.1 := by
      rw [hms.1]
      exact strip_trim_unmarked (unmarked_of_listChars hc) hzc
    have hq' : ∀ c ∈ s ++ ' ' :: trim z.1, isQuote c = false ∧ c ≠ '\x7d' := by
      intro c hc'
      rcases List.mem_append.1 hc' with hc' | hc'
      · exact hq c hc'
      · rcases List.mem_cons.1 hc' with rfl | hc'
        · exact ⟨rfl, by decide⟩
        · exact listChar_quote_brace (hc c ((trim_sublist _).subset hc'))
    rw [List.cons_append, gatherImport_open hq ho, hstrip,
      ih hq' (List.mem_append_left _ ho) ms' (k + 1) (fun z hz' => hz z (List.mem_cons_of_mem _ hz'))
        hms.2]
    simp only [List.map_cons, List.flatten_cons, List.append_assoc, List.length_cons, List.cons_append]
    congr 1
    omega

/-- The text before the braced list of a statement: `import `, and a default name with its comma
or nothing. -/
theorem importHead_chars {pre : List Char} (hpre : ∀ c ∈ pre, ListChar c) :
    ∀ c ∈ "import ".toList ++ pre, isQuote c = false ∧ c ≠ '\x7d' ∧
      c ≠ '\x60' ∧ c ≠ '/' := by
  intro c hc
  rcases List.mem_append.1 hc with hc | hc
  · simp only [show "import ".toList = ['i', 'm', 'p', 'o', 'r', 't', ' '] from rfl, List.mem_cons,
      List.not_mem_nil, or_false] at hc
    rcases hc with rfl | rfl | rfl | rfl | rfl | rfl | rfl <;> decide
  · have hs := (hpre c hc).spec
    exact ⟨(listChar_quote_brace (hpre c hc)).1, hs.2.2.2.2.2, hs.2.2.1, hs.2.2.2.1⟩

/-- The first line of a broken statement reads, trimmed and without its comment, as `import`, the
default name if any, the opening brace and the start of the list. -/
theorem strip_first_line {pre x c : List Char} (hpre : ∀ d ∈ pre, ListChar d)
    (hx : ∀ d ∈ x, ListChar d) (hc : TrailingComment c) :
    stripTrailingComment (trim ("import ".toList ++ pre ++ '\x7b' :: x ++ c)) =
      "import ".toList ++ pre ++ '\x7b' :: trimEnd x := by
  have hmarks : Unmarked ("import ".toList ++ pre ++ '\x7b' :: x) := by
    intro d hd
    rcases List.mem_append.1 hd with hd | hd
    · obtain ⟨hq, -, h60, hsl⟩ := importHead_chars hpre d hd
      simp only [isQuote, Bool.or_eq_false_iff, decide_eq_false_iff_not] at hq
      exact ⟨hq.1, hq.2, h60, hsl⟩
    · rcases List.mem_cons.1 hd with rfl | hd
      · decide
      · exact unmarked_of_listChars hx d hd
  rw [strip_trim_unmarked hmarks hc, trim, trimStart_of_head (by simp; decide),
    trimEnd_append_cons (by decide)]

/-- The last line of a broken statement, trimmed: its comment keeps its own blanks, since the
statement's `;` stands before them. -/
theorem trim_closing_line (x p c : List Char) :
    trim (x ++ '\x7d' :: sourceTail p ++ c) = trimStart x ++ '\x7d' :: (sourceTail p ++ trimEnd c) := by
  have hS : sourceTail p = (" from ".toList ++ '\'' :: p ++ ['\'']) ++ [';'] := by
    rw [sourceTail_eq_quoted]
    simp
  have h1 : x ++ '\x7d' :: sourceTail p ++ c =
      x ++ '\x7d' :: ((" from ".toList ++ '\'' :: p ++ ['\'']) ++ ';' :: c) := by
    rw [hS]
    simp
  have h2 : trimStart x ++ '\x7d' :: ((" from ".toList ++ '\'' :: p ++ ['\'']) ++ ';' :: c) =
      (trimStart x ++ '\x7d' :: (" from ".toList ++ '\'' :: p ++ ['\''])) ++ ';' :: c := by
    simp
  rw [h1, trim, trimStart_append_cons (by decide), h2, trimEnd_append_cons (by decide), hS]
  simp

/-- The last line of a broken statement reads, trimmed and without its comment, as the rest of
its piece, the closing brace and the specifier; a comment after the statement needs a string
that its closing quote closes. -/
theorem strip_last_line {x c p : List Char} (hx : Unmarked x) (hq : '\'' ∉ p)
    (hc : TrailingComment c) (hl : c ≠ [] → escapesClosed p = true) :
    stripTrailingComment (trim (x ++ '\x7d' :: sourceTail p ++ c)) =
      trimStart x ++ '\x7d' :: sourceTail p := by
  have hQ : Unmarked (trimStart x ++ '\x7d' :: " from ".toList) := by
    intro d hd
    rcases List.mem_append.1 hd with hd | hd
    · exact hx d ((List.dropWhile_suffix _).subset hd)
    · simp only [show " from ".toList = [' ', 'f', 'r', 'o', 'm', ' '] from rfl, List.mem_cons,
        List.not_mem_nil, or_false] at hd
      rcases hd with rfl | rfl | rfl | rfl | rfl | rfl | rfl <;> decide
  -- the text after the closing brace, with the quoted specifier spelled out
  have hW : ∀ E, trimStart x ++ '\x7d' :: (sourceTail p ++ E) =
      (trimStart x ++ '\x7d' :: " from ".toList) ++ '\'' :: (p ++ '\'' :: ';' :: E) := by
    intro E
    rw [sourceTail_eq_quoted]
    simp
  rw [trim_closing_line, stripTrailingComment]
  rcases hc with rfl | ⟨sp, t, hsp, rfl⟩
  · -- no comment: the string runs to the `;` that ends the text
    conv_lhs => arg 4; rw [show trimEnd [] = [] from rfl, hW]
    rw [cutComment_unmarked _ _ hQ, cutComment_open,
      cutComment_quoted_end (by decide) (by decide) p _ hq, show trimEnd [] = [] from rfl,
      List.append_nil]
  · -- a comment: the string closes, and the comment is cut after the `;` and the blanks
    have hsemi : Unmarked (';' :: sp) := by
      intro d hd
      rcases List.mem_cons.1 hd with rfl | hd
      · decide
      · exact unmarked_of_blank hsp d hd
    have hend : ((';' :: sp).reverse ++ '\'' :: (p.reverse ++
        '\'' :: ((trimStart x ++ '\x7d' :: " from ".toList).reverse ++ []))).reverse =
        (trimStart x ++ '\x7d' :: sourceTail p) ++ sp := by
      rw [sourceTail_eq_quoted]
      simp
    have hS : trimStart x ++ '\x7d' :: sourceTail p =
        (trimStart x ++ '\x7d' :: (" from ".toList ++ '\'' :: p ++ ['\''])) ++ [';'] := by
      rw [sourceTail_eq_quoted]
      simp
    rw [trimEnd_append_cons (by decide), show '/' :: t = [] ++ '/' :: t from rfl,
      trimEnd_append_cons (by decide), List.nil_append]
    conv_lhs => arg 4; rw [hW]
    rw [cutComment_unmarked _ _ hQ, cutComment_open,
      cutComment_closing (by decide) p _ _ (hl (by simp)) hq,
      show ';' :: (sp ++ '/' :: '/' :: trimEnd t) = (';' :: sp) ++ '/' :: '/' :: trimEnd t from rfl,
      cutComment_unmarked _ _ hsemi, cutComment_lineComment, hend, trimEnd_append_blanks _ hsp, hS,
      trimEnd_of_last (by decide)]

/-- The text of a braced statement joined from its lines, read as one clause. -/
theorem joined_braced (i pre a b tail : List Char) (zs : List (List Char)) :
    i ++ pre ++ '\x7b' :: a ++ (zs.map (' ' :: ·)).flatten ++ ' ' :: (b ++ '\x7d' :: tail) =
      i ++ (pre ++ '\x7b' :: (a ++ ((zs ++ [b]).map (' ' :: ·)).flatten ++ ['\x7d'])) ++ tail := by
  simp

/-- The lines of a braced statement broken inside its braces join into the statement with its
pieces trimmed and set apart by single spaces, all the lines taken. -/
theorem gatherImport_broken {pre p : List Char} (hpre : ∀ c ∈ pre, ListChar c) (hq : '\'' ∉ p)
    (first last : List Char × List Char) (mids : List (List Char × List Char))
    (hpieces : ∀ z ∈ first :: mids ++ [last], (∀ c ∈ z.1, ListChar c) ∧ TrailingComment z.2)
    (hlast : last.2 ≠ [] → escapesClosed p = true) (l m : Line) (ms rest : List Line)
    (hl : l.text = "import ".toList ++ pre ++ '\x7b' :: first.1 ++ first.2)
    (hms : ms.map Line.text = mids.map fun z => z.1 ++ z.2)
    (hm : m.text = last.1 ++ '\x7d' :: sourceTail p ++ last.2) :
    gatherImport (stripTrailingComment (trim l.text)) 0 (ms ++ m :: rest) =
      gatherImport (statementText (pre ++ '\x7b' ::
        (joinedPieces first.1 (mids.map Prod.fst) last.1 ++ ['\x7d'])) p) (ms.length + 1) rest := by
  have hfirst := hpieces first (by simp)
  have hlst := hpieces last (by simp)
  -- before the last line is joined, the text holds no quote and no closing brace
  have hs : ∀ c ∈ "import ".toList ++ pre ++ '\x7b' :: trimEnd first.1 ++
      (mids.map fun z => ' ' :: trim z.1).flatten, isQuote c = false ∧ c ≠ '\x7d' := by
    intro c hc
    rcases List.mem_append.1 hc with hc | hc
    · rcases List.mem_append.1 hc with hc | hc
      · exact ⟨(importHead_chars hpre c hc).1, (importHead_chars hpre c hc).2.1⟩
      · rcases List.mem_cons.1 hc with rfl | hc
        · exact ⟨rfl, by decide⟩
        · exact listChar_quote_brace (hfirst.1 c ((isPrefix_trimEnd _).subset hc))
    · obtain ⟨w, hw, hcw⟩ := List.mem_flatten.1 hc
      obtain ⟨z, hz, rfl⟩ := List.mem_map.1 hw
      rcases List.mem_cons.1 hcw with rfl | hcw
      · exact ⟨rfl, by decide⟩
      · exact listChar_quote_brace ((hpieces z (by simp [hz])).1 c ((trim_sublist _).subset hcw))
  have hopen : '\x7b' ∈ "import ".toList ++ pre ++ '\x7b' :: trimEnd first.1 :=
    List.mem_append_right _ List.mem_cons_self
  have hspaced : (mids.map fun z => ' ' :: trim z.1) = ((mids.map Prod.fst).map trim).map (' ' :: ·) := by
    rw [List.map_map, List.map_map]
    rfl
  rw [hl, strip_first_line hpre hfirst.1 hfirst.2,
    gatherImport_middles (fun c hc => hs c (List.mem_append_left _ hc)) hopen mids ms 0 (m :: rest)
      (fun z hz => hpieces z (by simp [hz])) hms,
    gatherImport_open hs (List.mem_append_left _ hopen), hm,
    strip_last_line (unmarked_of_listChars hlst.1) hq hlst.2 hlast, hspaced, joined_braced, Nat.zero_add]
  rfl

/-- A braced import statement broken over several lines at blanks and commas inside its braces,
each line perhaps ending with a line comment, is read as the statement on one line: the reader
joins exactly those lines and gives the imports of the one-line statement, on the first line's
number. A comment after the statement needs a specifier that leaves no escape open, or its
closing quote would be read as part of the string. -/
theorem importItem_broken_statement {pre p : List Char}
    (hpre : pre = [] ∨ ∃ name, isIdentifier name = true ∧ pre = name ++ ", ".toList)
    (hp : p ≠ []) (hq : ∀ c ∈ p, isQuote c = false)
    (first last : List Char × List Char) (mids : List (List Char × List Char))
    (hcut : ((first :: mids ++ [last]).map Prod.fst).IsChain Separated)
    (hcom : ∀ z ∈ first :: mids ++ [last], TrailingComment z.2)
    (hlast : last.2 ≠ [] → escapesClosed p = true)
    (d : Draft) (l m : Line) (ms rest : List Line)
    (hl : l.text = "import ".toList ++ pre ++ '\x7b' :: first.1 ++ first.2)
    (hms : ms.map Line.text = mids.map fun z => z.1 ++ z.2)
    (hm : m.text = last.1 ++ '\x7d' :: sourceTail p ++ last.2) {v : List Import}
    (hv : ofStatement (statementText (pre ++ '\x7b' ::
      (((first :: mids ++ [last]).map Prod.fst).flatten ++ ['\x7d'])) p) l.number = some v) :
    importItem d l (ms ++ m :: rest) =
      .ok ({ d with imports := d.imports ++ v }, ms.length + 1) := by
  have htight : ∀ x, Tight (pre ++ '\x7b' :: (x ++ ['\x7d'])) := by
    intro x
    rcases hpre with rfl | ⟨name, hi, rfl⟩
    · exact tight_braced x
    · exact (tight_of_isIdentifier hi).1.append (tight_braced x) ", ".toList
  have hread : ∀ x, ofStatement (statementText (pre ++ '\x7b' :: (x ++ ['\x7d'])) p) l.number =
      ofClause (pre ++ '\x7b' :: (x ++ ['\x7d'])) (String.ofList p) l.number := fun x =>
    ofStatement_statementText (htight x).1 (htight x).2.1 (htight x).2.2 hp hq l.number
  -- the one-line statement holds between its braces only characters of names, blanks and commas
  rw [hread] at hv
  obtain ⟨r, hr⟩ := bracedList_of_ofClause hpre hv
  have hpieces : ∀ z ∈ first :: mids ++ [last], (∀ c ∈ z.1, ListChar c) ∧ TrailingComment z.2 :=
    fun z hz => ⟨fun c hc => listChars_of_bracedList hr c
      (List.mem_flatten.2 ⟨z.1, List.mem_map_of_mem hz, hc⟩), hcom z hz⟩
  -- the joined statement differs from the one-line one only in blanks around its pieces
  let J := joinedPieces first.1 (mids.map Prod.fst) last.1
  have hlex : lexemes J = lexemes ((first :: mids ++ [last]).map Prod.fst).flatten := by
    simp only [List.map_cons, List.map_append, List.map_nil] at hcut ⊢
    exact lexemes_joinedPieces hcut
  have hcomplete : isComplete (statementText (pre ++ '\x7b' :: (J ++ ['\x7d'])) p) = true := by
    simp [isComplete, clauseAndSource_statementText (htight J).1 (htight J).2.1 (htight J).2.2 hp hq]
  unfold importItem
  rw [gatherImport_broken (listChars_of_defaultPart hpre) (fun h => by simpa [isQuote] using hq _ h)
    first last mids hpieces hlast l m ms rest hl hms hm, gatherImport_of_isComplete hcomplete]
  dsimp only
  rw [hread J, ofClause_braced_congr hpre hlex, hv]

/-- Two lines, the second with a comment after the statement, read as the one-line
statement. -/
theorem importItem_two_lines :
    importItem {} ⟨1, "import \x7ba,".toList⟩ [⟨2, "  b\x7d from 'x'; // c".toList⟩] =
      .ok ({ imports := [⟨.named, "x", ["a", "b"], [], 1⟩] }, 1) :=
  @importItem_broken_statement [] "x".toList (.inl rfl) (by simp) (by simp [isQuote])
    ("a,".toList, []) ("  b".toList, " // c".toList) []
    (List.IsChain.cons_cons (.inl ⟨',', rfl, .inr rfl⟩) (List.isChain_singleton _))
    (by
      simp only [List.cons_append, List.nil_append, List.mem_cons, List.not_mem_nil, or_false,
        forall_eq_or_imp, forall_eq]
      refine ⟨.inl rfl, .inr ⟨[' '], [' ', 'c'], ?_, rfl⟩⟩
      simp only [List.mem_singleton, forall_eq]
      decide)
    (fun _ => rfl) {} ⟨1, "import \x7ba,".toList⟩ ⟨2, "  b\x7d from 'x'; // c".toList⟩ [] [] rfl rfl rfl
    [⟨.named, "x", ["a", "b"], [], 1⟩] (by decide)

/-- A specifier ending in a backslash is read on one line, but when the statement is broken
and a comment follows it, the backslash keeps the closing quote open and the comment is kept:
the joined text is no statement. -/
theorem escaped_quote_before_comment :
    ofStatement "import \x7ba, b\x7d from 'x\\';".toList 1 = some [⟨.named, "x\\", ["a", "b"], [], 1⟩] ∧
      (importItem {} ⟨1, "import \x7ba,".toList⟩ [⟨2, "  b\x7d from 'x\\'; // c".toList⟩]).isOk = false :=
  ⟨by decide, by decide +kernel⟩

end Module

end ModuleBundler
