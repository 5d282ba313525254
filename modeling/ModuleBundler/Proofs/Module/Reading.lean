import ModuleBundler.Module.Parser
import ModuleBundler.Proofs.Brace.Tracker
import Mathlib

/-!
Reading a module moves on at every pass, and cuts its lines only inside them.

Both loops of the reader, over the items of a module and over the members of a class, fail
or go on from a list of lines that is `Line.Shorter`: fewer lines, or as many with less on the
first one. The second case is a leading block comment followed by code, which gives its line
back with the comment blanked. `Line.Shorter` is well founded, so both loops finish.

Every position the reader computes lies inside the text it cuts: where a comment ends, the
`(` of a function or method header and the end of its parameter list, the text after a class
name, the `{` of a body and each brace counted after it, and the name a call site reads after
a module's `.`; `export` is cut off only from a text that starts with it. Main statement:
`reading_progresses_within_lines`.
-/

namespace ModuleBundler

open Text Syntax

namespace Text

theorem findSub_spec {pat : List Char} :
    ∀ {cs : List Char} {e : Nat}, findSub pat cs = some e → e ≤ cs.length ∧ pat <+: cs.drop e
  | [], e, h => by
    simp only [findSub, List.isEmpty_iff] at h
    split at h
    · rename_i hp
      cases h
      simp [hp]
    · cases h
  | c :: rest, e, h => by
    simp only [findSub] at h
    split at h
    · rename_i hp
      cases h
      exact ⟨Nat.zero_le _, by simpa using hp⟩
    · obtain ⟨e', he', rfl⟩ := Option.map_eq_some_iff.1 h
      obtain ⟨hle, hpre⟩ := findSub_spec he'
      exact ⟨by simpa using hle, by simpa using hpre⟩

theorem findSub_add_length_le {pat cs : List Char} {e : Nat} (h : findSub pat cs = some e) :
    e + pat.length ≤ cs.length := by
  obtain ⟨hle, hpre⟩ := findSub_spec h
  have := hpre.length_le
  rw [List.length_drop] at this
  omega

theorem isPrefix_trimEnd (cs : List Char) : trimEnd cs <+: cs := by
  unfold trimEnd
  conv_rhs => rw [← List.reverse_reverse cs]
  exact List.reverse_prefix.2 (List.dropWhile_suffix _)

theorem getElem?_indentation_add (cs : List Char) (k : Nat) :
    cs[indentation cs + k]? = (trimStart cs)[k]? := by
  rw [Line.trimStart_eq_drop, List.getElem?_drop]

theorem getElem?_of_trim {cs : List Char} {k : Nat} {c : Char} (h : (trim cs)[k]? = some c) :
    cs[indentation cs + k]? = some c := by
  rw [getElem?_indentation_add]
  obtain ⟨post, hpost⟩ := isPrefix_trimEnd (trimStart cs)
  rw [← hpost, List.getElem?_append_left]
  · exact h
  · exact (List.getElem?_eq_some_iff.1 h).1

theorem indentation_add_length_trim_le (cs : List Char) :
    indentation cs + (trim cs).length ≤ cs.length := by
  have h1 := (isPrefix_trimEnd (trimStart cs)).length_le
  have h2 := Line.length_trimStart cs
  simp only [trim]
  omega

/-- In a text ending with `s`, the first character of `s` stands where `s` begins. -/
theorem getElem?_sub_length {s t : List Char} (h : s <:+ t) :
    t[t.length - s.length]? = s.head? := by
  obtain ⟨pre, rfl⟩ := h
  cases s <;> simp

end Text

namespace Syntax

theorem afterKeyword_suffix {kw cs r : List Char} (h : afterKeyword kw cs = some r) :
    r <:+ cs := by
  unfold afterKeyword at h
  split at h
  · split at h
    · rename_i c rest hdrop
      split at h
      · cases h
        have hs : c :: rest <:+ cs := hdrop ▸ List.drop_suffix _ _
        exact (List.dropWhile_suffix _).trans ((List.suffix_cons _ _).trans hs)
      · cases h
    · cases h
  · cases h

/-- The text after a keyword: the keyword, a blank, and the text with its blanks dropped. -/
theorem afterKeyword_spec {kw cs r : List Char} (h : afterKeyword kw cs = some r) :
    ∃ b rest, cs = kw ++ b :: rest ∧ isBlank b = true ∧ r = trimStart rest := by
  unfold afterKeyword at h
  split at h
  · rename_i hp
    obtain ⟨t, rfl⟩ := List.isPrefixOf_iff_prefix.1 hp
    rw [List.drop_left] at h
    cases t with
    | nil => cases h
    | cons b rest =>
      dsimp only at h
      split at h
      · rename_i hb
        cases h
        exact ⟨b, rest, rfl, hb, rfl⟩
      · cases h
  · cases h

theorem mem_take_indentation {cs : List Char} {c : Char} (hc : c ∈ cs.take (indentation cs)) :
    isBlank c = true := by
  have hp : cs.takeWhile isBlank <+: cs := List.takeWhile_prefix isBlank
  rw [indentation, ← List.prefix_iff_eq_take.1 hp] at hc
  exact List.mem_takeWhile_imp hc

theorem isPrefix_of_afterKeyword {kw cs r : List Char} (h : afterKeyword kw cs = some r) :
    kw <+: cs := by
  unfold afterKeyword at h
  split at h
  · rename_i hp
    simpa using hp
  · cases h

theorem nameLength_le (cs : List Char) : nameLength cs ≤ cs.length := by
  cases cs with
  | nil => simp [nameLength]
  | cons c rest =>
    have := (List.takeWhile_prefix isNameChar (l := rest)).length_le
    simp only [nameLength, List.length_cons]
    split <;> omega

end Syntax

namespace Header

theorem marks_rest_suffix (t : List Char) : (marks t).rest <:+ t := by
  unfold marks
  split
  · rename_i r hr
    split
    · rename_i r' hr'
      exact (afterKeyword_suffix hr').trans (afterKeyword_suffix hr)
    · exact afterKeyword_suffix hr
  · exact List.suffix_refl t

theorem asyncMark_suffix (t : List Char) : (asyncMark t).2 <:+ t := by
  unfold asyncMark
  split
  · rename_i r hr
    exact afterKeyword_suffix hr
  · exact List.suffix_refl t

theorem nameThenParen_spec {r name fromParen : List Char}
    (h : nameThenParen r = some (name, fromParen)) :
    fromParen <:+ r ∧ fromParen.head? = some '(' := by
  unfold nameThenParen at h
  dsimp only at h
  split at h
  · cases h
  · split at h
    · rename_i rest hrest
      cases h
      have hs : '(' :: rest <:+ r := hrest ▸ (List.dropWhile_suffix _).trans (List.drop_suffix _ _)
      exact ⟨hs, rfl⟩
    · cases h

/-- A name read by `nameThenParen` from a text that `t` ends with is followed by the `(` at
the position the header records. -/
theorem paren_of_nameThenParen {r t name fromParen : List Char} (hr : r <:+ t)
    (h : nameThenParen r = some (name, fromParen)) :
    t[t.length - fromParen.length]? = some '(' := by
  obtain ⟨hs, hhead⟩ := nameThenParen_spec h
  rw [← hhead]
  exact getElem?_sub_length (hs.trans hr)

theorem function?_paren {t : List Char} {h : FunctionHeader} (hf : function? t = some h) :
    t[h.paren]? = some '(' := by
  unfold function? at hf
  simp only [Option.bind_eq_some_iff, Option.map_eq_some_iff] at hf
  obtain ⟨r, hr, ⟨name, fromParen⟩, hnp, rfl⟩ := hf
  have hsuf := (afterKeyword_suffix hr).trans ((asyncMark_suffix _).trans (marks_rest_suffix t))
  exact paren_of_nameThenParen hsuf hnp

theorem method?_paren {t : List Char} {h : MethodHeader} (hm : method? t = some h) :
    t[h.paren]? = some '(' := by
  unfold method? at hm
  simp only [Option.orElse_eq_orElse, Option.orElse_eq_or, Option.or_eq_some_iff,
    Option.bind_eq_some_iff, Option.map_eq_some_iff] at hm
  -- each of the four readings looks for the name in a text that `t` ends with
  rcases hm with ⟨r, hr, r', hr', ⟨name, fp⟩, hnp, rfl⟩ | ⟨-, ⟨r, hr, ⟨name, fp⟩, hnp, rfl⟩ |
    ⟨-, ⟨r, hr, ⟨name, fp⟩, hnp, rfl⟩ | ⟨-, ⟨name, fp⟩, hnp, rfl⟩⟩⟩
  · exact paren_of_nameThenParen ((afterKeyword_suffix hr').trans (afterKeyword_suffix hr)) hnp
  · exact paren_of_nameThenParen (afterKeyword_suffix hr) hnp
  · exact paren_of_nameThenParen (afterKeyword_suffix hr) hnp
  · exact paren_of_nameThenParen (List.suffix_refl t) hnp

theorem class?_restAt_le {t : List Char} {h : ClassHeader} (hc : class? t = some h) :
    h.restAt ≤ t.length := by
  unfold class? at hc
  simp only [Option.bind_eq_some_iff] at hc
  obtain ⟨r, -, hr⟩ := hc
  split at hr
  · cases hr
  · cases hr
    exact Nat.sub_le _ _


/-- A class header reads `class`, blanks and the name after what comes before it, and then
blanks up to the rest of the text. -/
theorem class?_shape {t : List Char} {h : ClassHeader} (hc : class? t = some h) :
    ∃ pre sp sp', t = pre ++ "class".toList ++ sp ++ h.name ++ sp' ++ h.rest ∧ sp ≠ [] ∧
      (∀ c ∈ sp ++ sp', isBlank c = true) ∧ h.restAt = t.length - h.rest.length := by
  unfold class? at hc
  simp only [Option.bind_eq_some_iff] at hc
  obtain ⟨r, hr, hc⟩ := hc
  split at hc
  · cases hc
  cases hc
  obtain ⟨b, rest, hrest, hb, rfl⟩ := afterKeyword_spec hr
  obtain ⟨mpre, hm⟩ := marks_rest_suffix t
  refine ⟨mpre, b :: rest.takeWhile isBlank,
    ((trimStart rest).drop (identLength (trimStart rest))).takeWhile isBlank, ?_,
    List.cons_ne_nil _ _, fun c hc => ?_, rfl⟩
  · rw [← hm, hrest]
    simp only [trimStart, List.append_assoc, List.cons_append, List.take_append_drop,
      List.takeWhile_append_dropWhile]
  · simp only [List.mem_append, List.mem_cons] at hc
    rcases hc with (rfl | hc) | hc
    · exact hb
    · exact List.mem_takeWhile_imp hc
    · exact List.mem_takeWhile_imp hc

/-- Up to where the rest of a class header starts, its line reads `class`, blanks and the name
after what comes before them, and then blanks. -/
theorem take_classHeader {cs : List Char} {h : ClassHeader} (hc : class? (trim cs) = some h) :
    ∃ pre sp sp', sp ≠ [] ∧ (∀ c ∈ sp ++ sp', isBlank c = true) ∧
      cs.take (indentation cs + h.restAt) = pre ++ "class".toList ++ sp ++ h.name ++ sp' := by
  obtain ⟨pre, sp, sp', ht, hsp, hb, hat⟩ := class?_shape hc
  obtain ⟨post, hpost⟩ := isPrefix_trimEnd (trimStart cs)
  refine ⟨cs.take (indentation cs) ++ pre, sp, sp', hsp, hb, ?_⟩
  have hcs : cs = cs.take (indentation cs) ++
      ((pre ++ "class".toList ++ sp ++ h.name ++ sp') ++ (h.rest ++ post)) := by
    conv_lhs => rw [← List.take_append_drop (indentation cs) cs, ← Line.trimStart_eq_drop, ← hpost]
    rw [show trimEnd (trimStart cs) = trim cs from rfl, ht]
    simp only [List.append_assoc]
  have hind : (cs.take (indentation cs)).length = indentation cs := by
    have := Line.length_trimStart cs
    simp only [List.length_take]
    omega
  have hlen : h.restAt = (pre ++ "class".toList ++ sp ++ h.name ++ sp').length := by
    rw [hat, ht]
    simp only [List.length_append]
    omega
  calc cs.take (indentation cs + h.restAt)
      = cs.take ((cs.take (indentation cs)).length +
          (pre ++ "class".toList ++ sp ++ h.name ++ sp').length) := by rw [hind, hlen]
    _ = (cs.take (indentation cs) ++ ((pre ++ "class".toList ++ sp ++ h.name ++ sp') ++
          (h.rest ++ post))).take ((cs.take (indentation cs)).length +
          (pre ++ "class".toList ++ sp ++ h.name ++ sp').length) := congrArg (List.take _) hcs
    _ = cs.take (indentation cs) ++ pre ++ "class".toList ++ sp ++ h.name ++ sp' := by
      rw [List.take_length_add_append, List.take_left' rfl]
      simp only [List.append_assoc]

theorem isPrefix_of_exportDeclaration? {t name : List Char} (h : exportDeclaration? t = some name) :
    "export".toList <+: t := by
  unfold exportDeclaration? at h
  obtain ⟨r, hr, -⟩ := Option.bind_eq_some_iff.1 h
  exact isPrefix_of_afterKeyword hr

end Header

namespace Brace.State

theorem offset_openBrace {s : State} {pos : Nat} {e : Event} (h : (s.openBrace pos).2 = some e) :
    e.offset = pos := by
  unfold openBrace at h
  split at h
  · cases h
  · cases h
    rfl

theorem offset_closeBrace {s : State} {pos : Nat} {e : Event} (h : (s.closeBrace pos).2 = some e) :
    e.offset = pos := by
  unfold closeBrace at h
  split at h
  · cases h
  · cases h
  · cases h
    rfl

theorem offset_step {s : State} {q : Option Char} {pos : Nat} {c : Char} {next : Option Char}
    {e : Event} (h : (s.step q pos c next).event = some e) : e.offset = pos := by
  -- only the two braces in code give an event
  rcases step_cases s q pos c next with ⟨-, -, hstep⟩ | ⟨-, -, hstep⟩ | ⟨hnone, -, -⟩
  · rw [hstep] at h
    exact offset_openBrace h
  · rw [hstep] at h
    exact offset_closeBrace h
  · rw [hnone] at h
    cases h

/-- Every event of a scan from `pos` stands at a position of the scanned text. -/
theorem offset_scan (s : State) (q : Option Char) (pos : Nat) (cs : List Char) :
    ∀ e ∈ (s.scan q pos cs).2, pos ≤ e.offset ∧ e.offset < pos + cs.length := by
  fun_induction s.scan q pos cs with
  | case1 s q pos => simp
  | case2 s q pos c rest m hstop => simp
  | case3 s q pos c rest m hstop s' evs heq ih =>
    simp only [m, dite_eq_ite] at hstop ih heq
    rw [heq] at ih
    intro e he
    rcases List.mem_append.1 he with he | he
    · have := offset_step (Option.mem_toList.1 he)
      simp only [List.length_cons]
      omega
    · have := ih e he
      simp only [List.length_cons]
      -- a character that pairs with the next one moves the scan on by two
      split at this
      · simp only [List.length_tail] at this
        omega
      · omega

theorem offset_feed_lt {s : State} {cs : List Char} {e : Event} (h : e ∈ (s.feed cs).2) :
    e.offset < cs.length := by
  have := offset_scan s none 0 cs e h
  omega

theorem feed_open_cons (cs : List Char) :
    (initial.feed ('\x7b' :: cs)).2 = ⟨0, true, 1⟩ :: (scan { depth := 1 } none 1 cs).2 := by
  rw [feed, scan]
  simp [step, openBrace, initial]

/-- The brace that closes a body opened by `{` stands after the `{` and within the line. -/
theorem offset_first_close {cs : List Char} {close : Event}
    (h : (initial.feed ('\x7b' :: cs)).2.find? Line.closesBlock = some close) :
    1 ≤ close.offset ∧ close.offset ≤ cs.length := by
  -- the `{` itself opens, so the closing brace is among the events of the rest
  rw [feed_open_cons, List.find?_cons_of_neg (by decide)] at h
  have := offset_scan _ none 1 cs close (List.mem_of_find?_eq_some h)
  omega

end Brace.State

namespace Line

/-- A parenthesised list ends just after its next character or goes on after it. -/
theorem closeParen_cons (d : Int) (q : Option Char) (esc : Bool) (pos : Nat) (c : Char)
    (rest : List Char) : closeParen d q esc pos (c :: rest) = some (pos + 1) ∨
      ∃ d' q' esc', closeParen d q esc pos (c :: rest) = closeParen d' q' esc' (pos + 1) rest := by
  cases q with
  | some q =>
    -- inside quotes nothing ends the list
    simp only [closeParen]
    split_ifs
    · exact .inr ⟨_, _, _, rfl⟩
    · exact .inr ⟨_, _, _, rfl⟩
    · exact .inr ⟨_, _, _, rfl⟩
    · exact .inr ⟨_, _, _, rfl⟩
  | none =>
    simp only [closeParen]
    split_ifs
    · exact .inr ⟨_, _, _, rfl⟩
    · exact .inr ⟨_, _, _, rfl⟩
    · -- the `)` that closes the list
      exact .inl rfl
    · exact .inr ⟨_, _, _, rfl⟩
    · exact .inr ⟨_, _, _, rfl⟩

/-- The end of a parenthesised list lies after its start and within the text. -/
theorem closeParen_bound {d : Int} {q : Option Char} {esc : Bool} {pos e : Nat} {cs : List Char}
    (h : closeParen d q esc pos cs = some e) : pos < e ∧ e ≤ pos + cs.length := by
  induction cs generalizing d q esc pos with
  | nil => simp [closeParen] at h
  | cons c rest ih =>
    simp only [List.length_cons]
    rcases closeParen_cons d q esc pos c rest with hend | ⟨d', q', esc', hrec⟩
    · rw [hend] at h
      cases h
      omega
    · rw [hrec] at h
      have := ih h
      omega

/-- Where a parameter list ends, its last line goes on: a position within that line. -/
theorem paramSpan_after_le {joined : List Char} {extra start base : Nat} {cur : Line}
    {ms : List Line} {span : ParamSpan} (h : paramSpan joined extra start base cur ms = some span)
    (hs : start ≤ joined.length) (hj : joined.length + base = start + cur.text.length) :
    span.after ≤ span.last.text.length := by
  induction ms generalizing joined extra start base cur with
  | nil =>
    simp only [paramSpan, Option.map_eq_some_iff] at h
    obtain ⟨e, he, rfl⟩ := h
    have := closeParen_bound he
    simp only
    omega
  | cons m ms ih =>
    simp only [paramSpan] at h
    split at h
    · rename_i e he
      cases h
      have := closeParen_bound he
      simp only
      omega
    · apply ih h
      · simp
      · simp only [List.length_append, List.length_cons]
        omega

/-- The parameter list of a function that opens at position `paren` of `l` ends at a position
within its last line. -/
theorem functionParams_after_le {l : Line} {later : List Line} {paren : Nat} {span : ParamSpan}
    (h : paramSpan (l.text.drop paren) 0 0 paren l later = some span) :
    span.after ≤ span.last.text.length := by
  by_cases hp : paren ≤ l.text.length
  · exact paramSpan_after_le h (Nat.zero_le _) (by simp; omega)
  · -- past the end of `l` the list so far is empty, and reading goes on at the next line
    have hd : l.text.drop paren = [] := List.drop_eq_nil_of_le (by omega)
    rw [hd] at h
    cases later with
    | nil => simp [paramSpan, closeParen] at h
    | cons m ms =>
      simp only [paramSpan, closeParen] at h
      exact paramSpan_after_le h (by simp) (by simp; omega)

/-- The `{` of a body stands where `braceSpot` says. -/
theorem braceSpot_brace {l : Line} {after : Nat} {later : List Line} {owner : BodyOwner}
    {spot : BraceSpot} (h : braceSpot l after later owner = .ok spot) :
    spot.line.text[spot.pos]? = some '\x7b' := by
  unfold braceSpot at h
  dsimp only at h
  split at h
  · -- on the same line, after the blanks that follow position `after`
    rename_i ht
    cases h
    have hlen := length_trimStart (l.text.drop after)
    have hpos : after + ((l.text.drop after).length - (trimStart (l.text.drop after)).length) =
        after + (indentation (l.text.drop after) + 0) := by omega
    rw [hpos, ← List.getElem?_drop, getElem?_indentation_add, ← List.head?_eq_getElem?]
    exact ht
  · split at h
    · split at h
      · -- first thing on the next line that is not blank
        split at h
        · rename_i ht
          cases h
          rw [← Nat.add_zero (indentation _), getElem?_indentation_add, ← List.head?_eq_getElem?]
          exact ht
        · cases h
      · cases h
    · cases h


/-- The lines a search for the next line that is not blank passes over are blank. -/
theorem blank_take_of_dropWhile {later : List Line} {m : Line} {j : Nat}
    {rest : List (Line × Nat)}
    (hd : later.zipIdx.dropWhile (fun (m, _) => IsBlankText m.text) = (m, j) :: rest) :
    later[j]? = some m ∧ ∀ m' ∈ later.take j, ∀ c ∈ m'.text, isBlank c = true := by
  set P := fun (x : Line × Nat) => IsBlankText x.1.text
  have hsplit := List.takeWhile_append_dropWhile (p := P) (l := later.zipIdx)
  rw [hd] at hsplit
  -- the lines passed over are the first `j`, and all are blank
  have hT := congrArg (fun l => l[(later.zipIdx.takeWhile P).length]?) hsplit
  simp only [List.getElem?_append_right (le_refl _), Nat.sub_self, List.getElem?_cons_zero] at hT
  rw [List.getElem?_zipIdx, eq_comm, Option.map_eq_some_iff] at hT
  obtain ⟨m₀, hm₀, hmj⟩ := hT
  obtain ⟨rfl, hj⟩ := Prod.mk.inj hmj
  rw [Nat.zero_add] at hj
  refine ⟨hj ▸ hm₀, fun m' hm' c hc => ?_⟩
  have hfirst : later.take j = (later.zipIdx.take j).map Prod.fst := by
    rw [List.map_take, List.zipIdx_map_fst]
  have hpre := List.prefix_iff_eq_take.1 (List.takeWhile_prefix P (l := later.zipIdx))
  rw [hfirst, ← hj, ← hpre] at hm'
  obtain ⟨x, hx, rfl⟩ := List.mem_map.1 hm'
  have := List.mem_takeWhile_imp hx
  simp only [P, IsBlankText, List.all_eq_true] at this
  exact this c hc

/-- The `{` of a body stands after position `after` of its line with only blanks between, or
first on a later line, after blank lines only and with the rest of the first line blank. -/
theorem braceSpot_opens {l : Line} {after : Nat} {later : List Line} {owner : BodyOwner}
    {spot : BraceSpot} (h : braceSpot l after later owner = .ok spot) :
    (spot.extra = 0 ∧ spot.line = l ∧ ∃ sp, (∀ c ∈ sp, isBlank c = true) ∧
      l.text.take spot.pos = l.text.take after ++ sp) ∨
    (0 < spot.extra ∧ (∀ c ∈ l.text.drop after, isBlank c = true) ∧
      (∀ m ∈ later.take (spot.extra - 1), ∀ c ∈ m.text, isBlank c = true) ∧
      ∀ c ∈ spot.line.text.take spot.pos, isBlank c = true) := by
  unfold braceSpot at h
  dsimp only at h
  split at h
  · -- on the same line, after the blanks that follow position `after`
    cases h
    refine .inl ⟨rfl, rfl, (l.text.drop after).takeWhile isBlank,
      fun c hc => List.mem_takeWhile_imp hc, ?_⟩
    have hlen : (l.text.drop after).length - (trimStart (l.text.drop after)).length =
        ((l.text.drop after).takeWhile isBlank).length := by
      have := congrArg List.length (List.takeWhile_append_dropWhile (p := isBlank)
        (l := l.text.drop after))
      simp only [List.length_append] at this
      simp only [trimStart]
      omega
    rw [List.take_add, hlen, ← List.prefix_iff_eq_take.1 (List.takeWhile_prefix _)]
  · split at h
    · rename_i hempty
      split at h
      · rename_i m j rest hd
        split at h
        · -- on the first line after the blank ones
          cases h
          refine .inr ⟨Nat.succ_pos j, ?_, (blank_take_of_dropWhile hd).2,
            fun c hc => mem_take_indentation hc⟩
          simpa [trimStart, List.dropWhile_eq_nil_iff] using hempty
        · cases h
      · cases h
    · cases h

theorem commentEnd_stop_le {ls : List Line} {stop : Nat} {m : Line} {rest : List Line}
    (h : commentEnd ls = some (stop, m, rest)) : stop ≤ m.text.length := by
  induction ls with
  | nil => cases h
  | cons l ls ih =>
    simp only [commentEnd] at h
    split at h
    · rename_i e he
      cases h
      exact findSub_add_length_le he
    · exact ih h

/-- Where a comment that opens a line ends, reading resumes at a position within the line. -/
theorem leadingComment_resumes_within {l : Line} {later ls : List Line}
    (h : leadingComment l later = .ok (some ls)) :
    ls = later ∨ ∃ m stop rest, stop ≤ m.text.length ∧ ls = resumeAt m stop rest := by
  unfold leadingComment at h
  dsimp only at h
  split at h
  · cases h
    exact .inl rfl
  · rename_i body hbody
    split at h
    · -- the comment ends on its own line
      rename_i e he
      cases h
      have hend : e + 2 ≤ body.length := findSub_add_length_le he
      have hlen : (l.text.drop (indentation l.text)).length = body.length + 2 := by
        rw [hbody]
        simp
      simp only [List.length_drop] at hlen
      exact .inr ⟨l, _, later, by omega, rfl⟩
    · split at h
      · rename_i stop m rest hend
        cases h
        exact .inr ⟨m, stop, rest, commentEnd_stop_le hend, rfl⟩
      · cases h
  · cases h

/-- Less is left to read in `ls` than in `ls'`: fewer lines, or as many with less on the first
line after its blanks. -/
def Shorter : List Line → List Line → Prop :=
  InvImage (Prod.Lex (· < ·) (· < ·)) fun ls => (ls.length, headRoom ls)

theorem shorter_wf : WellFounded Shorter :=
  InvImage.wf _ (WellFounded.prod_lex wellFounded_lt wellFounded_lt)

end Line

namespace Module

/-- One pass of the item loop fails, or goes on from fewer lines or a shorter first line. -/
theorem items_cons (d : Draft) (l : Line) (later : List Line) :
    (∃ e, items d (l :: later) = .error e) ∨
      ∃ d' ls, Line.Shorter ls (l :: later) ∧ items d (l :: later) = items d' ls := by
  rw [items]
  split
  · exact .inr ⟨d, later, Line.lex_tail l later, rfl⟩
  · split
    · exact .inl ⟨_, rfl⟩
    · rename_i ls hc
      exact .inr ⟨d, ls, Line.lex_leadingComment hc, rfl⟩
    · split
      · exact .inl ⟨_, rfl⟩
      · exact .inr ⟨_, _, Line.lex_drop l later _, rfl⟩

/-- One pass of the member loop fails, or goes on from fewer lines or a shorter first line. -/
theorem members_cons (c : ClassDecl) (l : Line) (later : List Line) :
    (∃ e, members c (l :: later) = .error e) ∨
      ∃ c' ls, Line.Shorter ls (l :: later) ∧ members c (l :: later) = members c' ls := by
  rw [members]
  split
  · exact .inr ⟨c, later, Line.lex_tail l later, rfl⟩
  split
  · exact .inl ⟨_, rfl⟩
  · rename_i ls hc
    exact .inr ⟨c, ls, Line.lex_leadingComment hc, rfl⟩
  -- a member: accessors and private members fail, the others are read and passed
  split
  · exact .inl ⟨_, rfl⟩
  split
  · exact .inl ⟨_, rfl⟩
  split
  · -- a method or the constructor, with its body
    split
    · exact .inl ⟨_, rfl⟩
    split
    · split
      · exact .inl ⟨_, rfl⟩
      · exact .inr ⟨_, _, Line.lex_drop l later _, rfl⟩
    · exact .inr ⟨_, _, Line.lex_drop l later _, rfl⟩
  · -- a field, up to where its initializer closes
    split
    · exact .inl ⟨_, rfl⟩
    · exact .inr ⟨_, _, Line.lex_drop l later _, rfl⟩

/-- Reading a module finishes, and cuts its lines only inside them. Both loops fail or go on
from a `Line.Shorter` list of lines, and that order has no infinite descent. A leading comment
resumes within the line where it ends, and a searched text is found within the text searched.
The `(` of a function or method header and the `{` of a body stand where the reader takes
them to be; a class header's rest, the end of a parameter list and every counted brace lie
within their lines, the brace that closes a body after its `{`. `export` is cut off only from
a text that starts with it, and the name a call site reads after a module's `.` lies within the
text. -/
theorem reading_progresses_within_lines :
    WellFounded Line.Shorter ∧
    (∀ d l later, (∃ e, items d (l :: later) = .error e) ∨
      ∃ d' ls, Line.Shorter ls (l :: later) ∧ items d (l :: later) = items d' ls) ∧
    (∀ c l later, (∃ e, members c (l :: later) = .error e) ∨
      ∃ c' ls, Line.Shorter ls (l :: later) ∧ members c (l :: later) = members c' ls) ∧
    (∀ l later ls, Line.leadingComment l later = .ok (some ls) →
      ls = later ∨ ∃ m stop rest, stop ≤ m.text.length ∧ ls = Line.resumeAt m stop rest) ∧
    (∀ pat cs e, findSub pat cs = some e → e + pat.length ≤ cs.length) ∧
    (∀ (l : Line) h, Header.function? (trim l.text) = some h →
      l.text[indentation l.text + h.paren]? = some '(') ∧
    (∀ (l : Line) h, Header.method? (trim l.text) = some h →
      l.text[indentation l.text + h.paren]? = some '(') ∧
    (∀ (l : Line) h, Header.class? (trim l.text) = some h →
      indentation l.text + h.restAt ≤ l.text.length) ∧
    (∀ l later paren span, Line.paramSpan (l.text.drop paren) 0 0 paren l later = some span →
      span.after ≤ span.last.text.length) ∧
    (∀ l after later owner spot, Line.braceSpot l after later owner = .ok spot →
      spot.line.text[spot.pos]? = some '\x7b') ∧
    (∀ cs close,
      (Brace.State.initial.feed ('\x7b' :: cs)).2.find? Line.closesBlock = some close →
        1 ≤ close.offset ∧ close.offset ≤ cs.length) ∧
    (∀ (s : Brace.State) cs e, e ∈ (s.feed cs).2 → e.offset < cs.length) ∧
    (∀ t name, Header.exportDeclaration? t = some name → "export".toList <+: t) ∧
    (∀ cs, nameLength cs ≤ cs.length) := by
  refine ⟨Line.shorter_wf, items_cons, members_cons,
    fun _ _ _ h => Line.leadingComment_resumes_within h, fun _ _ _ h => findSub_add_length_le h,
    ?_, ?_, ?_, fun _ _ _ _ h => Line.functionParams_after_le h,
    fun _ _ _ _ _ h => Line.braceSpot_brace h, fun _ _ h => Brace.State.offset_first_close h,
    fun _ _ _ h => Brace.State.offset_feed_lt h,
    fun _ _ h => Header.isPrefix_of_exportDeclaration? h, nameLength_le⟩
  · intro l h hf
    exact getElem?_of_trim (Header.function?_paren hf)
  · intro l h hm
    exact getElem?_of_trim (Header.method?_paren hm)
  · intro l h hc
    have := Header.class?_restAt_le hc
    have := indentation_add_length_trim_le l.text
    omega

end Module

end ModuleBundler
