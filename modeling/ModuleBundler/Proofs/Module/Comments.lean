import ModuleBundler.Proofs.Import.Lexemes
import ModuleBundler.Proofs.Module.Reading
import ModuleBundler.CallSite
import Mathlib
/-!
Comments that open an item.

Where the reader takes up its next item, at the top level or in a class body, a line that
opens with a comment after its indentation is read past: a line comment sends reading to the
next line, and a block comment to the code after its end, on its own line or a later one, with
everything before the end blanked, one space for each UTF-8 byte. `CommentBlanked ls ls'` says
that `ls'` is `ls` with such a comment replaced by the spaces in its place, and the reader reads
both alike (`leading_comment_reads_as_blanks`), so a comment that opens a module parses as the
spaces in its place (`parse_opening_comment_blanked`). The blanking also turns the indentation before
the comment into spaces, so a comment that closes on its line, with code after it, reads as
its spaces only after an indentation of spaces: after a tab, the code keeps a space in place
of the tab.
-/

namespace ModuleBundler

open Text Syntax Import

namespace Text

theorem foldl_utf8Size (k : Nat) (cs : List Char) :
    cs.foldl (fun n c => n + c.utf8Size) k = k + utf8Length cs := by
  induction cs generalizing k with
  | nil => rfl
  | cons c cs ih =>
    simp only [utf8Length, List.foldl_cons] at ih ⊢
    rw [ih, ih (0 + c.utf8Size)]
    omega

theorem utf8Length_append (x y : List Char) :
    utf8Length (x ++ y) = utf8Length x + utf8Length y := by
  rw [utf8Length, List.foldl_append, foldl_utf8Size]
  rfl

theorem utf8Length_of_spaces {x : List Char} (h : ∀ c ∈ x, c = ' ') : utf8Length x = x.length := by
  induction x with
  | nil => rfl
  | cons c x ih =>
    have hsp : utf8Length [' '] = 1 := rfl
    rw [← List.singleton_append, utf8Length_append, ih fun d hd => h d (List.mem_cons_of_mem _ hd),
      h c List.mem_cons_self, hsp, List.singleton_append, List.length_cons]
    omega

theorem isBlankText_spaces (k : Nat) : IsBlankText (List.replicate k ' ') = true := by
  simp only [IsBlankText, List.all_eq_true, List.mem_replicate]
  rintro c ⟨-, rfl⟩
  decide

theorem isBlankText_append {x y : List Char} (hx : IsBlankText x = true) (hy : IsBlankText y = true) :
    IsBlankText (x ++ y) = true := by
  simp only [IsBlankText, List.all_append, Bool.and_eq_true] at hx hy ⊢
  exact ⟨hx, hy⟩

theorem indentation_blank_append {indent r : List Char} {c : Char}
    (hi : ∀ b ∈ indent, isBlank b = true) (hc : isBlank c = false) :
    indentation (indent ++ c :: r) = indent.length := by
  rw [indentation, List.takeWhile_append_of_pos hi, List.takeWhile_cons_of_neg (by simp [hc])]
  simp

/-- A text with no `*/` in it, followed by `*/`, has its first `*/` right after it. -/
theorem findSub_close {body : List Char} (h : ¬ ['*', '/'] <:+: body) (rest : List Char) :
    findSub ['*', '/'] (body ++ '*' :: '/' :: rest) = some body.length := by
  induction body with
  | nil => simp [findSub]
  | cons c body ih =>
    have hin : ¬ ['*', '/'] <:+: body := fun hb => h (hb.trans (List.suffix_cons c body).isInfix)
    have hne : ¬ ['*', '/'] <+: c :: (body ++ '*' :: '/' :: rest) := by
      rintro ⟨t, ht⟩
      cases body with
      | nil => simp at ht
      | cons d body =>
        simp only [List.cons_append, List.cons.injEq] at ht
        obtain ⟨rfl, rfl, -⟩ := ht
        exact h ⟨[], body, rfl⟩
    rw [List.cons_append, findSub, if_neg (by simpa [List.isPrefixOf_iff_prefix] using hne), ih hin]
    rfl

theorem findSub_eq_none {pat cs : List Char} (h : ¬ pat <:+: cs) : findSub pat cs = none := by
  cases he : findSub pat cs with
  | none => rfl
  | some e =>
    obtain ⟨-, hp⟩ := findSub_spec he
    exact absurd (hp.isInfix.trans (List.drop_suffix e cs).isInfix) h

theorem trim_of_isBlankText {cs : List Char} (h : IsBlankText cs = true) : trim cs = [] := by
  rw [trim, trimStart, List.dropWhile_eq_nil_iff.2 (List.all_eq_true.1 h)]
  rfl

end Text

namespace Line

theorem star_slash : "*/".toList = ['*', '/'] := rfl

/-- A line comment after the indentation sends reading to the next line. -/
theorem leadingComment_lineComment {l : Line} {indent t : List Char}
    (hi : ∀ c ∈ indent, isBlank c = true) (hl : l.text = indent ++ '/' :: '/' :: t)
    (later : List Line) : leadingComment l later = .ok (some later) := by
  have hlead : indentation l.text = indent.length := by
    rw [hl]
    exact indentation_blank_append hi (by decide)
  unfold leadingComment
  simp only [hlead]
  rw [hl, List.drop_left]
  rfl

/-- A block comment that opens after the indentation and closes on its line. -/
theorem leadingComment_sameLine {l : Line} {indent body rest : List Char}
    (hi : ∀ c ∈ indent, isBlank c = true) (hl : l.text = indent ++ '/' :: '*' :: body ++ '*' :: '/' :: rest)
    (hc : ¬ ['*', '/'] <:+: body) (later : List Line) :
    leadingComment l later = .ok (some (resumeAt l (indent.length + 2 + body.length + 2) later)) := by
  have hlead : indentation l.text = indent.length := by
    rw [hl, List.append_assoc]
    exact indentation_blank_append hi (by decide)
  have hdrop : l.text.drop indent.length = '/' :: '*' :: (body ++ '*' :: '/' :: rest) := by
    rw [hl, List.append_assoc, List.drop_left]
    rfl
  unfold leadingComment
  simp only [hlead, hdrop, star_slash, findSub_close hc]

/-- Lines inside a comment hold no `*/`; the line that closes it is found after them. -/
theorem commentEnd_close {mids : List Line} (hmids : ∀ k ∈ mids, ¬ ['*', '/'] <:+: k.text)
    {m : Line} {body rest : List Char} (hm : m.text = body ++ '*' :: '/' :: rest)
    (hc : ¬ ['*', '/'] <:+: body) (later : List Line) :
    commentEnd (mids ++ m :: later) = some (body.length + 2, m, later) := by
  induction mids with
  | nil =>
    rw [List.nil_append, commentEnd, star_slash, hm, findSub_close hc]
  | cons k mids ih =>
    rw [List.cons_append, commentEnd, star_slash,
      findSub_eq_none (hmids k List.mem_cons_self)]
    exact ih fun k' hk' => hmids k' (List.mem_cons_of_mem _ hk')

/-- A block comment that opens after the indentation and closes on a later line. -/
theorem leadingComment_lines {l m : Line} {indent body body' rest : List Char} {mids : List Line}
    (hi : ∀ c ∈ indent, isBlank c = true) (hl : l.text = indent ++ '/' :: '*' :: body)
    (hc : ¬ ['*', '/'] <:+: body) (hmids : ∀ k ∈ mids, ¬ ['*', '/'] <:+: k.text)
    (hm : m.text = body' ++ '*' :: '/' :: rest) (hc' : ¬ ['*', '/'] <:+: body')
    (later : List Line) :
    leadingComment l (mids ++ m :: later) = .ok (some (resumeAt m (body'.length + 2) later)) := by
  have hlead : indentation l.text = indent.length := by
    rw [hl]
    exact indentation_blank_append hi (by decide)
  unfold leadingComment
  simp only [hlead]
  rw [hl, List.drop_left]
  simp only [star_slash, findSub_eq_none hc, commentEnd_close hmids hm hc' later]

theorem blankPrefix_append (x y : List Char) :
    blankPrefix x.length (x ++ y) = List.replicate (utf8Length x) ' ' ++ y := by
  simp [blankPrefix]

/-- Where reading resumes after a comment that ends just before `rest` on line `l`. -/
theorem resumeAt_append {l : Line} {x rest : List Char} (hl : l.text = x ++ rest)
    (later : List Line) :
    resumeAt l x.length later = if IsBlankText rest then later
      else ⟨l.number, List.replicate (utf8Length x) ' ' ++ rest⟩ :: later := by
  unfold resumeAt
  rw [hl, List.drop_left, blankPrefix_append]

/-- A line that a comment opens is not blank: trimmed, it starts with the comment's `/`. -/
theorem trim_of_leadingComment {l : Line} {later ls : List Line}
    (h : leadingComment l later = .ok (some ls)) : ∃ r, trim l.text = '/' :: r := by
  have htrim : trim l.text = trimEnd (l.text.drop (indentation l.text)) := by
    rw [trim, trimStart_eq_drop]
  unfold leadingComment at h
  dsimp only at h
  split at h
  · rename_i t ht
    exact ⟨trimEnd ('/' :: t), by rw [htrim, ht, ← List.nil_append ('/' :: _),
      trimEnd_append_cons (by decide)]; rfl⟩
  · rename_i body hb
    exact ⟨trimEnd ('*' :: body), by rw [htrim, hb, ← List.nil_append ('/' :: _),
      trimEnd_append_cons (by decide)]; rfl⟩
  · cases h

end Line

namespace Module

/-- `ls'` is `ls` with the comment that opens its first line, after the indentation, replaced
by one space for each of its UTF-8 bytes, line breaks kept; a line comment leaves a blank line
in its place. A comment that closes on its own line, with code after it, is blanked only after
an indentation of spaces. -/
inductive CommentBlanked : List Line → List Line → Prop
  | lineComment {l : Line} {indent t blank : List Char} (later : List Line)
      (hi : ∀ c ∈ indent, isBlank c = true) (hl : l.text = indent ++ '/' :: '/' :: t)
      (hb : IsBlankText blank = true) :
      CommentBlanked (l :: later) (⟨l.number, blank⟩ :: later)
  | sameLine {l : Line} {indent body rest : List Char} (later : List Line)
      (hi : ∀ c ∈ indent, isBlank c = true)
      (hl : l.text = indent ++ '/' :: '*' :: body ++ '*' :: '/' :: rest)
      (hc : ¬ ['*', '/'] <:+: body) (hs : (∀ c ∈ indent, c = ' ') ∨ IsBlankText rest = true) :
      CommentBlanked (l :: later) (⟨l.number,
        indent ++ List.replicate (utf8Length ('/' :: '*' :: body ++ ['*', '/'])) ' ' ++ rest⟩ :: later)
  | lines {l m : Line} {indent body body' rest : List Char} (mids later : List Line)
      (hi : ∀ c ∈ indent, isBlank c = true) (hl : l.text = indent ++ '/' :: '*' :: body)
      (hc : ¬ ['*', '/'] <:+: body) (hmids : ∀ k ∈ mids, ¬ ['*', '/'] <:+: k.text)
      (hm : m.text = body' ++ '*' :: '/' :: rest) (hc' : ¬ ['*', '/'] <:+: body') :
      CommentBlanked (l :: mids ++ m :: later)
        (⟨l.number, indent ++ List.replicate (utf8Length ('/' :: '*' :: body)) ' '⟩ ::
          mids.map (fun k => ⟨k.number, List.replicate (utf8Length k.text) ' '⟩) ++
          ⟨m.number, List.replicate (utf8Length (body' ++ ['*', '/'])) ' ' ++ rest⟩ :: later)

/-- After the comment, reading resumes at the blanked lines once their blank lines are
passed. -/
theorem CommentBlanked.resumes {ls ls' : List Line} (h : CommentBlanked ls ls') :
    ∃ l later pre rest, ls = l :: later ∧ Line.leadingComment l later = .ok (some rest) ∧
      ls' = pre ++ rest ∧ ∀ k ∈ pre, IsBlankText k.text = true := by
  cases h with
  | lineComment later hi hl hb =>
    exact ⟨_, later, [_], later, rfl, Line.leadingComment_lineComment hi hl later, rfl,
      by simpa using hb⟩
  | sameLine later hi hl hc hs =>
    rename_i l indent body rest
    have hx : l.text = (indent ++ '/' :: '*' :: body ++ ['*', '/']) ++ rest := by
      rw [hl]
      simp
    have hlen : (indent ++ '/' :: '*' :: body ++ ['*', '/']).length =
        indent.length + 2 + body.length + 2 := by
      simp only [List.length_append, List.length_cons, List.length_nil]
      omega
    have hres := Line.leadingComment_sameLine hi hl hc later
    rw [← hlen, Line.resumeAt_append hx] at hres
    by_cases hr : IsBlankText rest = true
    · -- only blanks after the comment: both go on at the next line
      rw [if_pos hr] at hres
      refine ⟨l, later, [_], later, rfl, hres, rfl, ?_⟩
      simp only [List.mem_singleton, forall_eq]
      exact isBlankText_append (isBlankText_append (List.all_eq_true.2 hi) (isBlankText_spaces _)) hr
    · -- code after the comment: the indentation of spaces and the comment's spaces are one run
      rw [if_neg hr] at hres
      have hsp := hs.resolve_right hr
      refine ⟨l, later, [], _, rfl, hres, ?_, by simp⟩
      have hind : indent = List.replicate indent.length ' ' := List.eq_replicate_iff.2 ⟨rfl, hsp⟩
      have hu : utf8Length (indent ++ '/' :: '*' :: body ++ ['*', '/']) =
          indent.length + utf8Length ('/' :: '*' :: body ++ ['*', '/']) := by
        rw [List.append_assoc, utf8Length_append, utf8Length_of_spaces hsp]
      rw [hu, List.replicate_add, ← hind]
      rfl
  | lines mids later hi hl hc hmids hm hc' =>
    rename_i l m indent body body' rest
    have hx : m.text = (body' ++ ['*', '/']) ++ rest := by
      rw [hm]
      simp
    have hres := Line.leadingComment_lines hi hl hc hmids hm hc' later
    rw [show body'.length + 2 = (body' ++ ['*', '/']).length by simp, Line.resumeAt_append hx] at hres
    have hfirst : IsBlankText (indent ++ List.replicate (utf8Length ('/' :: '*' :: body)) ' ') = true :=
      isBlankText_append (List.all_eq_true.2 hi) (isBlankText_spaces _)
    have hmid : ∀ k ∈ mids.map (fun k : Line => (⟨k.number, List.replicate (utf8Length k.text) ' '⟩ : Line)),
        IsBlankText k.text = true := by
      simp only [List.mem_map]
      rintro k ⟨k', -, rfl⟩
      exact isBlankText_spaces _
    by_cases hr : IsBlankText rest = true
    · -- only blanks after the comment: the closing line is passed too
      rw [if_pos hr] at hres
      refine ⟨l, mids ++ m :: later, ⟨l.number, indent ++ List.replicate (utf8Length ('/' :: '*' :: body)) ' '⟩ ::
        (mids.map (fun k : Line => (⟨k.number, List.replicate (utf8Length k.text) ' '⟩ : Line)) ++
          [⟨m.number, List.replicate (utf8Length (body' ++ ['*', '/'])) ' ' ++ rest⟩]), later, rfl, hres,
        by simp, ?_⟩
      simp only [List.mem_cons, List.mem_append, List.not_mem_nil, or_false]
      rintro k (rfl | hk | rfl)
      · exact hfirst
      · exact hmid k hk
      · exact isBlankText_append (isBlankText_spaces _) hr
    · rw [if_neg hr] at hres
      refine ⟨l, mids ++ m :: later, ⟨l.number, indent ++ List.replicate (utf8Length ('/' :: '*' :: body)) ' '⟩ ::
        mids.map (fun k : Line => (⟨k.number, List.replicate (utf8Length k.text) ' '⟩ : Line)), _, rfl, hres,
        rfl, ?_⟩
      simp only [List.mem_cons]
      rintro k (rfl | hk)
      · exact hfirst
      · exact hmid k hk

theorem items_blank {l : Line} (h : IsBlankText l.text = true) (d : Draft) (later : List Line) :
    items d (l :: later) = items d later := by
  rw [items, trim_of_isBlankText h]
  rfl

theorem items_of_leadingComment {l : Line} {later ls : List Line}
    (h : Line.leadingComment l later = .ok (some ls)) (d : Draft) :
    items d (l :: later) = items d ls := by
  obtain ⟨r, hr⟩ := Line.trim_of_leadingComment h
  rw [items, hr, if_neg (by simp)]
  split
  · rename_i e hc
    rw [h] at hc
    cases hc
  · rename_i ls' hc
    rw [h] at hc
    cases hc
    rfl
  · rename_i hc
    rw [h] at hc
    cases hc

theorem members_blank {l : Line} (h : IsBlankText l.text = true) (c : ClassDecl)
    (later : List Line) : members c (l :: later) = members c later := by
  rw [members, trim_of_isBlankText h]
  rfl

theorem members_of_leadingComment {l : Line} {later ls : List Line}
    (h : Line.leadingComment l later = .ok (some ls)) (c : ClassDecl) :
    members c (l :: later) = members c ls := by
  obtain ⟨r, hr⟩ := Line.trim_of_leadingComment h
  rw [members, hr, if_neg (by simp)]
  split
  · rename_i e hc
    rw [h] at hc
    cases hc
  · rename_i ls' hc
    rw [h] at hc
    cases hc
    rfl
  · rename_i hc
    rw [h] at hc
    cases hc

/-- A reading loop that passes blank lines and goes on where a leading comment sends it reads
a blanked comment as the comment. -/
theorem CommentBlanked.reads_alike {α : Type} {F : List Line → α}
    (hblank : ∀ l later, IsBlankText l.text = true → F (l :: later) = F later)
    (hcomment : ∀ l later ls, Line.leadingComment l later = .ok (some ls) → F (l :: later) = F ls)
    {ls ls' : List Line} (h : CommentBlanked ls ls') : F ls = F ls' := by
  obtain ⟨l, later, pre, rest, rfl, hc, rfl, hpre⟩ := h.resumes
  rw [hcomment l later rest hc]
  clear h
  -- the blank lines before the place where reading resumes are passed one by one
  induction pre with
  | nil => rfl
  | cons k pre ih =>
    rw [List.cons_append, hblank k _ (hpre k List.mem_cons_self),
      ih fun k' hk' => hpre k' (List.mem_cons_of_mem _ hk')]

theorem CommentBlanked.items_eq {ls ls' : List Line} (h : CommentBlanked ls ls') (d : Draft) :
    items d ls = items d ls' :=
  h.reads_alike (fun _ later hb => items_blank hb d later)
    (fun _ _ _ hc => items_of_leadingComment hc d)

/-- A comment that opens an item reads as the spaces in its place: from any point where the
reader takes up its next item, at the top level or in a class body, blanking the comment out
changes nothing, when it closes on a later line, or has nothing but blanks after it, or follows
an indentation of spaces. -/
theorem leading_comment_reads_as_blanks {ls ls' : List Line} (h : CommentBlanked ls ls') :
    (∀ d, items d ls = items d ls') ∧ ∀ c, members c ls = members c ls' :=
  ⟨h.items_eq, fun c => h.reads_alike (fun _ later hb => members_blank hb c later)
    (fun _ _ _ hc => members_of_leadingComment hc c)⟩

theorem spaced_comment_reads_as_blanks :
    (∀ d, items d [⟨1, "  /* c */ x = 1;".toList⟩] = items d [⟨1, "          x = 1;".toList⟩]) ∧
      ∀ c, members c [⟨1, "  /* c */ x = 1;".toList⟩] = members c [⟨1, "          x = 1;".toList⟩] := by
  have hsp : ∀ c ∈ "  ".toList, c = ' ' := by
    simp only [show "  ".toList = [' ', ' '] from rfl, List.mem_cons, List.not_mem_nil, or_false]
    rintro c (rfl | rfl) <;> rfl
  have hB : "  ".toList ++ List.replicate (utf8Length ('/' :: '*' :: " c ".toList ++ ['*', '/'])) ' ' ++
      " x = 1;".toList = "          x = 1;".toList := by decide +kernel
  have h := leading_comment_reads_as_blanks
    (@CommentBlanked.sameLine ⟨1, "  /* c */ x = 1;".toList⟩ "  ".toList " c ".toList " x = 1;".toList []
      (fun c hc => by rw [hsp c hc]; rfl) rfl (by decide +kernel) (.inl hsp))
  rw [hB] at h
  exact h

/-- A comment that opens a module reads as the spaces in its place: a source whose first line
opens with a comment parses, in either mode, as the source with that comment blanked out. -/
theorem parse_opening_comment_blanked {path A B : String} (mode : Scoping)
    (h : CommentBlanked (Line.ofSource A.toList) (Line.ofSource B.toList)) :
    parse path A mode = parse path B mode := by
  simp only [parse, read, h.items_eq]

end Module

end ModuleBundler
