import ModuleBundler.Proofs.Module.Loops
import ModuleBundler.Proofs.CallSite.Lines
import Mathlib

/-!
Functions are read in source order.

Every function-like item of a module keeps the number of its header line. The reader takes its
items from lines in increasing order, and each item ends before the next begins: a function or
a class ends with the line that holds its closing brace, and reading goes on after that line.
So the functions before the class come in order and before the class's header; the constructor
and the methods lie between the class's header and the line where a tracker started at the
class's `{` first closes a brace at depth 0 (`Line.ClosesClassAt`), no two on one line; and the
functions after the class come in order after that line. Sorting by
line then lists every function once, in strictly increasing order of lines
(`parse_functions_in_source_order`).
-/

namespace ModuleBundler

open Text Syntax

namespace Brace.State

/-- A counted brace that closes is a `}` of the text. -/
theorem step_closes {s : State} {q : Option Char} {pos : Nat} {c : Char} {next : Option Char}
    {e : Event} (h : (s.step q pos c next).event = some e) (ho : e.opens = false) : c = '\x7d' := by
  simpa [ho] using (step_event h).2.2.2

theorem scan_closes (s : State) (q : Option Char) (pos : Nat) (cs : List Char) :
    ∀ e ∈ (s.scan q pos cs).2, e.opens = false → '\x7d' ∈ cs := by
  fun_induction s.scan q pos cs with
  | case1 s q pos => simp
  | case2 s q pos c rest m hstop => simp
  | case3 s q pos c rest m hstop s' evs heq ih =>
    simp only [m, dite_eq_ite] at hstop ih heq
    rw [heq] at ih
    intro e he ho
    rcases List.mem_append.1 he with he | he
    · rw [step_closes (Option.mem_toList.1 he) ho]
      exact List.mem_cons_self
    · have hin := ih e he ho
      -- the rest is read from the next character, or the one after when two pair
      split at hin
      · exact List.mem_cons_of_mem c (List.mem_of_mem_tail hin)
      · exact List.mem_cons_of_mem c hin

theorem feed_closes {s : State} {cs : List Char} {e : Event} (h : e ∈ (s.feed cs).2)
    (ho : e.opens = false) : '\x7d' ∈ cs :=
  scan_closes s none 0 cs e h ho

end Brace.State

namespace Line

theorem ofSource_ascending (cs : List Char) : Ascending (ofSource cs) := by
  have h := List.pairwise_lt_range' (s := 0) (n := (lines cs).length) 1 (by omega)
  rw [← List.zipIdx_map_snd, List.pairwise_map] at h
  unfold Ascending ofSource
  rw [List.pairwise_map]
  exact h.imp fun hab => by simpa using hab

theorem one_le_of_mem_ofSource {cs : List Char} {l : Line} (h : l ∈ ofSource cs) : 1 ≤ l.number := by
  obtain ⟨⟨t, i⟩, -, rfl⟩ := List.mem_map.1 h
  simp

theorem Ascending.sublist {ls ls' : List Line} (h : Ascending ls) (hs : ls'.Sublist ls) :
    Ascending ls' :=
  List.Pairwise.sublist hs h

/-- In lines numbered in increasing order, the lines up to the `n`-th come no later than it. -/
theorem Ascending.le_of_mem_take {ls : List Line} (h : Ascending ls) {n : Nat} {close m : Line}
    (hc : ls[n]? = some close) (hm : m ∈ ls.take (n + 1)) : m.number ≤ close.number := by
  obtain ⟨i, hi, rfl⟩ := List.getElem_of_mem hm
  obtain ⟨hn, rfl⟩ := List.getElem?_eq_some_iff.1 hc
  simp only [List.length_take, List.getElem_take] at hi ⊢
  rcases Nat.lt_or_eq_of_le (Nat.le_of_lt_succ (lt_of_lt_of_le hi (min_le_left _ _))) with hlt | heq
  · exact le_of_lt (List.pairwise_iff_getElem.1 h i n _ hn hlt)
  · simp [heq]

/-- In lines numbered in increasing order, the lines after the `n`-th come later than it. -/
theorem Ascending.lt_of_mem_drop {ls : List Line} (h : Ascending ls) {n : Nat} {close m : Line}
    (hc : ls[n]? = some close) (hm : m ∈ ls.drop (n + 1)) : close.number < m.number := by
  obtain ⟨hn, rfl⟩ := List.getElem?_eq_some_iff.1 hc
  obtain ⟨i, hi, rfl⟩ := List.getElem_of_mem hm
  simp only [List.length_drop, List.getElem_drop] at hi ⊢
  exact List.pairwise_iff_getElem.1 h n (n + 1 + i) hn (by omega) (by omega)

theorem functionAt_line {l : Line} {later : List Line} {paren : Nat} {name : String}
    {exported isAsync : Bool} {f : FunctionDecl} {n : Nat}
    (h : functionAt l later paren name exported isAsync = .ok (f, n)) : f.line = l.number := by
  unfold functionAt at h
  -- the function is made, on the header line, once its parameters, `{` and body are read
  split at h
  · cases h
  split at h
  · cases h
  split at h
  · cases h
  cases h
  rfl

/-- The line of the `{` of a body and the lines after it are what is left after `extra` lines. -/
theorem braceSpot_drop {l : Line} {after : Nat} {later : List Line} {owner : BodyOwner}
    {spot : BraceSpot} (h : braceSpot l after later owner = .ok spot) :
    spot.line :: spot.more = (l :: later).drop spot.extra := by
  unfold braceSpot at h
  dsimp only at h
  split at h
  · cases h
    rfl
  · split at h
    · split at h
      · rename_i m j rest hd
        split at h
        · cases h
          have hmem : (m, j) ∈ later.zipIdx :=
            (List.dropWhile_suffix _).subset (hd ▸ List.mem_cons_self)
          have hj : later[j]? = some m := List.mem_zipIdx_iff_getElem?.1 hmem
          simp only [List.drop_succ_cons]
          rw [List.drop_eq_getElem_cons (List.getElem?_eq_some_iff.1 hj).1,
            (List.getElem?_eq_some_iff.1 hj).2]
        · cases h
      · cases h
    · cases h

/-- Fed line after line to the tracker from `s`, the texts `ts` first close a block at depth 0
on the `n`-th of them. -/
def ClosesOn (s : Brace.State) (ts : List (List Char)) (n : Nat) : Prop :=
  (∀ p ∈ (s.feedLines ts).1.take n, ∀ e ∈ p.2, closesBlock e = false) ∧
    ∃ p ∈ (s.feedLines ts).1[n]?, ∃ e ∈ p.2, closesBlock e = true

theorem closesOn_zero {s : Brace.State} {t : List Char} (ts : List (List Char))
    {close : Brace.Event} (h : (s.feed t).2.find? closesBlock = some close) :
    ClosesOn s (t :: ts) 0 :=
  ⟨by simp, (t, (s.feed t).2), by simp [Brace.State.feedLines], close,
    List.mem_of_find?_eq_some h, List.find?_some h⟩

theorem ClosesOn.cons {s : Brace.State} {t : List Char} {ts : List (List Char)} {n : Nat}
    (ht : (s.feed t).2.find? closesBlock = none) (h : ClosesOn (s.feed t).1 ts n) :
    ClosesOn s (t :: ts) (n + 1) := by
  obtain ⟨hbefore, hat⟩ := h
  refine ⟨fun p hp => ?_, by simpa [Brace.State.feedLines] using hat⟩
  simp only [Brace.State.feedLines, List.take_succ_cons, List.mem_cons] at hp
  rcases hp with rfl | hp
  · exact fun e he => by simpa using List.find?_eq_none.1 ht e he
  · exact hbefore p hp

/-- Where a body ends: the body's lines come from its first line and the lines after it up to
the `extra`-th one after it, on which the tracker first closes a block at depth 0. -/
theorem bodyRest_spec {opener : Line} {b : Body} :
    ∀ {st : Brace.State} {body : List Line} {extra : Nat} {ms : List Line},
      bodyRest opener st body extra ms = .ok b →
      ∃ i close, ms[i]? = some close ∧ b.extra = extra + 1 + i ∧ '\x7d' ∈ close.text ∧
        ClosesOn st (ms.map Line.text) i ∧
        (b.lines.map number).Sublist (body.map number ++ (ms.take (i + 1)).map number)
  | _, _, _, [], h => by simp [bodyRest] at h
  | st, body, extra, m :: ms, h => by
    unfold bodyRest at h
    dsimp only at h
    split at h
    · -- the closing brace is on this line
      rename_i close hclose
      cases h
      have ho : close.opens = false := by
        have := List.find?_some hclose
        simp only [closesBlock, Bool.and_eq_true, Bool.not_eq_true'] at this
        exact this.1
      refine ⟨0, m, rfl, rfl, Brace.State.feed_closes (List.mem_of_find?_eq_some hclose) ho,
        closesOn_zero _ hclose, ?_⟩
      unfold keepPiece
      split
      · exact List.sublist_append_left _ _
      · simp
    · -- the body goes on after this line
      rename_i hnone
      obtain ⟨i, close, hi, hextra, hmem, hcl, hsub⟩ := bodyRest_spec h
      refine ⟨i + 1, close, hi, by omega, hmem, ClosesOn.cons hnone hcl, ?_⟩
      simpa using hsub

theorem keepPiece_numbers_sublist (number : Nat) (piece : List Char) :
    ((keepPiece [] number piece).map Line.number).Sublist [number] := by
  unfold keepPiece
  split <;> simp

/-- A body opened at position `pos` of `l` ends at the `extra`-th line after it, where the
tracker fed from the `{` first closes a block at depth 0, and its lines come from the lines up to
that one. -/
theorem body_spec {l : Line} {pos : Nat} {later : List Line} {b : Body}
    (h : body l pos later = .ok b) :
    ∃ close, (l :: later)[b.extra]? = some close ∧ '\x7d' ∈ close.text ∧
      ClosesOn Brace.State.initial ((l.text.drop pos) :: later.map Line.text) b.extra ∧
      (b.lines.map number).Sublist (((l :: later).take (b.extra + 1)).map number) := by
  unfold body at h
  dsimp only at h
  split at h
  · -- the body closes on its first line
    rename_i close hclose
    cases h
    have ho : close.opens = false := by
      have := List.find?_some hclose
      simp only [closesBlock, Bool.and_eq_true, Bool.not_eq_true'] at this
      exact this.1
    have hin := Brace.State.feed_closes (List.mem_of_find?_eq_some hclose) ho
    refine ⟨l, rfl, List.mem_of_mem_drop hin, closesOn_zero _ hclose, ?_⟩
    simpa using keepPiece_numbers_sublist l.number _
  · rename_i hnone
    obtain ⟨i, close, hi, hextra, hmem, hcl, hsub⟩ := bodyRest_spec h
    refine ⟨close, by rw [hextra]; simpa [Nat.add_comm] using hi, hmem,
      by rw [hextra, Nat.zero_add, Nat.add_comm]; exact ClosesOn.cons hnone hcl, ?_⟩
    rw [hextra, Nat.zero_add, Nat.add_comm 1 i, List.take_succ_cons, List.map_cons]
    exact hsub.trans ((keepPiece_numbers_sublist l.number _).append (List.Sublist.refl _))

/-! ### Where the body of a class closes -/

/-- The `{` at position `pos` of the `k`-th of the lines `src` opens the body of a class `name`
declared on the `kh`-th: that line reads `class`, blanks and the name, and only blanks follow up
to the `{`, on the header line itself or first on a later line after blank lines. -/
def OpensClass (src : List Line) (kh : Nat) (name : List Char) (k pos : Nat) : Prop :=
  ∃ hl o, src[kh]? = some hl ∧ src[k]? = some o ∧ o.text[pos]? = some '\x7b' ∧
    ∃ pre sp sp', sp ≠ [] ∧ (∀ c ∈ sp ++ sp', isBlank c = true) ∧
      ((k = kh ∧ o.text.take pos = pre ++ "class".toList ++ sp ++ name ++ sp') ∨
        (kh < k ∧ hl.text = pre ++ "class".toList ++ sp ++ name ++ sp' ∧
          (∀ i m, kh < i → i < k → src[i]? = some m → ∀ c ∈ m.text, isBlank c = true) ∧
          ∀ c ∈ o.text.take pos, isBlank c = true))

/-- The line numbered `close` holds the `}` that closes the body of the class `name` declared on
the `kh`-th of the lines `src`: fed to a fresh tracker line after line from the `{` that opens the
body, the lines first close a block at depth 0 on it. -/
def ClosesClassAt (src : List Line) (kh : Nat) (name : List Char) (close : Nat) : Prop :=
  ∃ k pos n o, OpensClass src kh name k pos ∧ src[k]? = some o ∧
    ClosesOn Brace.State.initial ((o.text.drop pos) :: (src.drop (k + 1)).map text) n ∧
    (src[k + n]?).map number = some close

/-- The body of a class whose header is on line `l`, opened where `braceSpot` finds its `{` and
read by `body`, closes on the line where the tracker first closes a block at depth 0. -/
theorem closesClassAt_of_body {l : Line} {later : List Line} {h : Header.ClassHeader}
    {owner : BodyOwner} {spot : BraceSpot} {b : Body} {close : Line}
    (hh : Header.class? (trim l.text) = some h)
    (hspot : braceSpot l (indentation l.text + h.restAt) later owner = .ok spot)
    (hb : body spot.line spot.pos spot.more = .ok b)
    (hclose : (l :: later)[spot.extra + b.extra]? = some close) :
    ClosesClassAt (l :: later) 0 h.name close.number := by
  have hdrop := braceSpot_drop hspot
  have hline : (l :: later)[spot.extra]? = some spot.line := by
    have := congrArg (·[0]?) hdrop
    simp only [List.getElem?_cons_zero, List.getElem?_drop, Nat.add_zero] at this
    exact this.symm
  have hmore : (l :: later).drop (spot.extra + 1) = spot.more := by
    rw [← List.drop_drop, ← hdrop]
    rfl
  obtain ⟨-, -, -, hcl, -⟩ := body_spec hb
  obtain ⟨pre, sp, sp', hsp, hblank, htake⟩ := Header.take_classHeader hh
  refine ⟨spot.extra, spot.pos, b.extra, spot.line,
    ⟨l, spot.line, rfl, hline, braceSpot_brace hspot, ?_⟩, hline, hmore ▸ hcl, by simp [hclose]⟩
  rcases braceSpot_opens hspot with ⟨he, hl, sp₂, hsp₂, htk⟩ | ⟨hpos, hrest, hbetween, hopen⟩
  · -- the `{` follows the name on the header line
    refine ⟨pre, sp, sp' ++ sp₂, hsp, fun c hc => ?_, .inl ⟨he, ?_⟩⟩
    · simp only [List.mem_append] at hc
      rcases hc with hc | hc | hc
      · exact hblank c (List.mem_append_left _ hc)
      · exact hblank c (List.mem_append_right _ hc)
      · exact hsp₂ c hc
    · rw [hl, htk, htake]
      simp only [List.append_assoc]
  · -- the `{` opens the first line after the header that is not blank
    refine ⟨pre, sp, sp' ++ l.text.drop (indentation l.text + h.restAt), hsp, fun c hc => ?_,
      .inr ⟨hpos, ?_, fun i m hi hik hm => ?_, hopen⟩⟩
    · simp only [List.mem_append] at hc
      rcases hc with hc | hc | hc
      · exact hblank c (List.mem_append_left _ hc)
      · exact hblank c (List.mem_append_right _ hc)
      · exact hrest c hc
    · calc l.text = l.text.take (indentation l.text + h.restAt) ++
            l.text.drop (indentation l.text + h.restAt) := (List.take_append_drop _ _).symm
        _ = _ := by rw [htake]; simp only [List.append_assoc]
    · obtain ⟨j, rfl⟩ : ∃ j, i = j + 1 := ⟨i - 1, by omega⟩
      refine hbetween m (List.mem_of_getElem? (i := j) ?_)
      rw [List.getElem?_take, if_pos (by omega)]
      simpa using hm

/-- The lines as read start with a blanked copy of a source line and go on with the source's
lines: where the body of a class declared on the first of them closes, it closes in the source. -/
theorem ClosesClassAt.blanked {l₀ l : Line} {later P : List Line} {name : List Char}
    {close : Nat} (h : ClosesClassAt (l :: later) 0 name close) (hb : Blanked l₀ l) :
    ClosesClassAt (P ++ l₀ :: later) P.length name close := by
  have hl₀ : (P ++ l₀ :: later)[P.length]? = some l₀ := by simp
  have hget : ∀ i, (P ++ l₀ :: later)[P.length + (i + 1)]? = (l :: later)[i + 1]? := by
    intro i
    rw [List.getElem?_append_right (by omega)]
    simp
  have hnum : ∀ i, ((P ++ l₀ :: later)[P.length + i]?).map number =
      ((l :: later)[i]?).map number := by
    intro i
    cases i with
    | zero => simp [hb.1]
    | succ i => rw [hget]
  have hdrop : ∀ k, (P ++ l₀ :: later).drop (P.length + k + 1) = (l :: later).drop (k + 1) := by
    intro k
    rw [Nat.add_assoc, List.drop_length_add_append]
    rfl
  obtain ⟨k, pos, n, o, ⟨hl, o', hhl, ho', hbrace, pre, sp, sp', hsp, hbl, hcase⟩, ho, hcl,
    hclose⟩ := h
  obtain rfl : l = hl := by simpa using hhl
  obtain rfl : o = o' := Option.some_injective _ (ho.symm.trans ho')
  rcases hcase with ⟨rfl, htake⟩ | ⟨hk, hhead, hbetween, hopen⟩
  · -- the `{` is on the header line: it stands in the source line after the same text
    obtain rfl : l = o := by simpa using ho
    obtain ⟨X, hX⟩ : ∃ X, X = "class".toList ++ sp ++ name ++ sp' := ⟨_, rfl⟩
    have hsplit : l.text = pre ++ (X ++ l.text.drop pos) :=
      calc l.text = l.text.take pos ++ l.text.drop pos := (List.take_append_drop _ _).symm
        _ = _ := by rw [htake, hX]; simp only [List.append_assoc]
    obtain ⟨pre₀, hpre₀⟩ := hb.suffix hsplit (by simp [hX])
    rw [← List.append_assoc] at hpre₀
    have hlen : (pre₀ ++ X).length = pre₀.length + X.length := List.length_append
    have hrest : (P ++ l₀ :: later).drop (P.length + 1) = (l :: later).drop 1 := hdrop 0
    refine ⟨P.length, pre₀.length + X.length, n, l₀,
      ⟨l₀, l₀, hl₀, hl₀, ?_, pre₀, sp, sp', hsp, hbl, .inl ⟨rfl, ?_⟩⟩, hl₀, ?_, ?_⟩
    · rw [← hpre₀, ← hlen, List.getElem?_append_right (le_refl _), Nat.sub_self,
        List.getElem?_drop, Nat.add_zero]
      exact hbrace
    · rw [← hpre₀, ← hlen, List.take_left' rfl, hX]
      simp only [List.append_assoc]
    · rw [← hpre₀, ← hlen, List.drop_left' rfl, hrest]
      exact hcl
    · rw [hnum n]
      simpa using hclose
  · -- the `{` opens a later line, which the source holds as read
    have hk' : (P ++ l₀ :: later)[P.length + k]? = some o := by
      obtain ⟨j, rfl⟩ : ∃ j, k = j + 1 := ⟨k - 1, by omega⟩
      rw [hget]
      exact ho
    obtain ⟨pre₀, hpre₀⟩ := hb.suffix (a := pre) (b := "class".toList ++ sp ++ name ++ sp')
      (by rw [hhead]; simp only [List.append_assoc]) (by simp)
    refine ⟨P.length + k, pos, n, o, ⟨l₀, o, hl₀, hk', hbrace, pre₀, sp, sp', hsp, hbl,
      .inr ⟨by omega, by rw [← hpre₀]; simp only [List.append_assoc], fun i m hi hik hm => ?_,
        hopen⟩⟩, hk', by rw [hdrop k]; exact hcl, by rw [Nat.add_assoc, hnum]; exact hclose⟩
    obtain ⟨j, rfl⟩ : ∃ j, i = P.length + (j + 1) := ⟨i - P.length - 1, by omega⟩
    exact hbetween (j + 1) m (by omega) (by omega) (by rw [← hget]; exact hm)

end Line

namespace Module

/-! ### What each kind of item adds -/

theorem numbers_of_leadingComment {l : Line} {later ls : List Line}
    (h : Line.leadingComment l later = .ok (some ls)) {m : Line} (hm : m ∈ ls) :
    ∃ m' ∈ l :: later, m'.number = m.number := by
  have hs := ((Line.remains_self (l :: later)).leadingComment h).numbers.subset
    (List.mem_map_of_mem (f := Line.number) hm)
  obtain ⟨m', hm', he⟩ := List.mem_map.1 hs
  exact ⟨m', hm', he⟩

/-- A property that each step of a fold that may fail keeps holds of its result. -/
theorem foldlM_invariant {α β ε : Type} (P : α → Prop) {f : α → β → Except ε α}
    (hf : ∀ a b a', f a b = .ok a' → P a → P a') :
    ∀ {xs : List β} {a a' : α}, xs.foldlM f a = .ok a' → P a → P a'
  | [], a, a', h, ha => by
    cases h
    exact ha
  | b :: xs, a, a', h, ha => by
    rw [List.foldlM_cons] at h
    cases hb : f a b with
    | error e =>
      rw [hb] at h
      cases h
    | ok a₁ =>
      rw [hb] at h
      exact foldlM_invariant P hf h (hf a b a₁ hb ha)

/-- The reader of export lists records bindings and the default export only. -/
theorem exportList_frame {d d' : Draft} {no : Nat} {list : List Char}
    (h : exportList d no list = .ok d') :
    d'.imports = d.imports ∧ d'.functions = d.functions ∧ d'.cls = d.cls ∧
      d'.statements = d.statements := by
  refine foldlM_invariant (fun d₁ : Draft => d₁.imports = d.imports ∧ d₁.functions = d.functions ∧
    d₁.cls = d.cls ∧ d₁.statements = d.statements) ?_ h ⟨rfl, rfl, rfl, rfl⟩
  -- each entry changes the bindings or the default export, and nothing else
  intro a entry a' hstep ha
  dsimp only at hstep
  split at hstep
  · cases hstep
  · split at hstep <;> (cases hstep; exact ha)

/-- An import item adds imports only. -/
theorem importItem_frame {d d' : Draft} {l : Line} {later : List Line} {n : Nat}
    (h : importItem d l later = .ok (d', n)) : d'.functions = d.functions ∧ d'.cls = d.cls := by
  unfold importItem at h
  dsimp only at h
  split at h
  · cases h
  · split at h
    · cases h
      exact ⟨rfl, rfl⟩
    · cases h

/-- A statement item adds statements, export bindings or the default export, and no function. -/
theorem statementItem_frame {d d' : Draft} {l : Line} {later : List Line} {n : Nat}
    (h : statementItem d l later = .ok (d', n)) : d'.functions = d.functions ∧ d'.cls = d.cls := by
  unfold statementItem at h
  dsimp only at h
  split at h
  · -- an export list
    cases hx : exportList d l.number _ with
    | error e =>
      rw [hx] at h
      cases h
    | ok d₁ =>
      rw [hx] at h
      cases h
      obtain ⟨-, h₂, h₃, -⟩ := exportList_frame hx
      exact ⟨h₂, h₃⟩
  · split at h
    · cases h
    · rename_i first d₁ hstart
      -- each way a statement starts changes the exports or the default export only
      have hd₁ : d₁.functions = d.functions ∧ d₁.cls = d.cls := by
        split at hstart
        · cases hstart
          exact ⟨rfl, rfl⟩
        split at hstart
        · cases hstart
          exact ⟨rfl, rfl⟩
        split at hstart
        · cases hstart
        · cases hstart
          exact ⟨rfl, rfl⟩
      split at h
      · cases h
      · split at h
        · cases h
        · cases h
          exact hd₁

/-- A function item adds one function on its first line: before the class, or, once the class
is read, after it. -/
theorem functionItem_spec {d d' : Draft} {l : Line} {later : List Line} {h : Header.FunctionHeader}
    {n : Nat} (hi : functionItem d l later h = .ok (d', n)) :
    ∃ f : FunctionDecl, f.line = l.number ∧
      ((d.cls = none ∧ d'.cls = none ∧ d'.functions = d.functions ++ [f]) ∨
        ∃ c, d.cls = some c ∧ d'.cls = some { c with trailing := c.trailing ++ [f] } ∧
          d'.functions = d.functions) := by
  unfold functionItem at hi
  dsimp only at hi
  split at hi
  · cases hi
  · rename_i f extra hf
    refine ⟨f, Line.functionAt_line hf, ?_⟩
    -- the default mark changes the default export only
    split at hi <;> split at hi <;> rename_i hcls <;> cases hi <;> simp_all

/-! ### The members of a class -/

/-- The constructor and methods read so far from the body lines `body`: the methods in order of
their lines, no two of them and the constructor on one line, each on a line of the body, and
before every line left to read. -/
def MembersInOrder (body : List Line) (c : ClassDecl) (ls : List Line) : Prop :=
  Line.Remains body ls ∧ c.methods.Pairwise (·.line < ·.line) ∧
    ((c.ctor.toList ++ c.methods).map (·.line)).Nodup ∧
    ∀ f ∈ c.ctor.toList ++ c.methods, f.line ∈ body.map Line.number ∧ ∀ m ∈ ls, f.line < m.number

/-- Reading a member at line `l` leaves the members read before it on earlier lines, and the
lines after it later. -/
theorem MembersInOrder.read {body : List Line} (hb : Line.Ascending body) {c : ClassDecl}
    {l : Line} {later : List Line} (h : MembersInOrder body c (l :: later)) (n : Nat) :
    l.number ∈ body.map Line.number ∧ (∀ f ∈ c.ctor.toList ++ c.methods, f.line < l.number) ∧
      ∀ m ∈ (l :: later).drop (n + 1), l.number < m.number := by
  obtain ⟨hr, -, -, hf⟩ := h
  obtain ⟨l₀, hl₀, hn, -⟩ := hr.mem List.mem_cons_self
  refine ⟨hn ▸ List.mem_map_of_mem hl₀, fun f hmem => (hf f hmem).2 l List.mem_cons_self, ?_⟩
  intro m hm
  rw [List.drop_succ_cons] at hm
  exact (hr.ascending hb).lt_of_mem (List.mem_of_mem_drop hm)

theorem membersInOrder_skip {body : List Line} {c : ClassDecl} {l : Line} {later : List Line}
    (h : MembersInOrder body c (l :: later)) : MembersInOrder body c later :=
  ⟨h.1.tail, h.2.1, h.2.2.1, fun f hf =>
    ⟨(h.2.2.2 f hf).1, fun m hm => (h.2.2.2 f hf).2 m (List.mem_cons_of_mem l hm)⟩⟩

theorem membersInOrder_comment {body : List Line} {c : ClassDecl} {l : Line}
    {later ls : List Line} (hc : Line.leadingComment l later = .ok (some ls))
    (h : MembersInOrder body c (l :: later)) : MembersInOrder body c ls := by
  refine ⟨h.1.leadingComment hc, h.2.1, h.2.2.1, fun f hf => ⟨(h.2.2.2 f hf).1, fun m hm => ?_⟩⟩
  obtain ⟨m', hm', he⟩ := numbers_of_leadingComment hc hm
  rw [← he]
  exact (h.2.2.2 f hf).2 m' hm'

theorem membersInOrder_ctor {body : List Line} (hb : Line.Ascending body) {c : ClassDecl}
    {l : Line} {later : List Line} {f : FunctionDecl} {n : Nat} (hr : MethodRead l later f n)
    (hct : c.ctor = none) (h : MembersInOrder body c (l :: later)) :
    MembersInOrder body { c with ctor := some f } ((l :: later).drop (n + 1)) := by
  obtain ⟨hh, -, hf⟩ := hr
  obtain ⟨hl, hbefore, hafter⟩ := h.read hb n
  have hline := Line.functionAt_line hf
  refine ⟨h.1.drop (n + 1), h.2.1, ?_, ?_⟩
  · have hnd := h.2.2.1
    simp only [hct, Option.toList_none, List.nil_append] at hnd hbefore
    simp only [Option.toList_some, List.singleton_append, List.map_cons, List.nodup_cons]
    refine ⟨fun hmem => ?_, hnd⟩
    obtain ⟨g, hg, he⟩ := List.mem_map.1 hmem
    have := hbefore g hg
    omega
  · intro g hg
    simp only [Option.toList_some, List.singleton_append, List.mem_cons] at hg
    rcases hg with rfl | hg
    · exact ⟨hline ▸ hl, fun m hm => hline ▸ hafter m hm⟩
    · have hg' : g ∈ c.ctor.toList ++ c.methods := by simp [hct, hg]
      exact ⟨(h.2.2.2 g hg').1, fun m hm => lt_trans (hbefore g hg') (hafter m hm)⟩

theorem membersInOrder_method {body : List Line} (hb : Line.Ascending body) {c : ClassDecl}
    {l : Line} {later : List Line} {f : FunctionDecl} {n : Nat} (hr : MethodRead l later f n)
    (h : MembersInOrder body c (l :: later)) :
    MembersInOrder body { c with methods := c.methods ++ [f] } ((l :: later).drop (n + 1)) := by
  obtain ⟨hh, -, hf⟩ := hr
  obtain ⟨hl, hbefore, hafter⟩ := h.read hb n
  have hline := Line.functionAt_line hf
  refine ⟨h.1.drop (n + 1), ?_, ?_, ?_⟩
  · refine List.pairwise_append.2 ⟨h.2.1, List.pairwise_singleton _ _, ?_⟩
    intro g hg f' hf'
    rw [List.mem_singleton.1 hf', hline]
    exact hbefore g (List.mem_append_right _ hg)
  · rw [← List.append_assoc, List.map_append, List.nodup_append]
    refine ⟨h.2.2.1, List.nodup_singleton _, ?_⟩
    intro a ha b hb'
    obtain ⟨g, hg, rfl⟩ := List.mem_map.1 ha
    simp only [List.map_cons, List.map_nil, List.mem_singleton] at hb'
    have := hbefore g hg
    omega
  · intro g hg
    rw [← List.append_assoc, List.mem_append, List.mem_singleton] at hg
    rcases hg with hg | rfl
    · exact ⟨(h.2.2.2 g hg).1, fun m hm => lt_trans (hbefore g hg) (hafter m hm)⟩
    · exact ⟨hline ▸ hl, fun m hm => hline ▸ hafter m hm⟩

theorem membersInOrder_field {body : List Line} (hb : Line.Ascending body) {c : ClassDecl}
    {l : Line} {later : List Line} (member : String) (n : Nat)
    (h : MembersInOrder body c (l :: later)) :
    MembersInOrder body { c with fields := c.fields ++ [member] } ((l :: later).drop (n + 1)) := by
  obtain ⟨-, hbefore, hafter⟩ := h.read hb n
  exact ⟨h.1.drop (n + 1), h.2.1, h.2.2.1, fun g hg =>
    ⟨(h.2.2.2 g hg).1, fun m hm => lt_trans (hbefore g hg) (hafter m hm)⟩⟩

/-- The constructor and methods of a class body are on lines of the body, the methods in order,
no two of them and the constructor on one line. -/
theorem members_in_order {body : List Line} (hb : Line.Ascending body) {c c' : ClassDecl}
    (hc : c.ctor = none) (hm : c.methods = []) (h : members c body = .ok c') :
    c'.methods.Pairwise (·.line < ·.line) ∧ ((c'.ctor.toList ++ c'.methods).map (·.line)).Nodup ∧
      ∀ f ∈ c'.ctor.toList ++ c'.methods, f.line ∈ body.map Line.number := by
  have hinv := members_invariant (MembersInOrder body)
    (fun _ _ _ h => membersInOrder_skip h) (fun _ _ _ _ hc h => membersInOrder_comment hc h)
    (fun _ _ _ _ _ hr _ hct h => membersInOrder_ctor hb hr hct h)
    (fun _ _ _ _ _ hr _ h => membersInOrder_method hb hr h)
    (fun _ _ _ member n h => membersInOrder_field hb member n h) h
    ⟨Line.remains_self body, by simp [hm], by simp [hc, hm], by simp [hc, hm]⟩
  exact ⟨hinv.2.1, hinv.2.2.1, fun f hf => (hinv.2.2.2 f hf).1⟩

/-- Reading a class body keeps the class's name, marks, header line and trailing functions. -/
theorem members_keeps {c c' : ClassDecl} {ls : List Line} (h : members c ls = .ok c') :
    c'.name = c.name ∧ c'.exported = c.exported ∧ c'.line = c.line ∧ c'.trailing = c.trailing := by
  refine members_invariant (fun c₁ _ => c₁.name = c.name ∧ c₁.exported = c.exported ∧
    c₁.line = c.line ∧ c₁.trailing = c.trailing) (fun _ _ _ h => h) (fun _ _ _ _ _ h => h)
    (fun _ _ _ _ _ _ _ _ h => h) (fun _ _ _ _ _ _ _ h => h) (fun _ _ _ _ _ h => h) h
    ⟨rfl, rfl, rfl, rfl⟩

/-- A class item reads the class on the lines up to the `n`-th after its header, the last of
which closes the class's body: its constructor and methods lie on those lines, the methods in
order, no two of them and the constructor on one line. -/
theorem classItem_spec {d d' : Draft} {l : Line} {later : List Line} {h : Header.ClassHeader}
    {n : Nat} (hasc : Line.Ascending (l :: later)) (hh : Header.class? (trim l.text) = some h)
    (hi : classItem d l later h = .ok (d', n)) :
    d.cls = none ∧ d'.functions = d.functions ∧
      ∃ c close, d'.cls = some c ∧ c.line = l.number ∧ c.trailing = [] ∧
        (l :: later)[n]? = some close ∧ Line.ClosesClassAt (l :: later) 0 c.name.toList close.number ∧
        c.methods.Pairwise (·.line < ·.line) ∧ ((c.ctor.toList ++ c.methods).map (·.line)).Nodup ∧
        ∀ f ∈ c.ctor.toList ++ c.methods, f.line ∈ ((l :: later).take (n + 1)).map Line.number := by
  unfold classItem at hi
  dsimp only at hi
  split at hi
  · cases hi
  · rename_i hcls
    split at hi
    · cases hi
    · split at hi
      · cases hi
      · rename_i spot hspot
        split at hi
        · cases hi
        · rename_i b hb
          split at hi
          · cases hi
          · rename_i c hc
            obtain ⟨close, hclose, -, -, hsub⟩ := Line.body_spec hb
            have hdrop := Line.braceSpot_drop hspot
            have hclose' : (l :: later)[spot.extra + b.extra]? = some close := by
              rw [← List.getElem?_drop, ← hdrop]
              exact hclose
            -- the body's lines come from the lines after the `{`, in increasing order
            have hasc' : Line.Ascending (spot.line :: spot.more) :=
              hdrop ▸ hasc.sublist (List.drop_sublist _ _)
            have hbody : Line.Ascending b.lines := by
              have hmap : ((spot.line :: spot.more).map Line.number).Pairwise (· < ·) :=
                List.pairwise_map.2 hasc'
              exact List.pairwise_map.1 ((hmap.sublist (List.take_sublist _ _ |>.map _)).sublist hsub)
            obtain ⟨hmeth, hnd, hon⟩ := members_in_order hbody rfl rfl hc
            obtain ⟨hname, -, hline, htrail⟩ := members_keeps hc
            have htake : ((spot.line :: spot.more).take (b.extra + 1)).Sublist
                ((l :: later).take (spot.extra + b.extra + 1)) := by
              rw [hdrop, List.take_drop, Nat.add_assoc]
              exact List.drop_sublist _ _
            -- the default mark changes the default export only
            obtain ⟨hcls', hfun, rfl⟩ : d'.cls = some c ∧ d'.functions = d.functions ∧
                n = spot.extra + b.extra := by
              split at hi <;> (cases hi; exact ⟨rfl, rfl, rfl⟩)
            refine ⟨hcls, hfun, c, close, hcls', hline, htrail, hclose', ?_, hmeth, hnd,
              fun f hf => (htake.map Line.number).subset (hsub.subset (hon f hf))⟩
            rw [hname, String.toList_ofList]
            exact Line.closesClassAt_of_body hh hspot hb hclose'

/-! ### The items of a module -/

/-- The class in order with the functions `fs` before it and with the lines up to `hi`: after
the functions, its constructor and methods from its header to the line `close` of the source
`src` where its body closes, the methods in order, no two of them and the constructor on one
line, and the functions after the class in order after `close` and up to `hi`. -/
def ClassInOrder (src : List Line) (fs : List FunctionDecl) (c : ClassDecl) (hi : Nat) : Prop :=
  (∀ f ∈ fs, f.line < c.line) ∧ c.methods.Pairwise (·.line < ·.line) ∧
    ((c.ctor.toList ++ c.methods).map (·.line)).Nodup ∧ c.trailing.Pairwise (·.line < ·.line) ∧
    ∃ close, (∃ kh, (src[kh]?).map Line.number = some c.line ∧
        Line.ClosesClassAt src kh c.name.toList close) ∧ c.line ≤ close ∧ close ≤ hi ∧
      (∀ f ∈ c.ctor.toList ++ c.methods, c.line ≤ f.line ∧ f.line ≤ close) ∧
      ∀ g ∈ c.trailing, close < g.line ∧ g.line ≤ hi

/-- What has been read, in order and on lines up to `hi`. -/
def ReadInOrder (src : List Line) (d : Draft) (hi : Nat) : Prop :=
  d.functions.Pairwise (·.line < ·.line) ∧ (∀ f ∈ d.functions, f.line ≤ hi) ∧
    ∀ c, d.cls = some c → ClassInOrder src d.functions c hi

/-- The invariant of the item loop: what has been read is in order on lines up to some `hi`,
and the lines left to read come from the source after `hi`. -/
def ItemsInOrder (src : List Line) (d : Draft) (ls : List Line) : Prop :=
  ∃ hi, ReadInOrder src d hi ∧ Line.Remains src ls ∧ ∀ m ∈ ls, hi < m.number

theorem ReadInOrder.mono {src : List Line} {d : Draft} {hi hi' : Nat} (h : ReadInOrder src d hi)
    (hle : hi ≤ hi') : ReadInOrder src d hi' := by
  obtain ⟨hf, hfle, hc⟩ := h
  refine ⟨hf, fun f hmem => le_trans (hfle f hmem) hle, fun c hcls => ?_⟩
  obtain ⟨h₁, h₂, h₃, h₄, close, h₅, h₆, h₇, h₈, h₉⟩ := hc c hcls
  exact ⟨h₁, h₂, h₃, h₄, close, h₅, h₆, le_trans h₇ hle, h₈,
    fun g hg => ⟨(h₉ g hg).1, le_trans (h₉ g hg).2 hle⟩⟩

theorem ReadInOrder.congr {src : List Line} {d d' : Draft} {hi : Nat} (h : ReadInOrder src d hi)
    (hf : d'.functions = d.functions) (hc : d'.cls = d.cls) : ReadInOrder src d' hi := by
  unfold ReadInOrder
  rw [hf, hc]
  exact h

/-- A function read on a line after everything read so far comes after it. -/
theorem ReadInOrder.function {src : List Line} {d d' : Draft} {hi : Nat} {f : FunctionDecl}
    (h : ReadInOrder src d hi) (hlt : hi < f.line)
    (hd : (d.cls = none ∧ d'.cls = none ∧ d'.functions = d.functions ++ [f]) ∨
      ∃ c, d.cls = some c ∧ d'.cls = some { c with trailing := c.trailing ++ [f] } ∧
        d'.functions = d.functions) :
    ReadInOrder src d' f.line := by
  obtain ⟨hfs, hfle, hcls⟩ := h
  rcases hd with ⟨hn, hn', hfun⟩ | ⟨c, hc, hc', hfun⟩
  · -- before the class
    refine ⟨?_, ?_, fun c hc => by simp [hn'] at hc⟩
    · rw [hfun]
      refine List.pairwise_append.2 ⟨hfs, List.pairwise_singleton _ _, ?_⟩
      intro g hg f' hf'
      rw [List.mem_singleton.1 hf']
      exact lt_of_le_of_lt (hfle g hg) hlt
    · intro g hg
      rw [hfun, List.mem_append, List.mem_singleton] at hg
      rcases hg with hg | rfl
      · exact le_of_lt (lt_of_le_of_lt (hfle g hg) hlt)
      · exact le_rfl
  · -- after the class
    obtain ⟨h₁, h₂, h₃, h₄, close, h₅, h₆, h₇, h₈, h₉⟩ := hcls c hc
    refine ⟨hfun ▸ hfs, fun g hg => le_of_lt (lt_of_le_of_lt (hfle g (hfun ▸ hg)) hlt), ?_⟩
    intro c' hc''
    rw [hc'] at hc''
    cases hc''
    refine ⟨hfun ▸ h₁, h₂, h₃, ?_, close, h₅, h₆, le_of_lt (lt_of_le_of_lt h₇ hlt), h₈, ?_⟩
    · refine List.pairwise_append.2 ⟨h₄, List.pairwise_singleton _ _, ?_⟩
      intro g hg f' hf'
      rw [List.mem_singleton.1 hf']
      exact lt_of_le_of_lt (h₉ g hg).2 hlt
    · intro g hg
      simp only [List.mem_append, List.mem_singleton] at hg
      rcases hg with hg | rfl
      · exact ⟨(h₉ g hg).1, le_of_lt (lt_of_le_of_lt (h₉ g hg).2 hlt)⟩
      · exact ⟨lt_of_le_of_lt h₇ hlt, le_rfl⟩

theorem itemsInOrder_skip {src : List Line} {d : Draft} {l : Line} {later : List Line}
    (h : ItemsInOrder src d (l :: later)) : ItemsInOrder src d later := by
  obtain ⟨hi, hr, hrem, hlt⟩ := h
  exact ⟨hi, hr, hrem.tail, fun m hm => hlt m (List.mem_cons_of_mem l hm)⟩

theorem itemsInOrder_comment {src : List Line} {d : Draft} {l : Line} {later ls : List Line}
    (hc : Line.leadingComment l later = .ok (some ls)) (h : ItemsInOrder src d (l :: later)) :
    ItemsInOrder src d ls := by
  obtain ⟨hi, hr, hrem, hlt⟩ := h
  refine ⟨hi, hr, hrem.leadingComment hc, fun m hm => ?_⟩
  obtain ⟨m', hm', he⟩ := numbers_of_leadingComment hc hm
  rw [← he]
  exact hlt m' hm'

/-- Reading the class keeps the functions before it in order and before it, and puts its
members between its header and the line of its closing `}`, before every line left to read. -/
theorem itemsInOrder_class {src : List Line} (hsrc : Line.Ascending src) {d d' : Draft} {l : Line}
    {later : List Line} {n : Nat} {h : Header.ClassHeader}
    (hh : Header.class? (trim l.text) = some h) (hi : classItem d l later h = .ok (d', n))
    (hin : ItemsInOrder src d (l :: later)) : ItemsInOrder src d' ((l :: later).drop (n + 1)) := by
  obtain ⟨_, hr, hrem, hlt⟩ := hin
  have hasc := hrem.ascending hsrc
  have hrem' := hrem.drop (n + 1)
  obtain ⟨-, hfun, c, close, hc', hline, htrail, hclose, hcl, hmeth, hnd, hon⟩ :=
    classItem_spec hasc hh hi
  obtain ⟨hfs, hfle, -⟩ := hr
  have hmem : close ∈ l :: later := List.mem_of_getElem? hclose
  -- the header line as read is a blanked copy of a source line, the one the class names
  obtain ⟨l₀, ⟨P, hP⟩, hb⟩ := hrem
  subst hP
  have hlc : l.number ≤ close.number := by
    rcases List.mem_cons.1 hmem with he | hm
    · rw [he]
    · exact le_of_lt (hasc.lt_of_mem hm)
  refine ⟨close.number, ⟨hfun ▸ hfs, fun f hf => ?_, fun c' hc'' => ?_⟩, hrem',
    fun m hm => hasc.lt_of_mem_drop hclose hm⟩
  · exact le_trans (hfle f (hfun ▸ hf)) (le_of_lt (lt_of_lt_of_le (hlt l List.mem_cons_self) hlc))
  · rw [hc'] at hc''
    cases hc''
    refine ⟨fun f hf => hline ▸ lt_of_le_of_lt (hfle f (hfun ▸ hf)) (hlt l List.mem_cons_self),
      hmeth, hnd, by simp [htrail], close.number,
      ⟨P.length, by simp [hline, hb.1], hcl.blanked hb⟩, hline ▸ hlc, le_rfl, ?_,
      by simp [htrail]⟩
    intro f hf
    obtain ⟨m, hm, he⟩ := List.mem_map.1 (hon f hf)
    rw [← he, hline]
    refine ⟨?_, hasc.le_of_mem_take hclose hm⟩
    rcases List.mem_cons.1 (List.mem_of_mem_take hm) with rfl | hm'
    · exact le_rfl
    · exact le_of_lt (hasc.lt_of_mem hm')

/-- Reading an item keeps what has been read in order, and goes on after it. -/
theorem itemsInOrder_item {src : List Line} (hsrc : Line.Ascending src) {d d' : Draft} {l : Line}
    {later : List Line} {n : Nat} (hi : item d l later = .ok (d', n))
    (h : ItemsInOrder src d (l :: later)) : ItemsInOrder src d' ((l :: later).drop (n + 1)) := by
  obtain ⟨hi₀, hr, hrem, hlt⟩ := h
  have hasc := hrem.ascending hsrc
  have hrem' := hrem.drop (n + 1)
  have hin : ∀ m ∈ (l :: later).drop (n + 1), m ∈ later := fun m hm => by
    rw [List.drop_succ_cons] at hm
    exact List.mem_of_mem_drop hm
  -- an item that adds no function keeps the bound
  have hkeep : d'.functions = d.functions → d'.cls = d.cls →
      ItemsInOrder src d' ((l :: later).drop (n + 1)) := fun hf hc =>
    ⟨hi₀, hr.congr hf hc, hrem', fun m hm => hlt m (List.mem_cons_of_mem l (hin m hm))⟩
  unfold item at hi
  dsimp only at hi
  split at hi
  · exact hkeep (importItem_frame hi).1 (importItem_frame hi).2
  · split at hi
    · cases hi
    · split at hi
      · -- a function, on the first line of the item
        obtain ⟨f, hline, hd⟩ := functionItem_spec hi
        refine ⟨f.line, hr.function (hline ▸ hlt l List.mem_cons_self) hd, hrem', ?_⟩
        intro m hm
        rw [hline]
        exact hasc.lt_of_mem (hin m hm)
      · split at hi
        · -- the class, up to the line that closes it
          rename_i hh
          exact itemsInOrder_class hsrc hh hi ⟨hi₀, hr, hrem, hlt⟩
        · exact hkeep (statementItem_frame hi).1 (statementItem_frame hi).2

/-- Reading a module gathers what it reads in order: the functions before the class in order and
before it, and the class's members and the functions after it as `ClassInOrder` says. -/
theorem read_in_order {path source : String} {m : Module} (h : read path source = .ok m) :
    ∃ hi, m.functions.Pairwise (·.line < ·.line) ∧
      ∀ c, m.cls = some c → ClassInOrder (Line.ofSource source.toList) m.functions c hi := by
  unfold read at h
  split at h
  · cases h
  · rename_i d hd
    cases h
    have hsrc := Line.ofSource_ascending source.toList
    obtain ⟨hi, ⟨hfs, -, hcls⟩, -, -⟩ := items_invariant (ItemsInOrder (Line.ofSource source.toList))
      (fun _ _ _ h => itemsInOrder_skip h) (fun _ _ _ _ hc h => itemsInOrder_comment hc h)
      (fun _ _ _ _ _ hi h => itemsInOrder_item hsrc hi h) hd
      ⟨0, ⟨List.Pairwise.nil, by simp, by simp⟩, Line.remains_self _,
        fun l hl => Line.one_le_of_mem_ofSource hl⟩
    exact ⟨hi, hfs, hcls⟩

/-! ### Functions in source order -/

theorem ClassDecl.members_mapFunctions (g : FunctionDecl → FunctionDecl) (c : ClassDecl) :
    (c.mapFunctions g).ctor.toList ++ (c.mapFunctions g).methods =
      (c.ctor.toList ++ c.methods).map g := by
  simp [ClassDecl.mapFunctions, Option.toList_map]

theorem ClassInOrder.mapFunctions {src : List Line} {fs : List FunctionDecl} {c : ClassDecl}
    {hi : Nat} (h : ClassInOrder src fs c hi) {g : FunctionDecl → FunctionDecl}
    (hg : ∀ f, (g f).line = f.line) : ClassInOrder src (fs.map g) (c.mapFunctions g) hi := by
  obtain ⟨h₁, h₂, h₃, h₄, close, h₅, h₆, h₇, h₈, h₉⟩ := h
  refine ⟨?_, ?_, ?_, ?_, close, h₅, h₆, h₇, ?_, ?_⟩
  · simpa [ClassDecl.mapFunctions, hg] using h₁
  · simpa [ClassDecl.mapFunctions, List.pairwise_map, hg] using h₂
  · rw [ClassDecl.members_mapFunctions, List.map_map]
    simpa [Function.comp_def, hg] using h₃
  · simpa [ClassDecl.mapFunctions, List.pairwise_map, hg] using h₄
  · intro f' hf'
    rw [ClassDecl.members_mapFunctions] at hf'
    obtain ⟨f, hf, rfl⟩ := List.mem_map.1 hf'
    simpa [ClassDecl.mapFunctions, hg] using h₈ f hf
  · simpa [ClassDecl.mapFunctions, hg] using h₉

/-- Functions on strictly increasing lines are on distinct lines. -/
theorem lines_nodup_of_sorted {fs : List FunctionDecl} (h : fs.Pairwise (·.line < ·.line)) :
    (fs.map (·.line)).Nodup :=
  List.pairwise_map.2 (h.imp ne_of_lt)

/-- Functions in order before the class, and the class in order with them, are on distinct
lines. -/
theorem lines_nodup {src : List Line} {fs : List FunctionDecl} {c : ClassDecl} {hi : Nat}
    (hfs : fs.Pairwise (·.line < ·.line)) (h : ClassInOrder src fs c hi) :
    ((fs ++ c.functions).map (·.line)).Nodup := by
  obtain ⟨h₁, -, h₃, h₄, close, -, h₆, -, h₈, h₉⟩ := h
  unfold ClassDecl.functions
  rw [← List.append_assoc, List.map_append, List.map_append, List.map_append,
    ← List.map_append, List.nodup_append, List.nodup_append]
  -- the functions before the class, its members and the functions after it lie apart
  refine ⟨⟨lines_nodup_of_sorted hfs, h₃, ?_⟩, lines_nodup_of_sorted h₄, ?_⟩
  · intro a ha b hb
    obtain ⟨f, hf, rfl⟩ := List.mem_map.1 ha
    obtain ⟨g, hg, rfl⟩ := List.mem_map.1 hb
    have := h₁ f hf
    have := (h₈ g hg).1
    omega
  · intro a ha b hb
    obtain ⟨g, hg, rfl⟩ := List.mem_map.1 hb
    have := (h₉ g hg).1
    rw [List.mem_append] at ha
    rcases ha with ha | ha
    · obtain ⟨f, hf, rfl⟩ := List.mem_map.1 ha
      have := h₁ f hf
      omega
    · obtain ⟨f, hf, rfl⟩ := List.mem_map.1 ha
      have := (h₈ f hf).2
      omega

/-- Sorting functions that are on distinct lines by line puts them on strictly increasing
lines. -/
theorem orderedFunctions_sorted {m : Module}
    (h : ((m.functions ++ (m.cls.map ClassDecl.functions).getD []).map (·.line)).Nodup) :
    m.orderedFunctions.Pairwise (·.line < ·.line) := by
  have hperm := List.mergeSort_perm (m.functions ++ (m.cls.map ClassDecl.functions).getD [])
    fun a b => decide (a.line ≤ b.line)
  have hle := @List.pairwise_mergeSort _ (fun a b : FunctionDecl => decide (a.line ≤ b.line))
    (fun a b c hab hbc => by simp only [decide_eq_true_eq] at *; omega)
    (fun a b => by simp only [Bool.or_eq_true, decide_eq_true_eq]; omega)
    (m.functions ++ (m.cls.map ClassDecl.functions).getD [])
  -- sorted by ≤ and, as a permutation of a list on distinct lines, on distinct lines
  have hne := List.pairwise_map.1 ((hperm.map (·.line)).nodup_iff.2 h)
  exact (hle.and hne).imp fun ⟨hab, hne⟩ => lt_of_le_of_ne (of_decide_eq_true hab) hne

/-- A module read in order keeps its functions in order once its call sites are redirected. -/
theorem readInOrder_redirectCalls {src : List Line} {m : Module} {hi : Nat} (mode : Scoping)
    (hfs : m.functions.Pairwise (·.line < ·.line))
    (hcls : ∀ c, m.cls = some c → ClassInOrder src m.functions c hi) :
    (m.redirectCalls mode).functions.Pairwise (·.line < ·.line) ∧
      ∀ c, (m.redirectCalls mode).cls = some c →
        ClassInOrder src (m.redirectCalls mode).functions c hi := by
  refine ⟨by simpa [redirectCalls, List.pairwise_map, FunctionDecl.redirectCalls] using hfs, ?_⟩
  intro c hc
  simp only [redirectCalls, Option.map_eq_some_iff] at hc
  obtain ⟨c₀, hc₀, rfl⟩ := hc
  exact (hcls c₀ hc₀).mapFunctions fun _ => rfl

/-- The functions of a parsed module are in source order. The top-level functions are on
strictly increasing lines before the class; the class's methods are on strictly increasing
lines, and its constructor and methods lie between its header and the line of its closing
brace; the functions after the class are on strictly increasing lines after that brace. Sorted
by line, they are all listed once each, on strictly increasing lines, so no two share a line. -/
theorem parse_functions_in_source_order {path source : String} {mode : Scoping} {m : Module}
    (h : parse path source mode = .ok m) :
    m.functions.Pairwise (·.line < ·.line) ∧
      (∀ c, m.cls = some c →
        (∀ f ∈ m.functions, f.line < c.line) ∧ c.methods.Pairwise (·.line < ·.line) ∧
          c.trailing.Pairwise (·.line < ·.line) ∧
          ∃ close, (∃ kh, ((Line.ofSource source.toList)[kh]?).map Line.number = some c.line ∧
              Line.ClosesClassAt (Line.ofSource source.toList) kh c.name.toList close) ∧
            (∀ f ∈ c.ctor.toList ++ c.methods, c.line ≤ f.line ∧ f.line ≤ close) ∧
            ∀ g ∈ c.trailing, close < g.line) ∧
      m.orderedFunctions.Perm (m.functions ++ (m.cls.map ClassDecl.functions).getD []) ∧
      m.orderedFunctions.Pairwise (·.line < ·.line) := by
  obtain ⟨m₀, hr, rfl⟩ := parse_eq_ok h
  obtain ⟨hi, hfs₀, hcls₀⟩ := read_in_order hr
  obtain ⟨hfs, hcls⟩ := readInOrder_redirectCalls mode hfs₀ hcls₀
  have hnodup : (((m₀.redirectCalls mode).functions ++
      ((m₀.redirectCalls mode).cls.map ClassDecl.functions).getD []).map (·.line)).Nodup := by
    cases hc : (m₀.redirectCalls mode).cls with
    | none => simpa using lines_nodup_of_sorted hfs
    | some c => exact lines_nodup hfs (hcls c hc)
  refine ⟨hfs, fun c hc => ?_, List.mergeSort_perm _ _, orderedFunctions_sorted hnodup⟩
  obtain ⟨h₁, h₂, -, h₄, close, h₅, -, -, h₈, h₉⟩ := hcls c hc
  exact ⟨h₁, h₂, h₄, close, h₅, h₈, fun g hg => (h₉ g hg).1⟩

/-- A module with a function, a class with a constructor and a method, a function after the
class and a statement, read item by item. -/
theorem parse_class_module :
    parse "a"
      "function f() \x7b\n  return 1;\n\x7d\nclass A \x7b\n  constructor() \x7b\n  \x7d\n  m() \x7b\n  \x7d\n\x7d\nfunction g() \x7b\n\x7d\nlet x = 1;\n"
      .textual =
      .ok { name := factoryName "a", path := "a",
            cls := some { name := "A", exported := false, line := 4,
                          ctor := some ⟨"constructor", "()", false, false, 5, []⟩,
                          methods := [⟨"m", "()", false, false, 7, []⟩],
                          trailing := [⟨"g", "()", false, false, 10, []⟩] },
            functions := [⟨"f", "()", false, false, 1, ["  return 1;"]⟩],
            statements := ["let x = 1;"] } := by
  have hlines : Line.ofSource
      "function f() \x7b\n  return 1;\n\x7d\nclass A \x7b\n  constructor() \x7b\n  \x7d\n  m() \x7b\n  \x7d\n\x7d\nfunction g() \x7b\n\x7d\nlet x = 1;\n".toList =
      [⟨1, "function f() \x7b".toList⟩, ⟨2, "  return 1;".toList⟩, ⟨3, "\x7d".toList⟩,
        ⟨4, "class A \x7b".toList⟩, ⟨5, "  constructor() \x7b".toList⟩, ⟨6, "  \x7d".toList⟩,
        ⟨7, "  m() \x7b".toList⟩, ⟨8, "  \x7d".toList⟩, ⟨9, "\x7d".toList⟩,
        ⟨10, "function g() \x7b".toList⟩, ⟨11, "\x7d".toList⟩, ⟨12, "let x = 1;".toList⟩] := by
    decide +kernel
  -- the class body: its constructor, then its method
  have hctor : MethodRead ⟨5, "  constructor() \x7b".toList⟩
      [⟨6, "  \x7d".toList⟩, ⟨7, "  m() \x7b".toList⟩, ⟨8, "  \x7d".toList⟩]
      ⟨"constructor", "()", false, false, 5, []⟩ 1 :=
    ⟨⟨false, "constructor".toList, 11⟩, rfl, by decide +kernel⟩
  have hmeth : MethodRead ⟨7, "  m() \x7b".toList⟩ [⟨8, "  \x7d".toList⟩]
      ⟨"m", "()", false, false, 7, []⟩ 1 :=
    ⟨⟨false, "m".toList, 1⟩, rfl, by decide +kernel⟩
  have hbody : members ⟨"A", false, 4, none, [], [], []⟩
      [⟨5, "  constructor() \x7b".toList⟩, ⟨6, "  \x7d".toList⟩, ⟨7, "  m() \x7b".toList⟩,
        ⟨8, "  \x7d".toList⟩] =
      .ok { name := "A", exported := false, line := 4,
            ctor := some ⟨"constructor", "()", false, false, 5, []⟩,
            methods := [⟨"m", "()", false, false, 7, []⟩] } := by
    rw [members_of_method (by unfold Skipped; decide +kernel) (by decide +kernel)
      (by decide +kernel) (by decide +kernel) hctor (fun _ => rfl), if_pos rfl]
    simp only [List.drop_succ_cons, List.drop_zero]
    rw [members_of_method (by unfold Skipped; decide +kernel) (by decide +kernel)
      (by decide +kernel) (by decide +kernel) hmeth (fun h => absurd h (by decide)),
      if_neg (by decide)]
    simp only [List.drop_succ_cons, List.drop_zero]
    rw [members]
    rfl
  -- the class header, the `{` that ends it and the lines up to the `}` that closes the body
  have hhead : Header.class? (trim "class A \x7b".toList) =
      some ⟨false, false, "A".toList, "\x7b".toList, 8⟩ :=
    rfl
  have hspot : Line.braceSpot ⟨4, "class A \x7b".toList⟩ 8
      [⟨5, "  constructor() \x7b".toList⟩, ⟨6, "  \x7d".toList⟩, ⟨7, "  m() \x7b".toList⟩,
        ⟨8, "  \x7d".toList⟩, ⟨9, "\x7d".toList⟩, ⟨10, "function g() \x7b".toList⟩, ⟨11, "\x7d".toList⟩,
        ⟨12, "let x = 1;".toList⟩] (.classDecl "A") =
      .ok ⟨0, ⟨4, "class A \x7b".toList⟩, 8,
        [⟨5, "  constructor() \x7b".toList⟩, ⟨6, "  \x7d".toList⟩, ⟨7, "  m() \x7b".toList⟩,
          ⟨8, "  \x7d".toList⟩, ⟨9, "\x7d".toList⟩, ⟨10, "function g() \x7b".toList⟩, ⟨11, "\x7d".toList⟩,
          ⟨12, "let x = 1;".toList⟩]⟩ := by
    decide +kernel
  have hcls : Line.body ⟨4, "class A \x7b".toList⟩ 8
      [⟨5, "  constructor() \x7b".toList⟩, ⟨6, "  \x7d".toList⟩, ⟨7, "  m() \x7b".toList⟩,
        ⟨8, "  \x7d".toList⟩, ⟨9, "\x7d".toList⟩, ⟨10, "function g() \x7b".toList⟩, ⟨11, "\x7d".toList⟩,
        ⟨12, "let x = 1;".toList⟩] =
      .ok ⟨[⟨5, "  constructor() \x7b".toList⟩, ⟨6, "  \x7d".toList⟩, ⟨7, "  m() \x7b".toList⟩,
        ⟨8, "  \x7d".toList⟩], 5⟩ := by
    decide +kernel
  -- the items: the function, the class up to the line that closes it, the function after it
  -- and the statement
  have h₁ : item {} ⟨1, "function f() \x7b".toList⟩
      [⟨2, "  return 1;".toList⟩, ⟨3, "\x7d".toList⟩, ⟨4, "class A \x7b".toList⟩,
        ⟨5, "  constructor() \x7b".toList⟩, ⟨6, "  \x7d".toList⟩, ⟨7, "  m() \x7b".toList⟩,
        ⟨8, "  \x7d".toList⟩, ⟨9, "\x7d".toList⟩, ⟨10, "function g() \x7b".toList⟩, ⟨11, "\x7d".toList⟩,
        ⟨12, "let x = 1;".toList⟩] =
      .ok ({ functions := [⟨"f", "()", false, false, 1, ["  return 1;"]⟩] }, 2) := by
    decide +kernel
  have h₂ : item { functions := [⟨"f", "()", false, false, 1, ["  return 1;"]⟩] }
      ⟨4, "class A \x7b".toList⟩
      [⟨5, "  constructor() \x7b".toList⟩, ⟨6, "  \x7d".toList⟩, ⟨7, "  m() \x7b".toList⟩,
        ⟨8, "  \x7d".toList⟩, ⟨9, "\x7d".toList⟩, ⟨10, "function g() \x7b".toList⟩, ⟨11, "\x7d".toList⟩,
        ⟨12, "let x = 1;".toList⟩] =
      .ok ({ functions := [⟨"f", "()", false, false, 1, ["  return 1;"]⟩],
             cls := some { name := "A", exported := false, line := 4,
                           ctor := some ⟨"constructor", "()", false, false, 5, []⟩,
                           methods := [⟨"m", "()", false, false, 7, []⟩] } }, 5) := by
    rw [item_of_class (by decide +kernel) (by decide +kernel) rfl hhead,
      classItem_of_members rfl (by decide +kernel) hspot hcls hbody]
    rfl
  have h₃ : item { functions := [⟨"f", "()", false, false, 1, ["  return 1;"]⟩],
                   cls := some { name := "A", exported := false, line := 4,
                                 ctor := some ⟨"constructor", "()", false, false, 5, []⟩,
                                 methods := [⟨"m", "()", false, false, 7, []⟩] } }
      ⟨10, "function g() \x7b".toList⟩ [⟨11, "\x7d".toList⟩, ⟨12, "let x = 1;".toList⟩] =
      .ok ({ functions := [⟨"f", "()", false, false, 1, ["  return 1;"]⟩],
             cls := some { name := "A", exported := false, line := 4,
                           ctor := some ⟨"constructor", "()", false, false, 5, []⟩,
                           methods := [⟨"m", "()", false, false, 7, []⟩],
                           trailing := [⟨"g", "()", false, false, 10, []⟩] } }, 1) := by
    decide +kernel
  have h₄ : item { functions := [⟨"f", "()", false, false, 1, ["  return 1;"]⟩],
                   cls := some { name := "A", exported := false, line := 4,
                                 ctor := some ⟨"constructor", "()", false, false, 5, []⟩,
                                 methods := [⟨"m", "()", false, false, 7, []⟩],
                                 trailing := [⟨"g", "()", false, false, 10, []⟩] } }
      ⟨12, "let x = 1;".toList⟩ [] =
      .ok ({ functions := [⟨"f", "()", false, false, 1, ["  return 1;"]⟩],
             cls := some { name := "A", exported := false, line := 4,
                           ctor := some ⟨"constructor", "()", false, false, 5, []⟩,
                           methods := [⟨"m", "()", false, false, 7, []⟩],
                           trailing := [⟨"g", "()", false, false, 10, []⟩] },
             statements := ["let x = 1;"] }, 0) := by
    decide +kernel
  have hitems : items {} (Line.ofSource
      "function f() \x7b\n  return 1;\n\x7d\nclass A \x7b\n  constructor() \x7b\n  \x7d\n  m() \x7b\n  \x7d\n\x7d\nfunction g() \x7b\n\x7d\nlet x = 1;\n".toList) =
      .ok { functions := [⟨"f", "()", false, false, 1, ["  return 1;"]⟩],
            cls := some { name := "A", exported := false, line := 4,
                          ctor := some ⟨"constructor", "()", false, false, 5, []⟩,
                          methods := [⟨"m", "()", false, false, 7, []⟩],
                          trailing := [⟨"g", "()", false, false, 10, []⟩] },
            statements := ["let x = 1;"] } := by
    rw [hlines, items_of_item (by unfold Skipped; decide +kernel) (by decide +kernel) h₁]
    simp only [List.drop_succ_cons, List.drop_zero]
    rw [items_of_item (by unfold Skipped; decide +kernel) (by decide +kernel) h₂]
    simp only [List.drop_succ_cons, List.drop_zero]
    rw [items_of_item (by unfold Skipped; decide +kernel) (by decide +kernel) h₃]
    simp only [List.drop_succ_cons, List.drop_zero]
    rw [items_of_item (by unfold Skipped; decide +kernel) (by decide +kernel) h₄]
    simp only [List.drop_succ_cons, List.drop_zero]
    rw [items]
  unfold parse read
  rw [hitems]
  -- no import binds a name, so no line changes
  refine congrArg Except.ok ?_
  unfold redirectCalls
  congr 1

/-- In a module with a function, a class and a function after the class, the class's
constructor and method lie between its header and the line where its body closes, and the
function after the class lies after that line. -/
theorem class_module_functions_in_order :
    ∃ m c, parse "a"
      "function f() \x7b\n  return 1;\n\x7d\nclass A \x7b\n  constructor() \x7b\n  \x7d\n  m() \x7b\n  \x7d\n\x7d\nfunction g() \x7b\n\x7d\nlet x = 1;\n"
      .textual = .ok m ∧ m.cls = some c ∧ m.functions.map (·.line) = [1] ∧
      (c.ctor.toList ++ c.methods).map (·.line) = [5, 7] ∧ c.trailing.map (·.line) = [10] ∧
      (∃ close,
        (∃ kh, ((Line.ofSource
            "function f() \x7b\n  return 1;\n\x7d\nclass A \x7b\n  constructor() \x7b\n  \x7d\n  m() \x7b\n  \x7d\n\x7d\nfunction g() \x7b\n\x7d\nlet x = 1;\n".toList)[kh]?).map
            Line.number = some 4 ∧
          Line.ClosesClassAt (Line.ofSource
            "function f() \x7b\n  return 1;\n\x7d\nclass A \x7b\n  constructor() \x7b\n  \x7d\n  m() \x7b\n  \x7d\n\x7d\nfunction g() \x7b\n\x7d\nlet x = 1;\n".toList)
            kh "A".toList close) ∧
        (∀ f ∈ c.ctor.toList ++ c.methods, 4 ≤ f.line ∧ f.line ≤ close) ∧
        ∀ g ∈ c.trailing, close < g.line) ∧
      m.orderedFunctions.Pairwise (·.line < ·.line) := by
  obtain ⟨-, hcls, -, hsorted⟩ := parse_functions_in_source_order parse_class_module
  obtain ⟨-, -, -, close, hclose, hon, hafter⟩ := hcls _ rfl
  exact ⟨_, _, parse_class_module, rfl, rfl, rfl, rfl, ⟨close, hclose, hon, hafter⟩, hsorted⟩

end Module

end ModuleBundler
