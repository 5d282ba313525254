import ModuleBundler.Proofs.Brace.Pieces
import ModuleBundler.Proofs.CallSite.OnePass

namespace ModuleBundler

open Text Syntax

namespace Brace.State

/-- A state and an open quote the tracker can be in: a string is only open in code, outside
block comments and the text of template literals. -/
def Consistent (s : State) (q : Option Char) : Prop :=
  q = none ∨ (q = some '\'' ∨ q = some '"') ∧ s.inComment = false ∧ s.layers.head? ≠ some .template

theorem consistent_none (s : State) : Consistent s none := .inl rfl

theorem step_consistent {s : State} {q : Option Char} (h : Consistent s q) (pos : Nat) (c : Char)
    (next : Option Char) : Consistent (s.step q pos c next).state (s.step q pos c next).quote := by
  unfold step
  by_cases hc : s.inComment
  · have hq : q = none := by
      rcases h with h | ⟨-, h, -⟩
      · exact h
      · simp [hc] at h
    subst hq
    simp only [hc, if_true]
    split_ifs <;> exact .inl rfl
  · simp only [hc, Bool.false_eq_true, if_false]
    cases q with
    | some x =>
      simp only
      split_ifs
      · exact h
      · exact .inl rfl
      · exact h
    | none =>
      simp only
      split
      · split_ifs <;> exact .inl rfl
      · rename_i hl
        split_ifs with h₁ h₂ h₃ h₄ h₅ h₆
        · exact .inl rfl
        · exact .inl rfl
        · refine .inr ⟨by rcases h₃ with rfl | rfl <;> simp, by simpa using hc, ?_⟩
          rcases hls : s.layers with _ | ⟨l, r⟩
          · simp
          · cases l with
            | template => exact absurd hls (hl r)
            | hole n => simp
        all_goals exact .inl rfl

/-- A character that changes nothing in any state the tracker can be in, given the character
after it: no star, backslash, quote, backtick or brace, no `/` before `/` or `*`, and no `$`
before `{`. -/
def idle (c : Char) (next : Option Char) : Bool :=
  !(['*', '\\', '\'', '"', '`', '\x7b', '\x7d'].contains c) &&
    (c != '/' || !(next == some '/' || next == some '*')) && (c != '$' || next != some '\x7b')

theorem step_idle {s : State} {q : Option Char} (h : Consistent s q) {c : Char}
    {next : Option Char} (hc : idle c next = true) (pos : Nat) :
    s.step q pos c next = { state := s, quote := q } := by
  simp only [idle, Bool.and_eq_true, Bool.not_eq_true', List.contains_eq_mem,
    decide_eq_false_iff_not] at hc
  obtain ⟨⟨hmem, hsl⟩, hdl⟩ := hc
  have hs₁ : ¬(c = '/' ∧ next = some '/') := by rintro ⟨rfl, rfl⟩; simp at hsl
  have hs₂ : ¬(c = '/' ∧ next = some '*') := by rintro ⟨rfl, rfl⟩; simp at hsl
  have hd : ¬(c = '$' ∧ next = some '\x7b') := by rintro ⟨rfl, rfl⟩; simp at hdl
  simp only [List.mem_cons, List.not_mem_nil, or_false, not_or] at hmem
  obtain ⟨h₁, h₂, h₃, h₄, h₅, h₆, h₇⟩ := hmem
  unfold step
  by_cases hcm : s.inComment
  · simp [hcm, h₁]
  · rcases h with rfl | ⟨hq, -, -⟩
    · rcases s.layers with _ | ⟨_ | n, r⟩ <;> simp [hcm, h₂, h₃, h₄, h₅, h₆, h₇, hs₁, hs₂, hd]
    · rcases hq with rfl | rfl <;> simp [hcm, h₂, h₃, h₄]

/-- Whether a run of characters is idle, given the character after it. -/
def idleRun : List Char → Option Char → Bool
  | [], _ => true
  | c :: x, after => idle c (x.head?.or after) && idleRun x after

/-- A run of idle characters reads as nothing. -/
theorem scan_idleRun {s : State} {q : Option Char} (h : Consistent s q) :
    ∀ {x : List Char} (y : List Char) (pos : Nat), idleRun x y.head? = true →
      s.scan q pos (x ++ y) = s.scan q (pos + x.length) y
  | [], y, pos, _ => by simp
  | c :: x, y, pos, hx => by
    simp only [idleRun, Bool.and_eq_true] at hx
    rw [List.cons_append, scan, List.head?_append, step_idle h hx.1 pos]
    simp [scan_idleRun h y (pos + 1) hx.2, Nat.add_assoc, Nat.add_comm 1]

/-- The quote a single quote leaves: it opens a string in code, closes the string it opened, and
is text anywhere else. -/
def afterQuote (s : State) (q : Option Char) : Option Char :=
  if s.inComment then q
  else if q = some '\'' then none
  else if q = none ∧ s.layers.head? ≠ some .template then some '\''
  else q

theorem step_quote {s : State} {q : Option Char} (h : Consistent s q) (pos : Nat)
    (next : Option Char) : s.step q pos '\'' next = { state := s, quote := afterQuote s q } := by
  unfold step afterQuote
  by_cases hcm : s.inComment
  · simp [hcm]
  · rcases h with rfl | ⟨hq, -, -⟩
    · rcases s.layers with _ | ⟨_ | n, r⟩ <;> simp [hcm]
    · rcases hq with rfl | rfl <;> simp [hcm]

theorem consistent_afterQuote {s : State} {q : Option Char} (h : Consistent s q) :
    Consistent s (afterQuote s q) := by
  have := step_consistent h 0 '\'' none
  rwa [step_quote h] at this

theorem afterQuote_afterQuote {s : State} {q : Option Char} (h : Consistent s q) :
    afterQuote s (afterQuote s q) = q := by
  unfold afterQuote
  by_cases hcm : s.inComment
  · simp [hcm]
  · rcases h with rfl | ⟨hq, hc, hl⟩
    · by_cases hl : s.layers.head? = some .template <;> simp [hcm, hl]
    · rcases hq with rfl | rfl <;> simp [hcm, hl]

/-- Idle text between two single quotes reads as nothing: whatever the quotes open they close. -/
theorem scan_quotes_around {s : State} {q : Option Char} (h : Consistent s q) {x : List Char}
    (hx : idleRun x (some '\'') = true) (y : List Char) (pos : Nat) :
    s.scan q pos ('\'' :: (x ++ '\'' :: y)) = s.scan q (pos + x.length + 2) y := by
  have h' := consistent_afterQuote h
  rw [scan, step_quote h]
  simp only [Bool.false_eq_true, if_false, Option.toList_none, List.nil_append]
  rw [scan_idleRun h' ('\'' :: y) (pos + 1) hx, scan, step_quote h', afterQuote_afterQuote h]
  simp only [Bool.false_eq_true, if_false, Option.toList_none, List.nil_append]
  rw [show pos + 1 + x.length + 1 = pos + x.length + 2 by omega]

end Brace.State

open Brace Brace.State

/-- A specifier that reads as text in code and in any string, template literal or comment once
it is put in single quotes: no quote, backtick, backslash, brace, star or line break, and no
`//`. -/
def QuietSpecifier (src : String) : Prop :=
  (∀ c ∈ src.toList, c ∉ ['\'', '"', '`', '\\', '\x7b', '\x7d', '*', '\n']) ∧
    ¬ ['/', '/'] <:+: src.toList

instance : DecidablePred QuietSpecifier := fun _ => by
  unfold QuietSpecifier
  infer_instance

/-- Text with none of the characters a quiet specifier leaves out and no `//` is idle up to a
closing quote. -/
theorem idleRun_quiet : ∀ {x : List Char},
    (∀ c ∈ x, c ∉ ['\'', '"', '`', '\\', '\x7b', '\x7d', '*', '\n']) → ¬ ['/', '/'] <:+: x →
      idleRun x (some '\'') = true
  | [], _, _ => rfl
  | c :: x, hc, hs => by
    have hcx := hc c List.mem_cons_self
    have hx : ¬ ['/', '/'] <:+: x := fun h => hs (h.trans (List.suffix_cons _ _).isInfix)
    simp only [idleRun, Bool.and_eq_true]
    refine ⟨?_, idleRun_quiet (fun c' h' => hc c' (List.mem_cons_of_mem _ h')) hx⟩
    simp only [List.mem_cons, List.not_mem_nil, or_false, not_or] at hcx
    cases x with
    | nil => simp [idle]; tauto
    | cons y x =>
      have hy := hc y (List.mem_cons_of_mem _ List.mem_cons_self)
      simp only [List.mem_cons, List.not_mem_nil, or_false, not_or] at hy
      -- a `/` before another would be the `//` left out
      have hslash : c = '/' → y ≠ '/' := by
        rintro rfl rfl
        exact hs ⟨[], x, rfl⟩
      simp [idle]
      tauto

theorem QuietSpecifier.idleRun {src : String} (h : QuietSpecifier src) :
    idleRun src.toList (some '\'') = true :=
  idleRun_quiet h.1 h.2

namespace Binding

/-- What a redirection puts in place of a name: the lookup, a dot and the member before `(`, and
the lookup alone before `.`. -/
theorem replacement_eq_some {b : Binding} {u r : List Char} (h : b.replacement u = some r) :
    (∃ w, u = '(' :: w) ∧ r = (registryLookup b.source).toList ++ '.' :: b.member.toList ∨
      (∃ w, u = '.' :: w) ∧ r = (registryLookup b.source).toList := by
  unfold replacement at h
  split at h
  · rename_i w
    refine .inl ⟨⟨w, rfl⟩, ?_⟩
    rw [← Option.some.inj h]
    simp
  · rename_i w
    split at h
    · dsimp only at h
      split at h
      · exact .inr ⟨⟨w, rfl⟩, (Option.some.inj h).symm⟩
      · cases h
    · cases h
  · cases h

end Binding

theorem flatMap_quoteChar {x : List Char} (h : ∀ c ∈ x, c ≠ '\\' ∧ c ≠ '\'') :
    x.flatMap quoteChar = x := by
  induction x with
  | nil => rfl
  | cons c x ih =>
    obtain ⟨h₁, h₂⟩ := h c List.mem_cons_self
    simp [quoteChar, h₁, h₂, ih fun c' hc' => h c' (List.mem_cons_of_mem _ hc')]

/-- The characters of a lookup of a quiet specifier, with nothing escaped. -/
theorem QuietSpecifier.lookup_append {src : String} (h : QuietSpecifier src) (z : List Char) :
    (registryLookup src).toList ++ z =
      'm' :: ('r' :: '.' :: 'g' :: 'e' :: 't' :: ['('] ++ '\'' :: (src.toList ++ '\'' :: ')' :: z)) := by
  have hq : ∀ c ∈ src.toList, c ≠ '\\' ∧ c ≠ '\'' := fun c hc => by
    have := h.1 c hc
    simp only [List.mem_cons, List.not_mem_nil, or_false, not_or] at this
    exact ⟨this.2.2.2.1, this.1⟩
  rw [Binding.registryLookup_append, flatMap_quoteChar hq]
  rfl

theorem isNameChar_not_mem {c : Char} (hc : isNameChar c = true) :
    c ∉ ['*', '\\', '\'', '"', '`', '\x7b', '\x7d', '/', '(', '.', '\n'] := by
  intro hm
  simp only [List.mem_cons, List.not_mem_nil, or_false] at hm
  rcases hm with rfl | rfl | rfl | rfl | rfl | rfl | rfl | rfl | rfl | rfl | rfl <;>
    exact absurd hc (by decide +kernel)

/-- Name characters are idle, unless a `$` comes before `{`. -/
theorem idleRun_names : ∀ {x : List Char} {after : Option Char}, (∀ c ∈ x, isNameChar c = true) →
    after ≠ some '\x7b' → idleRun x after = true
  | [], _, _, _ => rfl
  | c :: x, after, hx, ha => by
    have hc := isNameChar_not_mem (hx c List.mem_cons_self)
    have hnext : x.head?.or after ≠ some '\x7b' := by
      cases x with
      | nil => simpa using ha
      | cons y x =>
        have hy := isNameChar_not_mem (hx y (List.mem_cons_of_mem _ List.mem_cons_self))
        simp only [List.head?_cons, Option.some_or, ne_eq, Option.some.injEq]
        rintro rfl
        simp at hy
    simp only [List.mem_cons, List.not_mem_nil, or_false, not_or] at hc
    simp only [idleRun, Bool.and_eq_true]
    refine ⟨?_, idleRun_names (fun c' h' => hx c' (List.mem_cons_of_mem _ h')) ha⟩
    simp [idle, hc.1, hc.2.1, hc.2.2.1, hc.2.2.2.1, hc.2.2.2.2.1, hc.2.2.2.2.2.1,
      hc.2.2.2.2.2.2.1, hc.2.2.2.2.2.2.2.1, hnext]

namespace Brace.State

/-- A lookup reads as nothing: idle text, an idle specifier in single quotes, and idle text
again. -/
theorem scan_lookup {s : State} {q : Option Char} (h : Consistent s q) {pre src post : List Char}
    (hpre : idleRun pre (some '\'') = true) (hsrc : idleRun src (some '\'') = true)
    (y : List Char) (hpost : idleRun post y.head? = true) (pos : Nat) :
    ∃ k, s.scan q pos (pre ++ '\'' :: (src ++ '\'' :: (post ++ y))) = s.scan q k y := by
  refine ⟨pos + pre.length + src.length + 2 + post.length, ?_⟩
  rw [scan_idleRun h ('\'' :: (src ++ '\'' :: (post ++ y))) pos hpre, scan_quotes_around h hsrc,
    scan_idleRun h y _ hpost]

/-- What a redirection puts in place of a name reads as nothing, and so does all of it but its
first character, when its specifier is quiet and what follows is the `(` or `.` after the name. -/
theorem scan_replacement {b : Binding} (hb : b.Redirectable) (hq : QuietSpecifier b.source)
    {u r : List Char} (hr : b.replacement u = some r) {s : State} {q : Option Char}
    (h : Consistent s q) (pos : Nat) {y : List Char} (hy : y.head? = some '(' ∨ y.head? = some '.') :
    (∃ k, s.scan q pos (r ++ y) = s.scan q k y) ∧ ∃ k, s.scan q pos (r.tail ++ y) = s.scan q k y := by
  have hsrc := hq.idleRun
  have hy' : y.head? ≠ some '\x7b' := by rcases hy with hy | hy <;> simp [hy]
  have hm : idleRun ['m', 'r', '.', 'g', 'e', 't', '('] (some '\'') = true := by decide
  have hr' : idleRun ['r', '.', 'g', 'e', 't', '('] (some '\'') = true := by decide
  rcases Binding.replacement_eq_some hr with ⟨-, rfl⟩ | ⟨-, rfl⟩
  · -- the lookup, a dot and the member
    have hpost : idleRun (')' :: '.' :: b.member.toList) y.head? = true := by
      simp only [idleRun, Bool.and_eq_true]
      exact ⟨by simp [idle], by simp [idle], idleRun_names hb.member hy'⟩
    have ht : ((registryLookup b.source).toList ++ '.' :: b.member.toList).tail ++ y =
        'r' :: '.' :: 'g' :: 'e' :: 't' :: ['('] ++ '\'' ::
          (b.source.toList ++ '\'' :: ((')' :: '.' :: b.member.toList) ++ y)) := by
      rw [hq.lookup_append]
      simp
    rw [List.append_assoc, hq.lookup_append, ht]
    exact ⟨scan_lookup h hm hsrc y hpost pos, scan_lookup h hr' hsrc y hpost pos⟩
  · -- the lookup alone
    have hpost : idleRun [')'] y.head? = true := by simp [idleRun, idle]
    have ht : (registryLookup b.source).toList.tail ++ y =
        'r' :: '.' :: 'g' :: 'e' :: 't' :: ['('] ++ '\'' ::
          (b.source.toList ++ '\'' :: ([')'] ++ y)) := by
      have := hq.lookup_append []
      rw [List.append_nil] at this
      rw [this]
      simp
    rw [hq.lookup_append, ht]
    exact ⟨scan_lookup h hm hsrc y hpost pos, scan_lookup h hr' hsrc y hpost pos⟩

/-- A name before `(` or `.` reads as nothing, and so does all of it but its first character. -/
theorem scan_name {N : List Char} (hN : ∀ c ∈ N, isNameChar c = true) {s : State} {q : Option Char}
    (h : Consistent s q) (pos : Nat) {y : List Char} (hy : y.head? = some '(' ∨ y.head? = some '.') :
    (∃ k, s.scan q pos (N ++ y) = s.scan q k y) ∧ ∃ k, s.scan q pos (N.tail ++ y) = s.scan q k y := by
  have hy' : y.head? ≠ some '\x7b' := by rcases hy with hy | hy <;> simp [hy]
  refine ⟨⟨_, scan_idleRun h y pos (idleRun_names hN hy')⟩,
    ⟨_, scan_idleRun h y pos (idleRun_names (fun c hc => hN c (List.mem_of_mem_tail hc)) hy')⟩⟩

end Brace.State

section Reading

variable {bs : List Binding} (hB : ∀ b ∈ bs, b.Redirectable ∧ QuietSpecifier b.source)
include hB

/-- A reading starts as the text does, or with the `m` of a lookup where the text starts with a
name character. -/
theorem head?_redirectAll (p : Option Char) (t : List Char) :
    (redirectAll bs p t).head? = t.head? ∨
      (redirectAll bs p t).head? = some 'm' ∧ ∃ x ∈ t.head?, isNameChar x = true := by
  cases t with
  | nil => simp
  | cons c t =>
    cases hf : firstCall bs p (c :: t) with
    | none => simp [redirectAll_cons_of_none hf]
    | some call =>
      obtain ⟨N, r⟩ := call
      obtain ⟨b, hb, rfl, hcall⟩ := firstCall_eq_some hf
      obtain ⟨hne, hpre, -, hrep⟩ := Binding.callAt?_eq_some hcall
      have hc : isNameChar c = true := (hB b hb).1.name c (by
        obtain ⟨x, rest, hx⟩ := List.exists_cons_of_ne_nil hne
        rw [hx] at hpre ⊢
        rw [(List.cons_prefix_cons.1 hpre).1]
        exact List.mem_cons_self)
      have hr : r.head? = some 'm' := by
        rcases Binding.replacement_eq_some hrep with ⟨-, rfl⟩ | ⟨-, rfl⟩
        · rw [(hB b hb).2.lookup_append]
          rfl
        · have := (hB b hb).2.lookup_append []
          rw [List.append_nil] at this
          rw [this]
          rfl
      right
      rw [redirectAll_of_some hf, List.head?_append, hr]
      exact ⟨rfl, c, rfl, hc⟩

/-- The character before a reading reads as it does before the text. -/
theorem step_redirectAll_head (s : State) (q : Option Char) (pos : Nat) (c : Char)
    (p : Option Char) (t : List Char) :
    s.step q pos c (redirectAll bs p t).head? = s.step q pos c t.head? := by
  rcases head?_redirectAll hB p t with h | ⟨h, x, hx, hxn⟩
  · rw [h]
  · have hn := isNameChar_not_mem hxn
    simp only [List.mem_cons, List.not_mem_nil, or_false, not_or] at hn
    have hm : s.step q pos c (some 'm') = s.step q pos c none :=
      State.step_next_none s q pos c (by simp)
    have hx' : s.step q pos c (some x) = s.step q pos c none :=
      State.step_next_none s q pos c (by simpa using ⟨hn.2.2.2.2.2.2.2.1, hn.1, hn.2.2.2.2.2.1⟩)
    rw [h, hm, show t.head? = some x from hx, hx']

/-- A reading of a line reads, from every state the tracker can be in, as the line itself: to the
same state with events at the same depths, and so does all of it but its first character. -/
theorem scan_redirectAll (p : Option Char) (t : List Char) :
    ∀ {s : State} {q : Option Char}, State.Consistent s q → ∀ pos pos',
      Alike (s.scan q pos (redirectAll bs p t)) (s.scan q pos' t) ∧
        Alike (s.scan q pos (redirectAll bs p t).tail) (s.scan q pos' t.tail) := by
  fun_induction redirectAll bs p t with
  | case1 prev =>
    intro s q _ pos pos'
    exact ⟨alike_scan_pos s q pos pos' [], alike_scan_pos s q pos pos' []⟩
  | case2 prev c rest N r hf ih =>
    intro s q hs pos pos'
    obtain ⟨b, hb, rfl, hcall⟩ := firstCall_eq_some hf
    obtain ⟨hne, hpre, -, hrep⟩ := Binding.callAt?_eq_some hcall
    -- the call site: the name, then `(` or `.`
    have ht : c :: rest = b.localName.toList ++ (c :: rest).drop b.localName.toList.length :=
      (List.prefix_iff_eq_append.1 hpre).symm
    have hu : ((c :: rest).drop b.localName.toList.length).head? = some '(' ∨
        ((c :: rest).drop b.localName.toList.length).head? = some '.' := by
      rcases Binding.replacement_eq_some hrep with ⟨⟨w, hw⟩, -⟩ | ⟨⟨w, hw⟩, -⟩ <;> simp [hw]
    have hY : (redirectAll bs b.localName.toList.getLast?
        ((c :: rest).drop b.localName.toList.length)).head? =
        ((c :: rest).drop b.localName.toList.length).head? := by
      rcases head?_redirectAll hB b.localName.toList.getLast?
        ((c :: rest).drop b.localName.toList.length) with h | ⟨-, x, hx, hxn⟩
      · exact h
      · rcases hu with hu | hu <;> rw [hu] at hx <;> cases hx <;> exact absurd hxn (by decide +kernel)
    have hr : r ≠ [] := by
      rcases Binding.replacement_eq_some hrep with ⟨-, rfl⟩ | ⟨-, rfl⟩ <;> simp [registryLookup]
    obtain ⟨⟨k₁, h₁⟩, ⟨k₂, h₂⟩⟩ :=
      State.scan_replacement (hB b hb).1 (hB b hb).2 hrep hs pos (hY ▸ hu)
    obtain ⟨⟨k₃, h₃⟩, ⟨k₄, h₄⟩⟩ := State.scan_name (hB b hb).1.name hs pos' hu
    have ht' : rest = b.localName.toList.tail ++ (c :: rest).drop b.localName.toList.length := by
      have := congrArg List.tail ht
      rwa [List.tail_append_of_ne_nil hne] at this
    rw [← ht] at h₃
    rw [← ht'] at h₄
    rw [List.tail_append_of_ne_nil hr, List.tail_cons, h₁, h₂, h₃, h₄]
    exact ⟨(ih hs k₁ k₃).1, (ih hs k₂ k₄).1⟩
  | case3 prev c rest hf ih =>
    intro s q hs pos pos'
    refine ⟨?_, by simpa using (ih hs pos pos').1⟩
    refine (alike_scan_pos s q pos 0 _).trans (Alike.trans ?_ (alike_scan_pos s q 0 pos' _))
    -- the first character reads alike: what comes after it agrees on `/`, `*` and `{`
    rw [State.scan_cons, State.scan_cons, step_redirectAll_head hB]
    have hm := State.step_consistent hs 0 c rest.head?
    generalize s.step q 0 c rest.head? = m at hm ⊢
    cases m.stops
    · cases hp : m.pairs
      · exact ((ih hm _ _).1).cons m.event.toList
      · exact ((ih hm _ _).2).cons m.event.toList
    · exact Alike.refl _

/-- Redirecting a line for redirectable bindings with quiet specifiers keeps how the tracker reads
it. -/
theorem readsAlike_redirectLine (hidden : List String) (t : List Char) :
    ReadsAlike t (redirectLine bs hidden t) := by
  rw [redirectLine_eq_redirectAll (fun b hb => (hB b hb).1)]
  intro s
  exact (scan_redirectAll (fun b hb => hB b (List.mem_of_mem_filter hb)) none t
    (State.consistent_none s) 0 0).1

theorem newline_not_mem_redirectAll (p : Option Char) (t : List Char) (ht : '\n' ∉ t) :
    '\n' ∉ redirectAll bs p t := by
  fun_induction redirectAll bs p t with
  | case1 => simp
  | case2 prev c rest N r hf ih =>
    obtain ⟨b, hb, rfl, hcall⟩ := firstCall_eq_some hf
    obtain ⟨-, -, -, hrep⟩ := Binding.callAt?_eq_some hcall
    have hsrc := (hB b hb).2.1
    -- the lookup's own characters, the specifier's and the member's
    have hchars : ∀ x ∈ r, x ∈ ['m', 'r', '.', 'g', 'e', 't', '(', '\'', ')'] ∨
        x ∈ b.source.toList ∨ x ∈ b.member.toList := by
      have hlook := (hB b hb).2.lookup_append
      intro x hx
      rcases Binding.replacement_eq_some hrep with ⟨-, hr⟩ | ⟨-, hr⟩
      · rw [hr, hlook] at hx
        simp only [List.mem_cons, List.mem_append, List.not_mem_nil, or_false] at hx
        rcases hx with h | (h | h | h | h | h | h) | h | h | h | h | h | h <;> simp [h]
      · rw [hr, ← List.append_nil (registryLookup b.source).toList, hlook] at hx
        simp only [List.mem_cons, List.mem_append, List.not_mem_nil, or_false] at hx
        rcases hx with h | (h | h | h | h | h | h) | h | h | h | h <;> simp [h]
    have hr : '\n' ∉ r := fun h => by
      rcases hchars _ h with h | h | h
      · simp at h
      · exact hsrc _ h (by simp)
      · exact absurd ((hB b hb).1.member _ h) (by decide +kernel)
    exact fun h => (List.mem_append.1 h).elim hr (ih fun h' => ht (List.mem_of_mem_drop h'))
  | case3 prev c rest hf ih =>
    simp only [List.mem_cons, not_or] at ht ⊢
    exact ⟨ht.1, ih ht.2⟩

theorem newline_not_mem_redirectLine (hidden : List String) (t : List Char) (ht : '\n' ∉ t) :
    '\n' ∉ redirectLine bs hidden t := by
  rw [redirectLine_eq_redirectAll (fun b hb => (hB b hb).1)]
  exact newline_not_mem_redirectAll (fun b hb => hB b (List.mem_of_mem_filter hb)) none t ht

end Reading

end ModuleBundler
