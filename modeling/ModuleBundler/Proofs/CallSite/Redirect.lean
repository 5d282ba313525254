import ModuleBundler.Proofs.Bundle.Scaffold
import Mathlib

/-!
Redirecting the call sites of one binding makes none.

A call site of a binding is an occurrence of its local name, after a character that does not
join it to a longer name or a member access, that the binding would replace (`Binding.CallAt`).
Redirecting a text replaces call sites and copies everything else. What it puts in place of a
call site holds no call site of a binding whose name is made of name characters and which is
no namespace named like the registry, when the member of the replaced binding is made of name
characters and its specifier has no `(` (`calls_replacement`). So a redirected text keeps only
call sites that it had before and that the redirected binding did not have at the same place
(`calls_redirectFrom`), and a text without call sites is left as it is
(`redirectFrom_of_not_calls`).
-/

namespace ModuleBundler

open ModuleBundler.Text ModuleBundler.Syntax

namespace Binding

/-! ### Call sites -/

/-- A call site of `b`, under the name `N`, at the start of `t` after the character `prev`. -/
def CallAt (b : Binding) (N : List Char) (prev : Option Char) (t : List Char) : Prop :=
  N ≠ [] ∧ N <+: t ∧ joinsName prev = false ∧ (b.replacement (t.drop N.length)).isSome

/-- `t`, after `prev`, holds a call site of `b` under the name `N`. -/
def Calls (b : Binding) (N : List Char) : Option Char → List Char → Prop
  | _, [] => False
  | prev, c :: rest => b.CallAt N prev (c :: rest) ∨ b.Calls N (some c) rest

/-- `t`, after `prev`, holds a call site of `b'` under `N'` where `b` has none under `N`. -/
def CallsBeyond (b' : Binding) (N' : List Char) (b : Binding) (N : List Char) :
    Option Char → List Char → Prop
  | _, [] => False
  | prev, c :: rest => (b'.CallAt N' prev (c :: rest) ∧ ¬ b.CallAt N prev (c :: rest)) ∨
      b'.CallsBeyond N' b N (some c) rest

variable {b b' : Binding} {N N' : List Char} {p prev : Option Char}

@[simp] theorem calls_nil : ¬ b.Calls N p [] := id

theorem calls_cons {c : Char} {t : List Char} :
    b.Calls N p (c :: t) ↔ b.CallAt N p (c :: t) ∨ b.Calls N (some c) t := Iff.rfl

theorem CallsBeyond.calls {t : List Char} (h : b'.CallsBeyond N' b N p t) : b'.Calls N' p t := by
  induction t generalizing p with
  | nil => exact h
  | cons c t ih =>
    rcases h with ⟨h, -⟩ | h
    · exact .inl h
    · exact .inr (ih h)

/-- A name that never occurs has no call site. -/
theorem callsBeyond_of_calls_nil {t : List Char} (h : b'.Calls N' p t) :
    b'.CallsBeyond N' b [] p t := by
  induction t generalizing p with
  | nil => exact h
  | cons c t ih =>
    rcases h with h | h
    · exact .inl ⟨h, fun hb => hb.1 rfl⟩
    · exact .inr (ih h)

/-- Call sites after a nonempty prefix are call sites of the whole text. -/
theorem callsBeyond_append {x y : List Char} (hx : x ≠ [])
    (h : b'.CallsBeyond N' b N x.getLast? y) : b'.CallsBeyond N' b N p (x ++ y) := by
  induction x generalizing p with
  | nil => exact absurd rfl hx
  | cons c x ih =>
    refine .inr ?_
    cases x with
    | nil => exact h
    | cons d x => exact ih (List.cons_ne_nil _ _) (by simpa using h)

theorem calls_append {x y : List Char} (hx : x ≠ []) (h : b.Calls N x.getLast? y) :
    b.Calls N p (x ++ y) := by
  induction x generalizing p with
  | nil => exact absurd rfl hx
  | cons c x ih =>
    refine .inr ?_
    cases x with
    | nil => exact h
    | cons d x => exact ih (List.cons_ne_nil _ _) (by simpa using h)

theorem not_callAt_of_joins {t : List Char} (hp : joinsName p = true) : ¬ b.CallAt N p t :=
  fun h => by rw [h.2.2.1] at hp; cases hp

theorem joinsName_some {c : Char} (hc : isNameChar c = true) : joinsName (some c) = true := by
  simp [joinsName, hc]

/-- A name made of name characters does not start at any other character. -/
theorem not_callAt_cons {c : Char} {t : List Char} (hN : ∀ x ∈ N, isNameChar x = true)
    (hc : isNameChar c = false) : ¬ b.CallAt N p (c :: t) := by
  rintro ⟨hne, hpre, -⟩
  obtain ⟨n, ns, rfl⟩ := List.exists_cons_of_ne_nil hne
  obtain ⟨rfl, -⟩ := List.cons_prefix_cons.1 hpre
  rw [hN n List.mem_cons_self] at hc
  cases hc

theorem calls_cons_of_not_nameChar {c : Char} {t : List Char} (hN : ∀ x ∈ N, isNameChar x = true)
    (hc : isNameChar c = false) (q : Option Char) :
    b.Calls N p (c :: t) ↔ b.Calls N q (c :: t) := by
  rw [calls_cons, calls_cons]
  simp only [not_callAt_cons hN hc, false_or]

theorem getLast?_or_cons {c : Char} {w : List Char} :
    (c :: w).getLast?.or p = w.getLast?.or (some c) := by
  cases w <;> simp [List.getLast?_cons]

/-- After a joining character, a run of name characters holds no call site. -/
theorem calls_run {w y : List Char} (hp : joinsName p = true) (hw : ∀ x ∈ w, isNameChar x = true)
    (h : b.Calls N p (w ++ y)) : b.Calls N (w.getLast?.or p) y := by
  induction w generalizing p with
  | nil => simpa using h
  | cons c w ih =>
    rcases h with h | h
    · exact absurd h (not_callAt_of_joins hp)
    · rw [getLast?_or_cons]
      exact ih (joinsName_some (hw c List.mem_cons_self))
        (fun x hx => hw x (List.mem_cons_of_mem _ hx)) h

/-! ### What a redirection does at each character -/

theorem redirectFrom_name_nil {t : List Char} : b.redirectFrom [] p t = t := by
  cases t <;> simp [redirectFrom]

theorem redirectFrom_of_not_occurs {c : Char} {t : List Char} (h : ¬ N <+: c :: t) :
    b.redirectFrom N p (c :: t) = c :: b.redirectFrom N (some c) t := by
  cases N with
  | nil => exact absurd List.nil_prefix h
  | cons n ns =>
    rw [redirectFrom, if_neg (by simpa [List.isPrefixOf_iff_prefix] using h)]

theorem redirectFrom_of_occurs {t : List Char} (hne : N ≠ []) (h : N <+: t) :
    b.redirectFrom N p t =
      match (if joinsName p = true then none else b.replacement (t.drop N.length)) with
      | some r => r ++ b.redirectFrom N N.getLast? (t.drop N.length)
      | none => N ++ b.redirectFrom N N.getLast? (t.drop N.length) := by
  obtain ⟨n, ns, rfl⟩ := List.exists_cons_of_ne_nil hne
  obtain ⟨c, t, rfl⟩ : ∃ c t', t = c :: t' := by
    cases t with
    | nil => exact absurd h (by simp)
    | cons c t => exact ⟨c, t, rfl⟩
  rw [redirectFrom, if_pos (List.isPrefixOf_iff_prefix.2 h)]
  rfl

theorem redirectFrom_cons_of_not_nameChar {c : Char} {t : List Char}
    (hN : ∀ x ∈ N, isNameChar x = true) (hc : isNameChar c = false) :
    b.redirectFrom N p (c :: t) = c :: b.redirectFrom N (some c) t := by
  cases N with
  | nil => simp [redirectFrom_name_nil]
  | cons n ns =>
    refine redirectFrom_of_not_occurs fun h => ?_
    obtain ⟨rfl, -⟩ := List.cons_prefix_cons.1 h
    rw [hN n List.mem_cons_self] at hc
    cases hc

/-- A name made of name characters that starts a text whose name characters run up to `u`
lies within that run. -/
theorem prefix_of_run {w u : List Char} (hN : ∀ x ∈ N, isNameChar x = true)
    (hu : ∀ c ∈ u.head?, isNameChar c = false) (h : N <+: w ++ u) : N <+: w := by
  induction N generalizing w with
  | nil => exact List.nil_prefix
  | cons n ns ih =>
    cases w with
    | nil =>
      cases u with
      | nil => simp at h
      | cons c u =>
        obtain ⟨rfl, -⟩ := List.cons_prefix_cons.1 h
        have hn := hu n rfl
        rw [hN n List.mem_cons_self] at hn
        cases hn
    | cons c w =>
      obtain ⟨rfl, h'⟩ := List.cons_prefix_cons.1 h
      exact List.cons_prefix_cons.2 ⟨rfl, ih (fun x hx => hN x (List.mem_cons_of_mem _ hx)) h'⟩

/-- After a joining character, a redirection copies a run of name characters as it is: no call
site starts inside it, and no occurrence of a name made of name characters reaches past it. -/
theorem redirectFrom_run (hN : ∀ x ∈ N, isNameChar x = true) {w u : List Char}
    (hp : joinsName p = true) (hw : ∀ x ∈ w, isNameChar x = true)
    (hu : ∀ c ∈ u.head?, isNameChar c = false) :
    b.redirectFrom N p (w ++ u) = w ++ b.redirectFrom N (w.getLast?.or p) u := by
  induction hl : w.length using Nat.strong_induction_on generalizing w p with
  | _ n ih =>
    cases w with
    | nil => simp
    | cons c w =>
      have hc : isNameChar c = true := hw c List.mem_cons_self
      by_cases hne : N = []
      · subst hne
        simp [redirectFrom_name_nil]
      rw [List.cons_append]
      by_cases hpre : N <+: c :: (w ++ u)
      · -- the name lies within the run and is no call site there, so it is copied and skipped
        obtain ⟨rest, hrest⟩ : N <+: c :: w := prefix_of_run hN hu (by simpa using hpre)
        have hdrop : (c :: (w ++ u)).drop N.length = rest ++ u := by
          rw [← List.cons_append, ← hrest, List.append_assoc, List.drop_left]
        obtain ⟨x, hx⟩ := Option.isSome_iff_exists.1 (List.getLast?_isSome.2 hne)
        have hlen : rest.length < n := by
          have h₁ := congrArg List.length hrest
          have h₂ : N.length ≠ 0 := by simpa using hne
          simp only [List.length_append, List.length_cons] at h₁ hl
          omega
        rw [redirectFrom_of_occurs hne hpre, if_pos hp]
        dsimp only
        rw [hdrop, ih rest.length hlen (p := N.getLast?)
          (by rw [hx]; exact joinsName_some (hN x (List.mem_of_getLast? hx)))
          (fun y hy => hw y (by rw [← hrest]; exact List.mem_append_right _ hy)) rfl,
          ← List.append_assoc, hrest]
        congr 2
        rw [← hrest, List.getLast?_append, hx]
        cases rest.getLast? <;> rfl
      · rw [redirectFrom_of_not_occurs hpre, ih w.length (by rw [← hl]; simp) (joinsName_some hc)
          (fun x hx => hw x (List.mem_cons_of_mem _ hx)) rfl, getLast?_or_cons]
        rfl

theorem head?_dropWhile_nameChar (u : List Char) :
    ∀ c ∈ (u.dropWhile isNameChar).head?, isNameChar c = false := by
  intro c hc
  have := List.head?_dropWhile_not isNameChar u
  rw [hc] at this
  exact this

theorem joinsName_getLast?_or {w : List Char} (hw : ∀ x ∈ w, isNameChar x = true)
    (hp : joinsName p = true) : joinsName (w.getLast?.or p) = true := by
  cases hl : w.getLast? with
  | none => simpa using hp
  | some x => exact joinsName_some (hw x (List.mem_of_getLast? hl))

theorem head?_redirectFrom (hN : ∀ x ∈ N, isNameChar x = true) {u : List Char}
    (hu : ∀ c ∈ u.head?, isNameChar c = false) : (b.redirectFrom N p u).head? = u.head? := by
  cases u with
  | nil => simp [redirectFrom]
  | cons c u => rw [redirectFrom_cons_of_not_nameChar hN (hu c rfl)]; rfl

/-! ### What a binding looks at behind a name -/

theorem replacement_of_nameChar {c : Char} {t : List Char} (hc : isNameChar c = true) :
    b.replacement (c :: t) = none := by
  have h₁ : c ≠ '(' := by rintro rfl; exact absurd hc (by decide)
  have h₂ : c ≠ '.' := by rintro rfl; exact absurd hc (by decide)
  unfold replacement
  split <;> simp_all

/-- A binding replaces only a name followed by `(` or by `.`. -/
theorem head_of_replacement {u r : List Char} (h : b.replacement u = some r) :
    ∀ c ∈ u.head?, isNameChar c = false := by
  intro c hc
  unfold replacement at h
  split at h
  · simp only [List.head?_cons, Option.mem_def, Option.some.injEq] at hc
    subst hc
    decide
  · simp only [List.head?_cons, Option.mem_def, Option.some.injEq] at hc
    subst hc
    decide
  · cases h

/-- The name at the start of a run of name characters that no name character follows. -/
theorem nameLength_run {w y : List Char} (hw : ∀ x ∈ w, isNameChar x = true)
    (hy : ∀ c ∈ y.head?, isNameChar c = false) :
    nameLength (w ++ y) = nameLength w ∧ (nameLength w = 0 ∨ nameLength w = w.length) := by
  cases w with
  | nil =>
    cases y with
    | nil => simp [nameLength]
    | cons c y => simp [nameLength, hy c rfl]
  | cons c w =>
    have hw' : ∀ x ∈ w, isNameChar x = true := fun x hx => hw x (List.mem_cons_of_mem _ hx)
    have ht : (w ++ y).takeWhile isNameChar = w := by
      rw [List.takeWhile_append_of_pos hw']
      cases y with
      | nil => simp
      | cons d y => simp [hy d rfl]
    have ht' : w.takeWhile isNameChar = w := List.takeWhile_eq_self_iff.2 hw'
    simp only [nameLength, List.cons_append, ht, ht']
    split <;> simp

/-- Behind a dot, a binding looks at the name that follows and at the character after it. -/
theorem replacement_dot_run {w y : List Char} (hw : ∀ x ∈ w, isNameChar x = true)
    (hy : ∀ c ∈ y.head?, isNameChar c = false) :
    b.replacement ('.' :: (w ++ y)) = b.replacement ('.' :: (w ++ y.take 1)) := by
  have hy₁ : ∀ c ∈ (y.take 1).head?, isNameChar c = false := by
    cases y with
    | nil => simp
    | cons c y => simpa using hy c rfl
  obtain ⟨h₁, h₂⟩ := nameLength_run hw hy
  obtain ⟨h₁', -⟩ := nameLength_run hw hy₁
  simp only [replacement, h₁, h₁']
  rcases h₂ with h | h
  · simp [h]
  · rw [h, List.drop_left, List.drop_left]
    cases y <;> rfl

/-- After a joining character, a redirection keeps what any binding looks at behind a name. -/
theorem replacement_redirectFrom (hN : ∀ x ∈ N, isNameChar x = true) (hp : joinsName p = true)
    (u : List Char) : b'.replacement (b.redirectFrom N p u) = b'.replacement u := by
  have hw : ∀ x ∈ u.takeWhile isNameChar, isNameChar x = true := fun _ => List.mem_takeWhile_imp
  have hv := head?_dropWhile_nameChar u
  rw [← List.takeWhile_append_dropWhile (p := isNameChar) (l := u), redirectFrom_run hN hp hw hv]
  cases hwu : u.takeWhile isNameChar with
  | cons c w => rw [List.cons_append, List.cons_append,
      replacement_of_nameChar (hw c (by simp [hwu])), replacement_of_nameChar (hw c (by simp [hwu]))]
  | nil =>
    simp only [List.nil_append, List.getLast?_nil, Option.none_or]
    cases hvu : u.dropWhile isNameChar with
    | nil => simp [redirectFrom]
    | cons c v =>
      have hc : isNameChar c = false := hv c (by simp [hvu])
      rw [redirectFrom_cons_of_not_nameChar hN hc]
      by_cases h₁ : c = '('
      · subst h₁
        simp [replacement]
      by_cases h₂ : c = '.'
      · subst h₂
        -- behind the dot: a run of name characters, then the character that ends it
        have hw₁ : ∀ x ∈ v.takeWhile isNameChar, isNameChar x = true :=
          fun _ => List.mem_takeWhile_imp
        have hv₁ := head?_dropWhile_nameChar v
        rw [← List.takeWhile_append_dropWhile (p := isNameChar) (l := v),
          redirectFrom_run hN (by decide) hw₁ hv₁,
          replacement_dot_run hw₁ (by rw [head?_redirectFrom hN hv₁]; exact hv₁),
          replacement_dot_run hw₁ hv₁]
        cases hd : v.dropWhile isNameChar with
        | nil => simp [redirectFrom]
        | cons d v' =>
          rw [redirectFrom_cons_of_not_nameChar hN (hv₁ d (by simp [hd]))]
          rfl
      · unfold replacement
        split <;> simp_all

/-- A call site after a run of name characters, in a text redirected after a joining
character, is a call site of the text before. -/
theorem callAt_append_redirectFrom (hN : ∀ x ∈ N, isNameChar x = true)
    (hN' : ∀ x ∈ N', isNameChar x = true) {v u : List Char} {p' : Option Char}
    (hv : ∀ x ∈ v, isNameChar x = true) (hp' : joinsName p' = true)
    (hu : ∀ c ∈ u.head?, isNameChar c = false)
    (h : b'.CallAt N' p (v ++ b.redirectFrom N p' u)) : b'.CallAt N' p (v ++ u) := by
  obtain ⟨hne, hpre, hj, hrep⟩ := h
  have hX : ∀ c ∈ (b.redirectFrom N p' u).head?, isNameChar c = false := by
    rw [head?_redirectFrom hN hu]
    exact hu
  obtain ⟨v₂, rfl⟩ := prefix_of_run hN' hX hpre
  cases v₂ with
  | cons d v₂ =>
    -- the name would stop inside the run, where no binding replaces anything
    rw [List.append_assoc, List.drop_left, List.cons_append,
      replacement_of_nameChar (hv d (by simp))] at hrep
    cases hrep
  | nil =>
    simp only [List.append_nil] at hrep ⊢
    refine ⟨hne, List.prefix_append _ _, hj, ?_⟩
    rw [List.drop_left] at hrep ⊢
    rwa [replacement_redirectFrom hN hp'] at hrep

/-- The same after any run of name characters, whatever the text after it. -/
theorem callAt_run_redirectFrom (hN : ∀ x ∈ N, isNameChar x = true)
    (hN' : ∀ x ∈ N', isNameChar x = true) {v u : List Char} {p' : Option Char}
    (hv : ∀ x ∈ v, isNameChar x = true) (hp' : joinsName p' = true)
    (h : b'.CallAt N' p (v ++ b.redirectFrom N p' u)) : b'.CallAt N' p (v ++ u) := by
  have hw : ∀ x ∈ u.takeWhile isNameChar, isNameChar x = true := fun _ => List.mem_takeWhile_imp
  -- the redirection copies the run of name characters that starts `u`
  rw [← List.takeWhile_append_dropWhile (p := isNameChar) (l := u),
    redirectFrom_run hN hp' hw (head?_dropWhile_nameChar u), ← List.append_assoc] at h
  have := callAt_append_redirectFrom hN hN'
    (fun x hx => (List.mem_append.1 hx).elim (hv x) (hw x)) (joinsName_getLast?_or hw hp')
    (head?_dropWhile_nameChar u) h
  rwa [List.append_assoc, List.takeWhile_append_dropWhile] at this

theorem mem_take_nameLength {t : List Char} {x : Char} (hx : x ∈ t.take (nameLength t)) :
    isNameChar x = true := by
  cases t with
  | nil => simp at hx
  | cons c t =>
    simp only [nameLength] at hx
    split at hx
    · rename_i hc
      rw [List.take_succ_cons, ← (List.prefix_iff_eq_take.1 (List.takeWhile_prefix isNameChar))]
        at hx
      rcases List.mem_cons.1 hx with rfl | hx
      · simp only [Bool.and_eq_true] at hc
        exact hc.1
      · exact List.mem_takeWhile_imp hx
    · simp at hx

/-- A call site is followed, through name characters and dots only, by an opening bracket. -/
theorem callAt_paren (hN : ∀ x ∈ N, isNameChar x = true) {t : List Char} (h : b.CallAt N p t) :
    ∃ w rest, t = w ++ '(' :: rest ∧ ∀ x ∈ w, isNameChar x = true ∨ x = '.' := by
  obtain ⟨-, ⟨u, rfl⟩, -, hrep⟩ := h
  rw [List.drop_left] at hrep
  unfold replacement at hrep
  split at hrep
  · rename_i rest
    exact ⟨N, rest, rfl, fun x hx => .inl (hN x hx)⟩
  · rename_i rest
    split at hrep
    · dsimp only at hrep
      split at hrep
      · rename_i hc
        simp only [Bool.and_eq_true, decide_eq_true_eq] at hc
        obtain ⟨-, hc⟩ := hc
        obtain ⟨z, hz⟩ := List.head?_eq_some_iff.1 hc
        refine ⟨N ++ '.' :: rest.take (nameLength rest), z, ?_, ?_⟩
        · rw [List.append_assoc, List.cons_append, ← hz, List.take_append_drop]
        · intro x hx
          rcases List.mem_append.1 hx with hx | hx
          · exact .inl (hN x hx)
          rcases List.mem_cons.1 hx with rfl | hx
          · exact .inr rfl
          exact .inl (mem_take_nameLength hx)
      · cases hrep
    · cases hrep
  · cases hrep

/-! ### What a binding puts in place of a call site -/

theorem calls_tail {c : Char} {t : List Char} (hc : ¬ b.CallAt N p (c :: t))
    (h : b.Calls N p (c :: t)) : b.Calls N (some c) t :=
  h.resolve_left hc

/-- Before a character that is no name character, where a text starts does not matter. -/
theorem calls_of_head (hN : ∀ x ∈ N, isNameChar x = true) {R : List Char}
    (hR : ∀ c ∈ R.head?, isNameChar c = false) (h : b.Calls N p R) (q : Option Char) :
    b.Calls N q R := by
  cases R with
  | nil => exact h
  | cons c R => exact (calls_cons_of_not_nameChar hN (hR c rfl) q).1 h

/-- A run of characters that satisfy `P`, then `(`, does not reach past a stop character that
fails `P` in a text with no `(` before the stop. -/
theorem append_paren_ne {P : Char → Prop} {w rest q z : List Char} {s : Char}
    (hw : ∀ x ∈ w, P x) (hs : ¬ P s) (hsp : s ≠ '(') (hq : '(' ∉ q) :
    w ++ '(' :: rest ≠ q ++ s :: z := by
  induction w generalizing q with
  | nil =>
    intro h
    cases q with
    | nil => exact hsp (List.cons.inj h).1.symm
    | cons c q => exact hq ((List.cons.inj h).1 ▸ List.mem_cons_self)
  | cons c w ih =>
    intro h
    cases q with
    | nil =>
      obtain ⟨rfl, -⟩ := List.cons.inj h
      exact hs (hw c List.mem_cons_self)
    | cons d q =>
      exact ih (fun x hx => hw x (List.mem_cons_of_mem _ hx))
        (fun hm => hq (List.mem_cons_of_mem _ hm)) (List.cons.inj h).2

/-- No call site starts inside a quoted text without `(`. -/
theorem calls_quoted (hN : ∀ x ∈ N, isNameChar x = true) {q z : List Char} (hq : '(' ∉ q)
    (h : b.Calls N p (q ++ '\'' :: z)) : b.Calls N (some '\'') z := by
  induction q generalizing p with
  | nil => exact calls_tail (not_callAt_cons hN (by decide)) h
  | cons c q ih =>
    rcases h with h | h
    · obtain ⟨w, rest, he, hw⟩ := callAt_paren hN h
      exact absurd he.symm (append_paren_ne hw (by decide) (by decide) hq)
    · exact ih (fun hm => hq (List.mem_cons_of_mem _ hm)) h

theorem paren_not_mem_quoted {src : String} (hs : '(' ∉ src.toList) :
    '(' ∉ src.toList.flatMap Brace.quoteChar := by
  intro hm
  obtain ⟨x, hx, hmem⟩ := List.mem_flatMap.1 hm
  unfold Brace.quoteChar at hmem
  split_ifs at hmem <;> simp at hmem
  exact hs (hmem ▸ hx)

/-- The lookup starts with the registry's name, which only a namespace of that name would call
through `.get(`. -/
theorem not_callAt_lookup (hN : ∀ x ∈ N, isNameChar x = true)
    (hns : b.wholeModule = true → N ≠ registryName.toList) {z : List Char} :
    ¬ b.CallAt N p ('m' :: 'r' :: '.' :: 'g' :: 'e' :: 't' :: '(' :: z) := by
  rintro ⟨hne, hpre, -, hrep⟩
  rcases N with _ | ⟨x₁, _ | ⟨x₂, _ | ⟨x₃, N⟩⟩⟩
  · exact hne rfl
  · obtain ⟨rfl, -⟩ := List.cons_prefix_cons.1 hpre
    rw [List.length_singleton, List.drop_one, List.tail_cons,
      replacement_of_nameChar (by decide)] at hrep
    cases hrep
  · obtain ⟨rfl, hpre₁⟩ := List.cons_prefix_cons.1 hpre
    obtain ⟨rfl, -⟩ := List.cons_prefix_cons.1 hpre₁
    cases hw : b.wholeModule
    · simp [replacement, hw] at hrep
    · exact hns hw (by decide)
  · obtain ⟨-, hpre₁⟩ := List.cons_prefix_cons.1 hpre
    obtain ⟨-, hpre₂⟩ := List.cons_prefix_cons.1 hpre₁
    obtain ⟨rfl, -⟩ := List.cons_prefix_cons.1 hpre₂
    exact absurd (hN '.' (by simp)) (by decide)

/-- The characters of a registry lookup, spelled out: a call site over them is decided one
character at a time, without computing the string. -/
theorem registryLookup_append (src : String) (y : List Char) :
    (registryLookup src).toList ++ y = 'm' :: 'r' :: '.' :: 'g' :: 'e' :: 't' :: '(' ::
      '\'' :: (src.toList.flatMap Brace.quoteChar ++ '\'' :: ')' :: y) := by
  have h₀ : (registryLookup src).toList =
      'm' :: 'r' :: '.' :: 'g' :: 'e' :: 't' :: '(' :: ((singleQuoted src).toList ++ [')']) := by
    simp [registryLookup, registryName]
  rw [h₀, Brace.singleQuoted_toList]
  simp only [List.cons_append, List.append_assoc, List.nil_append]

/-- A registry lookup holds no call site of a binding that is no namespace named like the
registry, when its specifier has no `(`. -/
theorem calls_lookup (hN : ∀ x ∈ N, isNameChar x = true)
    (hns : b.wholeModule = true → N ≠ registryName.toList) {src : String} (hs : '(' ∉ src.toList)
    {y : List Char} (h : b.Calls N p ('m' :: 'r' :: '.' :: 'g' :: 'e' :: 't' :: '(' ::
      '\'' :: (src.toList.flatMap Brace.quoteChar ++ '\'' :: ')' :: y))) :
    b.Calls N (some ')') y := by
  -- `mr.get('`: only the first character could start a name
  have h := calls_tail (not_callAt_lookup hN hns) h
  have h := calls_tail (not_callAt_of_joins (by decide)) h
  have h := calls_tail (not_callAt_cons hN (by decide)) h
  have h := calls_tail (not_callAt_of_joins (by decide)) h
  have h := calls_tail (not_callAt_of_joins (by decide)) h
  have h := calls_tail (not_callAt_of_joins (by decide)) h
  have h := calls_tail (not_callAt_cons hN (by decide)) h
  have h := calls_tail (not_callAt_cons hN (by decide)) h
  -- the quoted specifier, then `')`
  exact calls_tail (not_callAt_cons hN (by decide)) (calls_quoted hN (paren_not_mem_quoted hs) h)

/-- What a binding puts in place of a call site holds no call site of a binding whose name is
made of name characters and which is no namespace named like the registry, when the member is
made of name characters and the specifier has no `(`. -/
theorem calls_replacement (hN' : ∀ x ∈ N', isNameChar x = true)
    (hns' : b'.wholeModule = true → N' ≠ registryName.toList)
    (hm : ∀ x ∈ b.member.toList, isNameChar x = true) (hs : '(' ∉ b.source.toList)
    {u r R : List Char} (hr : b.replacement u = some r) (hR : ∀ c ∈ R.head?, isNameChar c = false)
    (h : b'.Calls N' p (r ++ R)) (q : Option Char) : b'.Calls N' q R := by
  unfold replacement at hr
  split at hr
  · -- a call: the lookup, a dot and the member
    have h₁ : (registryLookup b.source ++ "." ++ b.member).toList ++ R =
        (registryLookup b.source).toList ++ '.' :: (b.member.toList ++ R) := by
      simp
    rw [← Option.some.inj hr, h₁, registryLookup_append] at h
    have h₂ := calls_tail (not_callAt_cons hN' (by decide)) (calls_lookup hN' hns' hs h)
    exact calls_of_head hN' hR (calls_run (by decide) hm h₂) q
  · -- a member access through a namespace: the lookup alone
    split at hr
    · dsimp only at hr
      split at hr
      · rw [← Option.some.inj hr, registryLookup_append] at h
        exact calls_of_head hN' hR (calls_lookup hN' hns' hs h) q
      · cases hr
    · cases hr
  · cases hr

/-! ### What a redirection keeps -/

/-- A nonempty run of name characters after `p`: a call site at its start, or none before its
end. -/
theorem calls_append_run {x y : List Char} (hx : x ≠ []) (hw : ∀ c ∈ x, isNameChar c = true)
    (h : b.Calls N p (x ++ y)) : b.CallAt N p (x ++ y) ∨ b.Calls N x.getLast? y := by
  obtain ⟨c, x, rfl⟩ := List.exists_cons_of_ne_nil hx
  rcases h with h | h
  · exact .inl h
  · refine .inr ?_
    have := calls_run (joinsName_some (hw c List.mem_cons_self))
      (fun z hz => hw z (List.mem_cons_of_mem _ hz)) h
    rwa [← getLast?_or_cons, Option.or_none] at this

theorem not_callsBeyond_self {t : List Char} : ¬ b.CallsBeyond N b N p t := by
  induction t generalizing p with
  | nil => exact id
  | cons c t ih =>
    rintro (⟨h, hn⟩ | h)
    · exact hn h
    · exact ih h

section Redirect

variable (hN : ∀ x ∈ N, isNameChar x = true) (hm : ∀ x ∈ b.member.toList, isNameChar x = true)
  (hs : '(' ∉ b.source.toList) (hN' : ∀ x ∈ N', isNameChar x = true)
  (hns' : b'.wholeModule = true → N' ≠ registryName.toList)
include hN hm hs hN' hns'

/-- Every call site of `b'` in a text redirected for `b` was a call site of `b'` before, at a
place where `b` had none. -/
theorem calls_redirectFrom {t : List Char} (h : b'.Calls N' p (b.redirectFrom N p t)) :
    b'.CallsBeyond N' b N p t := by
  fun_induction b.redirectFrom N p t with
  | case1 => exact h
  | case2 => exact callsBeyond_of_calls_nil h
  | case3 prev n ns n₁ ns₁ hpre after kept r hr ih =>
    -- a call site of `b`: the text put in its place holds no call site of `b'`
    have hsplit : n₁ :: ns₁ ++ after = n :: ns :=
      List.prefix_iff_eq_append.1 (List.isPrefixOf_iff_prefix.1 hpre)
    have hr' : b.replacement after = some r := by
      split at hr
      · cases hr
      · exact hr
    have hu := head_of_replacement hr'
    have hR := calls_replacement hN' hns' hm hs hr'
      (by rw [head?_redirectFrom hN hu]; exact hu) h kept
    rw [← hsplit]
    exact callsBeyond_append (List.cons_ne_nil _ _) (ih hN hR)
  | case4 prev n ns n₁ ns₁ hpre after kept hnone ih =>
    -- an occurrence of the name that is no call site: it is copied, and skipped
    have hsplit : n₁ :: ns₁ ++ after = n :: ns :=
      List.prefix_iff_eq_append.1 (List.isPrefixOf_iff_prefix.1 hpre)
    have hnot : ¬ b.CallAt (n₁ :: ns₁) prev (n :: ns) := by
      rintro ⟨-, -, hj, hrep⟩
      rw [dif_neg (by simp [hj])] at hnone
      rw [← hsplit, List.drop_left, hnone] at hrep
      cases hrep
    have hkept : joinsName kept = true := by
      obtain ⟨x, hx⟩ := Option.isSome_iff_exists.1 (List.getLast?_isSome.2 (List.cons_ne_nil n₁ ns₁))
      change joinsName (n₁ :: ns₁).getLast? = true
      rw [hx]
      exact joinsName_some (hN x (List.mem_of_getLast? hx))
    have hnot' : ¬ b.CallAt (n₁ :: ns₁) prev (n₁ :: ns₁ ++ after) := by
      rw [hsplit]
      exact hnot
    rw [← hsplit]
    rcases calls_append_run (List.cons_ne_nil _ _) hN h with hat | hrest
    · -- at the start, the name and the run after it are as before
      exact .inl ⟨callAt_run_redirectFrom hN hN' hN hkept hat, hnot'⟩
    · exact callsBeyond_append (List.cons_ne_nil _ _) (ih hN hrest)
  | case5 prev n ns n₁ ns₁ hpre ih =>
    -- no occurrence here: the character is copied
    have hnp : ¬ n₁ :: ns₁ <+: n :: ns := fun h' => hpre (List.isPrefixOf_iff_prefix.2 h')
    rcases h with hat | hrest
    · refine .inl ⟨?_, fun hb => hnp hb.2.1⟩
      cases hc : isNameChar n
      · exact absurd hat (not_callAt_cons hN' hc)
      -- after a name character, the run of name characters that follows is as before
      exact callAt_run_redirectFrom (v := [n]) hN hN' (by simpa using hc) (joinsName_some hc) hat
    · exact .inr (ih hN hrest)

end Redirect

/-- A text without call sites of `b` is left as it is. -/
theorem redirectFrom_of_not_calls {t : List Char} (h : ¬ b.Calls N p t) :
    b.redirectFrom N p t = t := by
  fun_induction b.redirectFrom N p t with
  | case1 => rfl
  | case2 => rfl
  | case3 prev n ns n₁ ns₁ hpre after kept r hr ih =>
    -- a call site, which the text has none of
    exfalso
    have hsplit : n₁ :: ns₁ ++ after = n :: ns :=
      List.prefix_iff_eq_append.1 (List.isPrefixOf_iff_prefix.1 hpre)
    split at hr
    · cases hr
    · rename_i hj
      refine h (.inl ⟨List.cons_ne_nil _ _, List.isPrefixOf_iff_prefix.1 hpre, by simpa using hj, ?_⟩)
      rw [← hsplit, List.drop_left, hr]
      rfl
  | case4 prev n ns n₁ ns₁ hpre after kept hnone ih =>
    have hsplit : n₁ :: ns₁ ++ after = n :: ns :=
      List.prefix_iff_eq_append.1 (List.isPrefixOf_iff_prefix.1 hpre)
    rw [ih (fun h' => h (hsplit ▸ calls_append (List.cons_ne_nil _ _) h')), hsplit]
  | case5 prev n ns n₁ ns₁ hpre ih =>
    rw [ih (fun h' => h (.inr h'))]

end Binding

end ModuleBundler
