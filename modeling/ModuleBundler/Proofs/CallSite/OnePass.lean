import ModuleBundler.Proofs.CallSite.Lines
import Mathlib

/-!
Redirecting a line binding after binding is one reading of the line.

`redirectLine` redirects a line for one binding after another, each time over the text the
passes before it wrote. `redirectAll` reads the line once, from left to right: where a call site
of some binding starts, the first such binding is redirected and the reading goes on after its
name, so every call site is one of the line as written. For redirectable bindings the two agree
(`redirectLine_eq_redirectAll`): what a pass writes in place of a call site holds no call site
(`quiet_replacement`), and a pass keeps the call sites after it as they were
(`firstCall_run_redirectFrom`), so the passes after it see the call sites of the line itself.
A pass of one binding, then a reading by the others, is one reading by all of them
(`redirectAll_redirectFrom`); with no others, a binding whose name is made of name characters is
redirected as one such reading. Bindings with distinct names never have call sites at the same
place, so their order does not matter (`redirectAll_perm`).
-/

namespace ModuleBundler

open ModuleBundler.Text ModuleBundler.Syntax

namespace Binding

/-- What `b` puts at the start of `t`, read after `prev`, when a call site of it starts there. -/
def callAt? (b : Binding) (prev : Option Char) (t : List Char) : Option (List Char) :=
  if b.localName.toList ≠ [] ∧ b.localName.toList <+: t ∧ joinsName prev = false then
    b.replacement (t.drop b.localName.toList.length)
  else none

variable {b : Binding} {p : Option Char} {t : List Char}

theorem callAt?_eq_some {r : List Char} (h : b.callAt? p t = some r) :
    b.localName.toList ≠ [] ∧ b.localName.toList <+: t ∧ joinsName p = false ∧
      b.replacement (t.drop b.localName.toList.length) = some r := by
  unfold callAt? at h
  split at h
  · rename_i hc
    exact ⟨hc.1, hc.2.1, hc.2.2, h⟩
  · cases h

theorem callAt?_isSome_iff : (b.callAt? p t).isSome ↔ b.CallAt b.localName.toList p t := by
  unfold callAt? CallAt
  split
  · rename_i hc
    simp [hc]
  · rename_i hc
    simp only [Option.isSome_none, Bool.false_eq_true, false_iff]
    exact fun h => hc ⟨h.1, h.2.1, h.2.2.1⟩

theorem callAt?_of_joins (hp : joinsName p = true) : b.callAt? p t = none := by
  unfold callAt?
  rw [if_neg (by simp [hp])]

theorem callAt?_of_name_nil (h : b.localName.toList = []) : b.callAt? p t = none := by
  unfold callAt?
  rw [if_neg fun hc => hc.1 h]

theorem callAt?_of_not_prefix (h : ¬ b.localName.toList <+: t) : b.callAt? p t = none := by
  unfold callAt?
  rw [if_neg fun hc => h hc.2.1]

/-- Where the name starts a text, a call site starts there unless the character before joins the
name, with what the binding puts in place of the name. -/
theorem callAt?_of_prefix (hne : b.localName.toList ≠ []) (h : b.localName.toList <+: t) :
    b.callAt? p t =
      if joinsName p = true then none else b.replacement (t.drop b.localName.toList.length) := by
  unfold callAt?
  cases hj : joinsName p
  · rw [if_pos ⟨hne, h, rfl⟩, if_neg (by decide)]
  · rw [if_neg fun hc => absurd hc.2.2 (by decide), if_pos rfl]

theorem callAt?_cons_of_not_nameChar {c : Char} (hN : ∀ x ∈ b.localName.toList, isNameChar x = true)
    (hc : isNameChar c = false) : b.callAt? p (c :: t) = none := by
  cases h : b.callAt? p (c :: t) with
  | none => rfl
  | some r =>
    exact absurd (callAt?_isSome_iff.1 (Option.isSome_iff_exists.2 ⟨r, h⟩)) (not_callAt_cons hN hc)

end Binding

/-! ### One reading of a line -/

/-- The first binding of `bs` with a call site at the start of `t`, read after `prev`: its name
and what it puts there. -/
def firstCall (bs : List Binding) (prev : Option Char) (t : List Char) :
    Option (List Char × List Char) :=
  bs.findSome? fun b => (b.callAt? prev t).map (b.localName.toList, ·)

variable {bs bs' : List Binding} {p q : Option Char} {t : List Char}

theorem firstCall_eq_some {N r : List Char} (h : firstCall bs p t = some (N, r)) :
    ∃ b ∈ bs, b.localName.toList = N ∧ b.callAt? p t = some r := by
  obtain ⟨b, hb, hf⟩ := List.exists_of_findSome?_eq_some h
  obtain ⟨r', hr', he⟩ := Option.map_eq_some_iff.1 hf
  simp only [Prod.mk.injEq] at he
  obtain ⟨rfl, rfl⟩ := he
  exact ⟨b, hb, rfl, hr'⟩

theorem firstCall_ne_nil {N r : List Char} (h : firstCall bs p t = some (N, r)) : N ≠ [] := by
  obtain ⟨b, -, rfl, hr⟩ := firstCall_eq_some h
  exact (Binding.callAt?_eq_some hr).1

theorem firstCall_eq_none : firstCall bs p t = none ↔ ∀ b ∈ bs, b.callAt? p t = none := by
  simp [firstCall, List.findSome?_eq_none_iff]

@[simp] theorem firstCall_nil : firstCall [] p t = none := rfl

theorem firstCall_cons (b : Binding) :
    firstCall (b :: bs) p t = ((b.callAt? p t).map (b.localName.toList, ·)).or (firstCall bs p t) := by
  simp only [firstCall, List.findSome?_cons]
  cases (b.callAt? p t).map (b.localName.toList, ·) <;> rfl

/-- Redirects the call sites of all of `bs` in one reading of a text from left to right, `prev`
the character before it: where a call site of some binding starts, the first such binding is
redirected and the reading goes on after its name. -/
def redirectAll (bs : List Binding) (prev : Option Char) : List Char → List Char
  | [] => []
  | c :: rest =>
    match _h : firstCall bs prev (c :: rest) with
    | some (N, r) => r ++ redirectAll bs N.getLast? ((c :: rest).drop N.length)
    | none => c :: redirectAll bs (some c) rest
termination_by t => t.length
decreasing_by
  · have hN := firstCall_ne_nil _h
    have : N.length ≠ 0 := by simpa using hN
    simp only [List.length_drop, List.length_cons]
    omega
  · simp

@[simp] theorem redirectAll_nil : redirectAll bs p [] = [] := by
  rw [redirectAll]

theorem redirectAll_cons_of_none {c : Char} (h : firstCall bs p (c :: t) = none) :
    redirectAll bs p (c :: t) = c :: redirectAll bs (some c) t := by
  rw [redirectAll]
  split
  · rename_i heq
    rw [h] at heq
    cases heq
  · rfl

theorem redirectAll_of_some {N r : List Char} (h : firstCall bs p t = some (N, r)) :
    redirectAll bs p t = r ++ redirectAll bs N.getLast? (t.drop N.length) := by
  cases t with
  | nil =>
    obtain ⟨b, -, rfl, hr⟩ := firstCall_eq_some h
    obtain ⟨hne, hpre, -⟩ := Binding.callAt?_eq_some hr
    exact absurd (List.eq_nil_of_prefix_nil hpre) hne
  | cons c t =>
    rw [redirectAll]
    split
    · rename_i N' r' heq
      rw [h] at heq
      cases heq
      rfl
    · rename_i heq
      rw [h] at heq
      cases heq

/-- Bindings that have the same first call site everywhere read every text alike. -/
theorem redirectAll_congr (h : ∀ p t, firstCall bs p t = firstCall bs' p t) (p : Option Char)
    (t : List Char) : redirectAll bs p t = redirectAll bs' p t := by
  fun_induction redirectAll bs p t with
  | case1 => simp
  | case2 prev c rest N r hf ih =>
    rw [redirectAll_of_some ((h _ _).symm.trans hf), ih]
  | case3 prev c rest hf ih =>
    rw [redirectAll_cons_of_none ((h _ _).symm.trans hf), ih]

theorem firstCall_congr {p' : Option Char} {t' : List Char}
    (h : ∀ b ∈ bs, b.callAt? p t = b.callAt? p' t') : firstCall bs p t = firstCall bs p' t' := by
  induction bs with
  | nil => rfl
  | cons b bs ih =>
    rw [firstCall_cons, firstCall_cons, h b List.mem_cons_self,
      ih fun b' hb' => h b' (List.mem_cons_of_mem _ hb')]

theorem redirectAll_nil_bindings (p : Option Char) (t : List Char) : redirectAll [] p t = t := by
  induction t generalizing p with
  | nil => simp
  | cons c t ih => rw [redirectAll_cons_of_none firstCall_nil, ih]

/-! ### Text that starts no call site -/

/-- No call site of `bs` starts inside `x`, read after `prev` and followed by `y`. -/
def Quiet (bs : List Binding) : Option Char → List Char → List Char → Prop
  | _, [], _ => True
  | prev, c :: x, y => firstCall bs prev (c :: (x ++ y)) = none ∧ Quiet bs (some c) x y

/-- A reading copies a text that starts no call site. -/
theorem redirectAll_quiet : ∀ {p : Option Char} {x y : List Char}, Quiet bs p x y →
    redirectAll bs p (x ++ y) = x ++ redirectAll bs (x.getLast?.or p) y
  | _, [], _, _ => by simp
  | _, c :: x, y, ⟨h₀, h⟩ => by
    rw [List.cons_append, redirectAll_cons_of_none h₀, redirectAll_quiet h,
      Binding.getLast?_or_cons]
    rfl

theorem Quiet.append : ∀ {p : Option Char} {x z y : List Char}, Quiet bs p x (z ++ y) →
    Quiet bs (x.getLast?.or p) z y → Quiet bs p (x ++ z) y
  | _, [], _, _, _, hz => by simpa using hz
  | _, c :: x, z, y, ⟨h₀, h⟩, hz =>
    ⟨by simpa using h₀, Quiet.append h (by rwa [Binding.getLast?_or_cons] at hz)⟩

theorem quiet_nil_bindings : ∀ {p : Option Char} {x y : List Char}, Quiet [] p x y
  | _, [], _ => trivial
  | _, _ :: _, _ => ⟨firstCall_nil, quiet_nil_bindings⟩

theorem firstCall_of_joins (hp : Binding.joinsName p = true) : firstCall bs p t = none :=
  firstCall_eq_none.2 fun _ _ => Binding.callAt?_of_joins hp

/-- After a joining character, a run of name characters starts no call site. -/
theorem quiet_run {y : List Char} : ∀ {p : Option Char} {w : List Char}, Binding.joinsName p = true →
    (∀ x ∈ w, isNameChar x = true) → Quiet bs p w y
  | _, [], _, _ => trivial
  | _, c :: _, hp, hw => ⟨firstCall_of_joins hp,
      quiet_run (Binding.joinsName_some (hw c List.mem_cons_self))
        fun x hx => hw x (List.mem_cons_of_mem _ hx)⟩

section NameChars

-- the names of the bindings are made of name characters
variable (hN : ∀ b ∈ bs, ∀ x ∈ b.localName.toList, isNameChar x = true)
include hN

/-- No call site starts at a character that is no name character. -/
theorem firstCall_cons_of_not_nameChar {c : Char} (hc : isNameChar c = false) :
    firstCall bs p (c :: t) = none :=
  firstCall_eq_none.2 fun b hb => Binding.callAt?_cons_of_not_nameChar (hN b hb) hc

/-- Before a character that is no name character, the character read before does not matter. -/
theorem redirectAll_prev (ht : ∀ c ∈ t.head?, isNameChar c = false) (p q : Option Char) :
    redirectAll bs p t = redirectAll bs q t := by
  cases t with
  | nil => simp
  | cons c t =>
    rw [redirectAll_cons_of_none (firstCall_cons_of_not_nameChar hN (ht c rfl)),
      redirectAll_cons_of_none (firstCall_cons_of_not_nameChar hN (ht c rfl))]

/-- A quoted text without `(`, up to its closing quote, starts no call site. -/
theorem quiet_quoted {z : List Char} : ∀ {p : Option Char} {x : List Char}, '(' ∉ x →
    Quiet bs p x ('\'' :: z)
  | _, [], _ => trivial
  | _, c :: x, hx => by
    refine ⟨firstCall_eq_none.2 fun b hb => ?_, quiet_quoted fun h => hx (List.mem_cons_of_mem _ h)⟩
    cases hr : b.callAt? _ (c :: (x ++ '\'' :: z)) with
    | none => rfl
    | some r =>
      -- a call site runs through name characters and dots to a `(`, which the quote stops
      obtain ⟨w, rest, he, hw⟩ :=
        Binding.callAt_paren (hN b hb) (Binding.callAt?_isSome_iff.1 (Option.isSome_iff_exists.2 ⟨r, hr⟩))
      exact absurd (he.symm.trans List.cons_append.symm)
        (Binding.append_paren_ne (s := '\'') hw (by decide) (by decide) hx)

end NameChars

section Redirectable

variable (hB : ∀ b ∈ bs, b.Redirectable)
include hB

/-- The lookup of a specifier without `(` starts no call site of redirectable bindings. -/
theorem quiet_lookup {src : String} (hs : '(' ∉ src.toList) (y : List Char) :
    Quiet bs p ('m' :: 'r' :: '.' :: 'g' :: 'e' :: 't' :: '(' :: '\'' ::
      (src.toList.flatMap Brace.quoteChar ++ ['\'', ')'])) y := by
  have hN : ∀ b ∈ bs, ∀ x ∈ b.localName.toList, isNameChar x = true := fun b hb => (hB b hb).name
  have hq : Quiet bs (some '\'') (src.toList.flatMap Brace.quoteChar ++ ['\'', ')']) y :=
    Quiet.append (quiet_quoted hN (Binding.paren_not_mem_quoted hs))
      ⟨firstCall_cons_of_not_nameChar hN (by decide), firstCall_cons_of_not_nameChar hN (by decide),
        trivial⟩
  -- `mr` is no call site, as no redirectable binding is a namespace named `mr`
  refine ⟨firstCall_eq_none.2 fun b hb => ?_, firstCall_of_joins (by decide),
    firstCall_cons_of_not_nameChar hN (by decide), firstCall_of_joins (by decide),
    firstCall_of_joins (by decide), firstCall_of_joins (by decide),
    firstCall_cons_of_not_nameChar hN (by decide), firstCall_cons_of_not_nameChar hN (by decide), hq⟩
  cases hr : b.callAt? p _ with
  | none => rfl
  | some r =>
    exact absurd (Binding.callAt?_isSome_iff.1 (Option.isSome_iff_exists.2 ⟨r, hr⟩))
      (Binding.not_callAt_lookup (hB b hb).name (hB b hb).name_ne)

/-- What a redirectable binding puts in place of a call site starts no call site of
redirectable bindings. -/
theorem quiet_replacement {b : Binding} (hb : b.Redirectable) {u r : List Char}
    (hr : b.replacement u = some r) (p : Option Char) (y : List Char) : Quiet bs p r y := by
  have hN : ∀ b ∈ bs, ∀ x ∈ b.localName.toList, isNameChar x = true := fun b hb => (hB b hb).name
  have hlook : (registryLookup b.source).toList = 'm' :: 'r' :: '.' :: 'g' :: 'e' :: 't' :: '(' ::
      '\'' :: (b.source.toList.flatMap Brace.quoteChar ++ ['\'', ')']) := by
    simpa using Binding.registryLookup_append b.source []
  unfold Binding.replacement at hr
  split at hr
  · -- a call: the lookup, a dot and the member
    have h₁ : (registryLookup b.source ++ "." ++ b.member).toList =
        (registryLookup b.source).toList ++ '.' :: b.member.toList := by
      simp
    rw [← Option.some.inj hr, h₁, hlook]
    exact Quiet.append (quiet_lookup hB hb.source _)
      ⟨firstCall_cons_of_not_nameChar hN (by decide), quiet_run (by decide) hb.member⟩
  · -- a member access through a namespace: the lookup alone
    split at hr
    · dsimp only at hr
      split at hr
      · rw [← Option.some.inj hr, hlook]
        exact quiet_lookup hB hb.source y
      · cases hr
    · cases hr
  · cases hr

end Redirectable

/-! ### A pass keeps the call sites after it -/

namespace Binding

/-- Behind a run of name characters, a call site is decided by the run and by what any binding
looks at after the run; two texts that agree on those have the same call sites. -/
theorem callAt?_run_append {b' : Binding} {p : Option Char} {V X Y : List Char}
    (hN' : ∀ x ∈ b'.localName.toList, isNameChar x = true) (hV : ∀ x ∈ V, isNameChar x = true)
    (hX : ∀ c ∈ X.head?, isNameChar c = false) (hY : ∀ c ∈ Y.head?, isNameChar c = false)
    (hr : b'.replacement X = b'.replacement Y) : b'.callAt? p (V ++ X) = b'.callAt? p (V ++ Y) := by
  have hpre : ∀ Z : List Char, (∀ c ∈ Z.head?, isNameChar c = false) →
      (b'.localName.toList <+: V ++ Z ↔ b'.localName.toList <+: V) :=
    fun Z hZ => ⟨prefix_of_run hN' hZ, fun h => h.trans (List.prefix_append _ _)⟩
  unfold callAt?
  by_cases hc : b'.localName.toList ≠ [] ∧ b'.localName.toList <+: V ∧ joinsName p = false
  · obtain ⟨hne, ⟨V₂, hV₂⟩, hj⟩ := hc
    rw [if_pos ⟨hne, (hpre X hX).2 ⟨V₂, hV₂⟩, hj⟩, if_pos ⟨hne, (hpre Y hY).2 ⟨V₂, hV₂⟩, hj⟩, ← hV₂,
      List.append_assoc, List.drop_left, List.append_assoc, List.drop_left]
    cases V₂ with
    | nil => simpa using hr
    | cons d V₂ =>
      -- the name stops inside the run, where no binding replaces anything
      have hd : isNameChar d = true := hV d (by rw [← hV₂]; simp)
      rw [List.cons_append, List.cons_append, replacement_of_nameChar hd, replacement_of_nameChar hd]
  · rw [if_neg fun h => hc ⟨h.1, (hpre X hX).1 h.2.1, h.2.2⟩,
      if_neg fun h => hc ⟨h.1, (hpre Y hY).1 h.2.1, h.2.2⟩]

/-- A call site at the start of a run of name characters takes in the whole run: its name is the
run and more, and what it puts there is decided by what follows the name. -/
theorem callAt?_covers_run {b' : Binding} {p : Option Char} {v u r : List Char}
    (hv : ∀ x ∈ v, isNameChar x = true) (h : b'.callAt? p (v ++ u) = some r) :
    ∃ w u', b'.localName.toList = v ++ w ∧ u = w ++ u' ∧ b'.replacement u' = some r := by
  obtain ⟨-, hpre, -, hrep⟩ := callAt?_eq_some h
  -- the name reaches past the run, since a name character follows no name of a call site
  have hlen : v.length ≤ b'.localName.toList.length := by
    by_contra hlt
    obtain ⟨d, rest, hd⟩ : ∃ d rest, v.drop b'.localName.toList.length = d :: rest :=
      List.exists_cons_of_ne_nil (by rw [Ne, List.drop_eq_nil_iff]; exact hlt)
    have hdN : isNameChar d = true := hv d (List.mem_of_mem_drop (hd ▸ List.mem_cons_self))
    rw [List.drop_append_of_le_length (by omega), hd, List.cons_append,
      replacement_of_nameChar hdN] at hrep
    cases hrep
  obtain ⟨w, hw⟩ := List.prefix_of_prefix_length_le (List.prefix_append _ _) hpre hlen
  rw [← hw] at hpre hrep
  obtain ⟨u', rfl⟩ := (List.prefix_append_right_inj _).1 hpre
  refine ⟨w, u', hw.symm, rfl, ?_⟩
  rwa [← List.append_assoc, List.drop_left] at hrep

/-- A redirection after a joining character keeps every call site of a text behind a run of name
characters. -/
theorem callAt?_run_redirectFrom {b b' : Binding} {N : List Char} {p p' : Option Char}
    {v u : List Char} (hN : ∀ x ∈ N, isNameChar x = true)
    (hN' : ∀ x ∈ b'.localName.toList, isNameChar x = true) (hv : ∀ x ∈ v, isNameChar x = true)
    (hp' : joinsName p' = true) :
    b'.callAt? p (v ++ b.redirectFrom N p' u) = b'.callAt? p (v ++ u) := by
  -- the redirection copies the run of name characters that starts `u`
  have hw : ∀ x ∈ u.takeWhile isNameChar, isNameChar x = true := fun _ => List.mem_takeWhile_imp
  have hu := head?_dropWhile_nameChar u
  have hq := joinsName_getLast?_or hw hp'
  rw [← List.takeWhile_append_dropWhile (p := isNameChar) (l := u), redirectFrom_run hN hp' hw hu,
    ← List.append_assoc, ← List.append_assoc]
  have hvw : ∀ x ∈ v ++ u.takeWhile isNameChar, isNameChar x = true :=
    fun x hx => (List.mem_append.1 hx).elim (hv x) (hw x)
  exact callAt?_run_append hN' hvw (by rw [head?_redirectFrom hN hu]; exact hu) hu
    (replacement_redirectFrom hN hq _)

end Binding

variable {b : Binding}

theorem firstCall_run_redirectFrom {N : List Char} {p' : Option Char} {v u : List Char}
    (hN : ∀ x ∈ N, isNameChar x = true)
    (hbs : ∀ b ∈ bs, ∀ x ∈ b.localName.toList, isNameChar x = true)
    (hv : ∀ x ∈ v, isNameChar x = true) (hp' : Binding.joinsName p' = true) :
    firstCall bs p (v ++ b.redirectFrom N p' u) = firstCall bs p (v ++ u) :=
  firstCall_congr fun b' hb' => Binding.callAt?_run_redirectFrom hN (hbs b' hb') hv hp'

/-! ### One binding's pass, then the others, is one reading -/

section Step

-- `b` and the bindings after it have names of name characters, and what `b` puts in place of a
-- call site starts no call site of the bindings after it
variable (hN : ∀ x ∈ b.localName.toList, isNameChar x = true)
  (hbs : ∀ b' ∈ bs, ∀ x ∈ b'.localName.toList, isNameChar x = true)
  (hquiet : ∀ u r, b.replacement u = some r → ∀ p y, Quiet bs p r y)
include hN hbs hquiet

theorem names_cons : ∀ b' ∈ b :: bs, ∀ x ∈ b'.localName.toList, isNameChar x = true := by
  intro b' hb'
  rcases List.mem_cons.1 hb' with rfl | hb'
  · exact hN
  · exact hbs b' hb'

/-- At a run of name characters where `b` has no call site, the bindings after `b` read the text
that `b` redirected as all of them read the line, given that this holds for the text after the
run. -/
theorem redirectAll_run_redirectFrom {v u : List Char} (hv : v ≠ [])
    (hvN : ∀ x ∈ v, isNameChar x = true) (hb₀ : b.callAt? p (v ++ u) = none)
    (ih : ∀ u' : List Char, u'.length ≤ u.length → ∀ q, redirectAll bs q
      (b.redirectFrom b.localName.toList q u') = redirectAll (b :: bs) q u') :
    redirectAll bs p (v ++ b.redirectFrom b.localName.toList v.getLast? u) =
      redirectAll (b :: bs) p (v ++ u) := by
  have hj : Binding.joinsName v.getLast? = true := by
    obtain ⟨x, hx⟩ := Option.isSome_iff_exists.1 (List.getLast?_isSome.2 hv)
    rw [hx]
    exact Binding.joinsName_some (hvN x (List.mem_of_getLast? hx))
  have hfc := firstCall_run_redirectFrom (b := b) (p := p) (u := u) hN hbs hvN hj
  have hfc' : firstCall (b :: bs) p (v ++ u) = firstCall bs p (v ++ u) := by
    rw [firstCall_cons, hb₀]
    rfl
  obtain ⟨c, v', rfl⟩ := List.exists_cons_of_ne_nil hv
  have hlast : (c :: v').getLast?.or p = (c :: v').getLast? := by
    rw [Binding.getLast?_or_cons, List.getLast?_cons]
    cases v'.getLast? <;> rfl
  have hv' : ∀ x ∈ v', isNameChar x = true := fun x hx => hvN x (List.mem_cons_of_mem _ hx)
  have hc : Binding.joinsName (some c) = true := Binding.joinsName_some (hvN c List.mem_cons_self)
  cases hf : firstCall bs p (c :: v' ++ u) with
  | none =>
    -- no call site at the start of the run: both copy the run, and read on after it
    rw [redirectAll_quiet (x := c :: v') ⟨by rw [← List.cons_append, hfc, hf], quiet_run hc hv'⟩,
      redirectAll_quiet (x := c :: v') ⟨by rw [← List.cons_append, hfc', hf], quiet_run hc hv'⟩,
      hlast, ih u le_rfl]
  | some call =>
    obtain ⟨N', r'⟩ := call
    obtain ⟨b', hb', rfl, hr'⟩ := firstCall_eq_some hf
    obtain ⟨w, u', hname, rfl, hrep⟩ := Binding.callAt?_covers_run hvN hr'
    have hw : ∀ x ∈ w, isNameChar x = true := fun x hx =>
      hbs b' hb' x (by rw [hname]; exact List.mem_append_right _ hx)
    have hu' := Binding.head_of_replacement hrep
    rw [redirectAll_of_some (hfc.trans hf), redirectAll_of_some (hfc'.trans hf), hname,
      Binding.redirectFrom_run hN hj hw hu']
    simp only [← List.append_assoc, List.drop_left]
    rw [redirectAll_prev hbs (by rw [Binding.head?_redirectFrom hN hu']; exact hu') _
        (w.getLast?.or (c :: v').getLast?), ih u' (by simp) _,
      redirectAll_prev (names_cons hN hbs hquiet) hu']

/-- A pass of `b`, then a reading by the bindings after it, is one reading by all of them. -/
theorem redirectAll_redirectFrom (t : List Char) (p : Option Char) :
    redirectAll bs p (b.redirectFrom b.localName.toList p t) = redirectAll (b :: bs) p t := by
  induction hl : t.length using Nat.strong_induction_on generalizing t p with
  | _ n ih =>
    have ih' : ∀ u : List Char, u.length < n → ∀ q, redirectAll bs q
        (b.redirectFrom b.localName.toList q u) = redirectAll (b :: bs) q u :=
      fun u hu q => ih u.length hu u q rfl
    by_cases hne : b.localName.toList = []
    · -- a binding with no name has no call site
      rw [hne, Binding.redirectFrom_name_nil]
      refine redirectAll_congr (fun p t => ?_) p t
      rw [firstCall_cons, Binding.callAt?_of_name_nil hne]
      rfl
    cases t with
    | nil => simp [Binding.redirectFrom]
    | cons c t =>
      by_cases hocc : b.localName.toList <+: c :: t
      · obtain ⟨after, hafter⟩ := hocc
        have hdrop : (c :: t).drop b.localName.toList.length = after := by
          rw [← hafter, List.drop_left]
        have hshort : after.length < n := by
          have h₁ := congrArg List.length hafter
          have h₂ : b.localName.toList.length ≠ 0 := by simpa using hne
          simp only [List.length_append] at h₁
          omega
        rw [Binding.redirectFrom_of_occurs hne ⟨after, hafter⟩,
          ← Binding.callAt?_of_prefix hne ⟨after, hafter⟩, hdrop]
        cases hcall : b.callAt? p (c :: t) with
        | some r =>
          -- a call site of `b`: its replacement starts no call site, and the text after it
          -- starts with a character that is no name character
          obtain ⟨-, -, -, hrep⟩ := Binding.callAt?_eq_some hcall
          rw [hdrop] at hrep
          have hu := Binding.head_of_replacement hrep
          dsimp only
          rw [redirectAll_quiet (hquiet _ _ hrep p _),
            redirectAll_prev hbs (by rw [Binding.head?_redirectFrom hN hu]; exact hu) _
              b.localName.toList.getLast?,
            ih' after hshort, redirectAll_of_some (p := p) (t := c :: t) (N := b.localName.toList)
              (r := r) (by rw [firstCall_cons, hcall]; rfl), hdrop]
        | none =>
          -- an occurrence of the name that is no call site
          dsimp only
          rw [← hafter] at hcall ⊢
          exact redirectAll_run_redirectFrom hN hbs hquiet hne hN hcall
            fun u' hu' q => ih' u' (by omega) q
      · have hcall : b.callAt? p (c :: t) = none := Binding.callAt?_of_not_prefix hocc
        have ht : t.length < n := by simp [← hl]
        rw [Binding.redirectFrom_of_not_occurs hocc]
        cases hc : isNameChar c
        · rw [redirectAll_cons_of_none (firstCall_cons_of_not_nameChar hbs hc),
            redirectAll_cons_of_none (firstCall_cons_of_not_nameChar (names_cons hN hbs hquiet) hc),
            ih' t ht]
        · -- a name character: the run it starts
          exact redirectAll_run_redirectFrom (v := [c]) hN hbs hquiet (List.cons_ne_nil _ _)
            (by simpa using hc) hcall fun u' hu' q => ih' u' (by omega) q

end Step

/-- A binding whose name is made of name characters is redirected as one reading of the line:
each of its call sites, an occurrence of its name after no name character and no `.`, followed by
`(` or, for a namespace, by `.`, a name and `(`, is replaced, and all other text is copied. -/
theorem redirect_replaces_call_sites {b : Binding}
    (hN : ∀ x ∈ b.localName.toList, isNameChar x = true) (line : List Char) :
    b.redirect line = redirectAll [b] none line := by
  have hnil : ∀ b' ∈ ([] : List Binding), ∀ x ∈ b'.localName.toList, isNameChar x = true := by simp
  rw [Binding.redirect, ← redirectAll_redirectFrom hN hnil (fun _ _ _ _ _ => quiet_nil_bindings),
    redirectAll_nil_bindings]

/-- The binding of a braced import redirects a call site after a combining mark, which is no
name character. -/
theorem redirect_after_combining_mark :
    (∀ x ∈ "a".toList, isNameChar x = true) ∧
      Binding.redirect ⟨"a", "./a.js", "a", false⟩ "x\u0301a(1)".toList =
        redirectAll [⟨"a", "./a.js", "a", false⟩] none "x\u0301a(1)".toList :=
  have hN : ∀ x ∈ "a".toList, isNameChar x = true := by simp; decide
  ⟨hN, redirect_replaces_call_sites hN _⟩

/-! ### Bindings with distinct names -/

/-- Two bindings whose names are made of name characters have call sites at one place only under
one name: after the shorter name would come a name character of the longer. -/
theorem Binding.localName_eq_of_callAt? {b₁ b₂ : Binding} {r₁ r₂ : List Char}
    (h₁ : ∀ x ∈ b₁.localName.toList, isNameChar x = true)
    (h₂ : ∀ x ∈ b₂.localName.toList, isNameChar x = true)
    (hc₁ : b₁.callAt? p t = some r₁) (hc₂ : b₂.callAt? p t = some r₂) :
    b₁.localName = b₂.localName := by
  wlog hle : b₁.localName.toList.length ≤ b₂.localName.toList.length generalizing b₁ b₂ r₁ r₂
  · exact (this h₂ h₁ hc₂ hc₁ (by omega)).symm
  -- the call site of the shorter name covers the longer name, a run of name characters
  obtain ⟨-, ⟨z, rfl⟩, -, -⟩ := Binding.callAt?_eq_some hc₂
  obtain ⟨w, -, hw, -, -⟩ := Binding.callAt?_covers_run h₂ hc₁
  have hw₀ : w = [] := by
    have := congrArg List.length hw
    simp only [List.length_append] at this
    exact List.eq_nil_of_length_eq_zero (by omega)
  exact String.toList_inj.1 (by simpa [hw₀] using hw)

/-- Where at most one binding has a call site, the first binding with one is that one. -/
theorem firstCall_eq_some_iff {c : List Char × List Char}
    (hu : ∀ b₁ ∈ bs, ∀ b₂ ∈ bs, (b₁.callAt? p t).isSome → (b₂.callAt? p t).isSome → b₁ = b₂) :
    firstCall bs p t = some c ↔ ∃ b ∈ bs, (b.callAt? p t).map (b.localName.toList, ·) = some c := by
  constructor
  · exact List.exists_of_findSome?_eq_some
  · rintro ⟨b, hb, hf⟩
    have hb₀ : (b.callAt? p t).isSome := by simpa using congrArg Option.isSome hf
    obtain ⟨c', hc'⟩ : ∃ c', firstCall bs p t = some c' := Option.isSome_iff_exists.1
      (List.findSome?_isSome_iff.2 ⟨b, hb, by simpa using hb₀⟩)
    obtain ⟨b', hb', hf'⟩ := List.exists_of_findSome?_eq_some hc'
    have hb'₀ : (b'.callAt? p t).isSome := by simpa using congrArg Option.isSome hf'
    obtain rfl := hu b' hb' b hb hb'₀ hb₀
    rw [hc', ← hf', hf]

section Distinct

-- the bindings have distinct names, made of name characters
variable (hN : ∀ b ∈ bs, ∀ x ∈ b.localName.toList, isNameChar x = true)
  (hd : (bs.map Binding.localName).Nodup)
include hN hd

theorem callAt?_unique : ∀ b₁ ∈ bs, ∀ b₂ ∈ bs,
    (b₁.callAt? p t).isSome → (b₂.callAt? p t).isSome → b₁ = b₂ := by
  intro b₁ h₁ b₂ h₂ hc₁ hc₂
  obtain ⟨r₁, hr₁⟩ := Option.isSome_iff_exists.1 hc₁
  obtain ⟨r₂, hr₂⟩ := Option.isSome_iff_exists.1 hc₂
  exact List.inj_on_of_nodup_map hd h₁ h₂
    (Binding.localName_eq_of_callAt? (hN b₁ h₁) (hN b₂ h₂) hr₁ hr₂)

theorem firstCall_perm (h : bs'.Perm bs) (p : Option Char) (t : List Char) :
    firstCall bs' p t = firstCall bs p t := by
  have hu := callAt?_unique hN hd (p := p) (t := t)
  have hu' : ∀ b₁ ∈ bs', ∀ b₂ ∈ bs', (b₁.callAt? p t).isSome → (b₂.callAt? p t).isSome →
      b₁ = b₂ := fun b₁ h₁ b₂ h₂ => hu b₁ (h.mem_iff.1 h₁) b₂ (h.mem_iff.1 h₂)
  ext c
  rw [firstCall_eq_some_iff hu', firstCall_eq_some_iff hu]
  exact exists_congr fun b => and_congr_left' h.mem_iff

/-- The order of bindings with distinct names does not change a reading. -/
theorem redirectAll_perm (h : bs'.Perm bs) (p : Option Char) (t : List Char) :
    redirectAll bs' p t = redirectAll bs p t :=
  redirectAll_congr (firstCall_perm hN hd h) p t

end Distinct

/-! ### Redirecting a line binding after binding -/

theorem redirectLine_cons (b : Binding) (hidden : List String) (t : List Char) :
    redirectLine (b :: bs) hidden t =
      redirectLine bs hidden (if b.localName ∈ hidden then t else b.redirect t) := rfl

/-- Redirecting a line for one redirectable binding after another is one reading of the line by
the bindings that are not hidden. -/
theorem redirectLine_eq_redirectAll (hB : ∀ b ∈ bs, b.Redirectable) (hidden : List String)
    (line : List Char) :
    redirectLine bs hidden line = redirectAll (bs.filter fun b => b.localName ∉ hidden) none line := by
  -- one binding at a time, each pass taken into the reading of the bindings after it
  induction bs generalizing line with
  | nil => exact (redirectAll_nil_bindings none line).symm
  | cons b bs ih =>
    have hb : b.Redirectable := hB b List.mem_cons_self
    have hB' : ∀ b ∈ bs, b.Redirectable := fun b' hb' => hB b' (List.mem_cons_of_mem _ hb')
    have hF : ∀ b' ∈ bs.filter (fun b => b.localName ∉ hidden), b'.Redirectable :=
      fun b' hb' => hB' b' (List.mem_of_mem_filter hb')
    rw [redirectLine_cons]
    by_cases hh : b.localName ∈ hidden
    · rw [if_pos hh, List.filter_cons_of_neg (by simpa using hh)]
      exact ih hB' line
    · rw [if_neg hh, List.filter_cons_of_pos (by simpa using hh), ih hB', Binding.redirect]
      exact redirectAll_redirectFrom hb.name (fun b' hb' => (hF b' hb').name)
        (fun _ _ hr => quiet_replacement hF hb hr) line none

/-- Redirecting a line for redirectable bindings, one after another, is one reading of the line
from left to right, where each call site of a binding that is not hidden is replaced by the first
such binding, and inserted text is never read again. Bindings with distinct names may come in
any order. -/
theorem redirectLine_reads_once (hB : ∀ b ∈ bs, b.Redirectable) (hidden : List String)
    (line : List Char) :
    redirectLine bs hidden line = redirectAll (bs.filter fun b => b.localName ∉ hidden) none line ∧
      ∀ bs' : List Binding, bs'.Perm bs → (bs.map Binding.localName).Nodup →
        redirectLine bs' hidden line = redirectLine bs hidden line := by
  refine ⟨redirectLine_eq_redirectAll hB hidden line, fun bs' h hd => ?_⟩
  have hF : ∀ b ∈ bs.filter (fun b => b.localName ∉ hidden), b.Redirectable :=
    fun b hb => hB b (List.mem_of_mem_filter hb)
  rw [redirectLine_eq_redirectAll (fun b hb => hB b (h.mem_iff.1 hb)),
    redirectLine_eq_redirectAll hB]
  exact redirectAll_perm (fun b hb => (hF b hb).name)
    (hd.sublist ((List.filter_sublist).map _)) (h.filter _) none line

/-- Two braced imports and a line that calls both, one call inside the other. -/
theorem redirectLine_nested_calls :
    (∀ b ∈ [(⟨"f", "./f.js", "f", false⟩ : Binding), ⟨"g", "./g.js", "h", false⟩], b.Redirectable) ∧
      (redirectLine [⟨"f", "./f.js", "f", false⟩, ⟨"g", "./g.js", "h", false⟩] [] "f(g(1))".toList =
        redirectAll ([(⟨"f", "./f.js", "f", false⟩ : Binding), ⟨"g", "./g.js", "h", false⟩].filter
          fun b => b.localName ∉ ([] : List String)) none "f(g(1))".toList ∧
      ∀ bs' : List Binding, bs'.Perm [⟨"f", "./f.js", "f", false⟩, ⟨"g", "./g.js", "h", false⟩] →
        ([(⟨"f", "./f.js", "f", false⟩ : Binding), ⟨"g", "./g.js", "h", false⟩].map
          Binding.localName).Nodup →
        redirectLine bs' [] "f(g(1))".toList =
          redirectLine [⟨"f", "./f.js", "f", false⟩, ⟨"g", "./g.js", "h", false⟩] [] "f(g(1))".toList) :=
  have hB : ∀ b ∈ [(⟨"f", "./f.js", "f", false⟩ : Binding), ⟨"g", "./g.js", "h", false⟩],
      b.Redirectable := by
    simp [Binding.redirectable_iff]
    decide
  ⟨hB, redirectLine_reads_once hB _ _⟩

end ModuleBundler
