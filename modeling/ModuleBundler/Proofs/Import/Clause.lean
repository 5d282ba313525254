import ModuleBundler.Proofs.Import.Text
import Mathlib
/-!
Where the clause of an import statement ends.

A statement `import <clause> from 'p';` is read by trying clauses from the shortest up, so a
clause that holds `from` or quotes might seem to end early. It does not: the tail after the clause
holds exactly two quotes, and every shorter clause leaves a tail that is not blanks, `from` and a
quoted specifier. So whatever a tight clause holds, the reader finds it whole
(`ofStatement_statementText`). Every specifier the reader gives back is non-empty and holds no
quote.
-/

namespace ModuleBundler.Import

open ModuleBundler.Text ModuleBundler.Syntax

/-! ### Quoted tails -/

theorem isQuote_of_isBlank {c : Char} (h : isBlank c = true) : isQuote c = false := by
  have h1 : c ≠ '\'' := by rintro rfl; exact absurd h (by decide)
  have h2 : c ≠ '"' := by rintro rfl; exact absurd h (by decide)
  simp [isQuote, h1, h2]

theorem countP_trimStart (cs : List Char) : (trimStart cs).countP isQuote = cs.countP isQuote := by
  induction cs with
  | nil => rfl
  | cons c cs ih =>
    by_cases hb : isBlank c = true
    · simp [trimStart, hb, isQuote_of_isBlank hb] at ih ⊢
      exact ih
    · simp [trimStart, hb]

theorem countP_of_isStatementEnd {cs : List Char} (h : isStatementEnd cs = true) :
    cs.countP isQuote = 0 := by
  rw [← countP_trimStart]
  unfold isStatementEnd at h
  split at h
  · rename_i ht
    rw [ht]
    rfl
  · rename_i ht
    rw [ht]
    rfl
  · cases h

/-- A quoted tail holds exactly two quotes, and its specifier is not empty and holds none. -/
theorem quotedTail_spec {t spec : List Char} (h : quotedTail t = some spec) :
    t.countP isQuote = 2 ∧ spec ≠ [] ∧ ∀ c ∈ spec, isQuote c = false := by
  unfold quotedTail at h
  split at h
  · rename_i q rest ht
    split at h
    · rename_i hq
      split at h
      · rename_i q' after hd
        dsimp only at h
        split at h
        · rename_i hend
          simp only [Option.some.injEq] at h
          subst h
          have hsplit := List.takeWhile_append_dropWhile (p := fun c => !isQuote c) (l := rest)
          rw [hd] at hsplit
          have hq' : isQuote q' = true := by
            have := List.head_dropWhile_not (fun c => !isQuote c) (l := rest) (by simp [hd])
            simpa [hd] using this
          have hspec : ∀ c ∈ rest.takeWhile (fun c => !isQuote c), isQuote c = false :=
            fun c hc => by simpa using List.mem_takeWhile_imp hc
          refine ⟨?_, by simpa using (Bool.and_eq_true_iff.1 hend).1, hspec⟩
          have h0 : (rest.takeWhile (fun c => !isQuote c)).countP isQuote = 0 :=
            List.countP_eq_zero.2 fun c hc => by simp [hspec c hc]
          rw [← countP_trimStart, ht, List.countP_cons, ← hsplit]
          simp [hq, hq', h0, countP_of_isStatementEnd (Bool.and_eq_true_iff.1 hend).2]
        · simp at h
      · simp at h
    · simp at h
  · simp at h

/-! ### Where a clause ends -/

/-- No quoted tail starts inside a text that holds a character that is not blank, when two quotes
follow it: a third quote would be too many, and without one the tail starts with no quote. -/
theorem quotedTail_append {x r : List Char} (hx : ∃ c ∈ x, isBlank c = false)
    (hr : r.countP isQuote = 2) : quotedTail (x ++ r) = none := by
  cases h : quotedTail (x ++ r) with
  | none => rfl
  | some spec =>
    have hc := (quotedTail_spec h).1
    rw [List.countP_append, hr] at hc
    have hx0 : ∀ c ∈ x, isQuote c = false := by
      intro c hc'
      have := List.countP_eq_zero.1 (by omega : x.countP isQuote = 0) c hc'
      simpa using this
    -- so the text starts, after its blanks, with a character of `x`, which is no quote
    obtain ⟨c, rest, hcx⟩ : ∃ c rest, trimStart x = c :: rest := by
      obtain ⟨d, hd, hb⟩ := hx
      cases ht : trimStart x with
      | nil =>
        rw [trimStart, List.dropWhile_eq_nil_iff] at ht
        simp [ht d hd] at hb
      | cons c rest => exact ⟨c, rest, rfl⟩
    have hmem : c ∈ trimStart x := by rw [hcx]; exact List.mem_cons_self
    have hcq : isQuote c = false := hx0 c ((List.dropWhile_suffix isBlank).subset hmem)
    unfold quotedTail at h
    rw [trimStart_append hx, hcx] at h
    simp [hcq] at h

theorem afterWord_eq_some {w cs t : List Char} (h : afterWord w cs = some t) : cs = w ++ t := by
  unfold afterWord at h
  split at h
  · rename_i hp
    simp only [Option.some.injEq] at h
    subst h
    obtain ⟨u, rfl⟩ := List.isPrefixOf_iff_prefix.1 hp
    simp
  · cases h

@[simp] theorem afterWord_append (w cs : List Char) : afterWord w (w ++ cs) = some cs := by
  simp [afterWord]

theorem quotedTail_blank_cons {b : Char} (hb : isBlank b = true) (cs : List Char) :
    quotedTail (b :: cs) = quotedTail cs := by
  have ht : trimStart (b :: cs) = trimStart cs := by simp [trimStart, hb]
  unfold quotedTail
  rw [ht]

theorem fromTail_eq_some {x s : List Char} (h : fromTail x = some s) :
    ∃ t, trimStart x = "from".toList ++ t ∧ quotedTail t = some s := by
  unfold fromTail at h
  cases ha : afterWord "from".toList (trimStart x) with
  | none => rw [ha] at h; cases h
  | some t => rw [ha] at h; exact ⟨t, afterWord_eq_some ha, h⟩

/-- The text after a clause in a written statement: ` from 'p';`. -/
def sourceTail (p : List Char) : List Char :=
  " from '".toList ++ p ++ "';".toList

section SourceTail

variable {p : List Char}

theorem countP_sourceTail (hp : ∀ c ∈ p, isQuote c = false) :
    (sourceTail p).countP isQuote = 2 := by
  have h0 : p.countP isQuote = 0 := List.countP_eq_zero.2 fun c hc => by simp [hp c hc]
  have h1 : (" from '".toList).countP isQuote = 1 := by simp [isQuote]
  have h2 : ("';".toList).countP isQuote = 1 := by simp [isQuote]
  unfold sourceTail
  rw [List.countP_append, List.countP_append, h0, h1, h2]

theorem trimStart_sourceTail : trimStart (sourceTail p) = "from '".toList ++ p ++ "';".toList := by
  have hb : isBlank ' ' = true := by decide
  have hf : isBlank 'f' = false := by decide
  unfold sourceTail
  simp [trimStart, hb, hf]

theorem head?_sourceTail : (sourceTail p).head? = some ' ' := by
  unfold sourceTail
  simp

theorem quotedTail_sourceTail : quotedTail (sourceTail p) = none := by
  unfold quotedTail
  rw [trimStart_sourceTail]
  simp [isQuote]

theorem quotedTail_quoted (hp : p ≠ []) (hq : ∀ c ∈ p, isQuote c = false) :
    quotedTail ('\'' :: p ++ "';".toList) = some p := by
  have ht : (p ++ "';".toList).takeWhile (fun c => !isQuote c) = p := by
    rw [List.takeWhile_append_of_pos (by simpa using hq)]
    simp [isQuote]
  have hd : (p ++ "';".toList).dropWhile (fun c => !isQuote c) = '\'' :: [';'] := by
    rw [List.dropWhile_append_of_pos (by simpa using hq)]
    simp [isQuote]
  have hs : trimStart ('\'' :: p ++ "';".toList) = '\'' :: (p ++ "';".toList) :=
    trimStart_of_head (by simp; decide)
  have hend : isStatementEnd [';'] = true := by decide
  unfold quotedTail
  rw [hs]
  simp only [show isQuote '\'' = true from rfl, if_true, hd, ht, hend, Bool.and_true,
    Bool.not_eq_eq_eq_not, Bool.not_true, List.isEmpty_eq_false_iff.2 hp]

theorem fromTail_sourceTail (hp : p ≠ []) (hq : ∀ c ∈ p, isQuote c = false) :
    fromTail (sourceTail p) = some p := by
  have h : trimStart (sourceTail p) = "from".toList ++ (' ' :: '\'' :: p ++ "';".toList) := by
    rw [trimStart_sourceTail]
    simp
  rw [fromTail, h, afterWord_append, Option.bind_some, List.cons_append,
    quotedTail_blank_cons (by decide)]
  exact quotedTail_quoted hp hq

/-- No `from` tail starts inside a clause that ends with a character that is not blank. -/
theorem fromTail_append_sourceTail {v : List Char} {b : Char} (hb : isBlank b = false)
    (hq : ∀ c ∈ p, isQuote c = false) : fromTail (v ++ [b] ++ sourceTail p) = none := by
  cases h : fromTail (v ++ [b] ++ sourceTail p) with
  | none => rfl
  | some spec =>
    exfalso
    obtain ⟨t, ht, hs⟩ := fromTail_eq_some h
    obtain ⟨w, hw⟩ := trimStart_append_singleton (v := v) hb
    rw [trimStart_append ⟨b, by simp, hb⟩, hw] at ht
    rcases List.append_eq_append_iff.1 ht with ⟨as, has, hsrc⟩ | ⟨bs, hbs, rfl⟩
    · -- the clause ends inside the word `from`
      cases as with
      | nil =>
        rw [List.nil_append] at hsrc
        rw [← hsrc, quotedTail_sourceTail] at hs
        cases hs
      | cons a as =>
        have ha : a ∈ "from".toList := by rw [has]; simp
        have hsp : (sourceTail p).head? = some a := by rw [hsrc]; rfl
        rw [head?_sourceTail, Option.some.injEq] at hsp
        subst hsp
        revert ha
        decide
    · -- the word `from` ends inside the clause
      cases bs with
      | nil =>
        rw [List.nil_append, quotedTail_sourceTail] at hs
        cases hs
      | cons a bs =>
        have hlast : b ∈ a :: bs := by
          have h1 : (a :: bs).getLast? = some b := by
            have := congrArg List.getLast? hbs
            simp only [List.getLast?_append, List.getLast?_singleton, Option.some_or] at this
            rw [this, List.getLast?_cons]
            simp
          exact List.mem_of_getLast? h1
        rw [quotedTail_append ⟨b, hlast, hb⟩ (countP_sourceTail hq)] at hs
        cases hs

end SourceTail

/-- A statement with a clause: `import <clause> from 'p';`. -/
def statementText (clause p : List Char) : List Char :=
  "import ".toList ++ clause ++ sourceTail p

theorem findSome?_range_succ {β : Type} {f : Nat → Option β} {m N : Nat} {b : β} (hm : m < N)
    (hb : f (m + 1) = some b) (hlt : ∀ n < m, f (n + 1) = none) :
    ((List.range N).map (· + 1)).findSome? f = some b := by
  induction N with
  | zero => omega
  | succ N ih =>
    rw [List.range_succ, List.map_append, List.findSome?_append]
    by_cases h : m < N
    · rw [ih h]
      rfl
    · obtain rfl : m = N := by omega
      have hnone : ((List.range m).map (· + 1)).findSome? f = none := by
        rw [List.findSome?_eq_none_iff]
        intro x hx
        obtain ⟨n, hn, rfl⟩ := List.mem_map.1 hx
        exact hlt n (List.mem_range.1 hn)
      rw [hnone]
      simpa using hb

section Clause

variable {c p : List Char}

/-- The shortest clause a `from` tail follows is the whole clause, when the clause ends with a
character that is not blank. -/
theorem shortestClause_sourceTail (hne : c ≠ []) (hl : ∀ x ∈ c.getLast?, isBlank x = false)
    (hp : p ≠ []) (hq : ∀ x ∈ p, isQuote x = false) :
    shortestClause (c ++ sourceTail p) = some (c, p) := by
  have hlen : 0 < c.length := List.length_pos_iff.2 hne
  unfold shortestClause
  refine findSome?_range_succ (m := c.length - 1) (by simp; omega) ?_ ?_
  · rw [Nat.sub_add_cancel hlen, List.drop_left, List.take_left, fromTail_sourceTail hp hq]
    rfl
  · intro n hn
    -- the text from `n + 1` on is a part of the clause that keeps its last character
    have hd : c.drop (n + 1) ≠ [] := by simp; omega
    have hlast : isBlank ((c.drop (n + 1)).getLast hd) = false := by
      rw [List.getLast_drop]
      exact hl _ (List.getLast?_eq_some_getLast hne)
    rw [List.drop_append_of_le_length (by omega), ← List.dropLast_append_getLast hd,
      fromTail_append_sourceTail hlast hq]
    rfl

theorem indentation_blank_cons {b : Char} (hb : isBlank b = true) {cs : List Char}
    (hh : ∀ x ∈ cs.head?, isBlank x = false) : indentation (b :: cs) = 1 := by
  cases cs with
  | nil => simp [indentation, hb]
  | cons d ds => simp [indentation, hb, hh d rfl]

theorem statementText_eq : statementText c p = "import".toList ++ ' ' :: (c ++ sourceTail p) := by
  have h : "import ".toList = "import".toList ++ [' '] := by simp
  unfold statementText
  rw [h]
  simp only [List.append_assoc, List.cons_append, List.nil_append]

theorem getLast?_sourceTail : (sourceTail p).getLast? = some ';' := by
  unfold sourceTail
  rw [List.getLast?_append_of_ne_nil _ (by simp)]
  simp

theorem head?_statementText : (statementText c p).head? = some 'i' := by
  unfold statementText
  simp

theorem sourceTail_ne_nil : sourceTail p ≠ [] := by
  unfold sourceTail
  simp

theorem getLast?_statementText : (statementText c p).getLast? = some ';' := by
  unfold statementText
  rw [List.getLast?_append_of_ne_nil ("import ".toList ++ c) sourceTail_ne_nil, getLast?_sourceTail]

theorem clauseAndSource_statementText (hne : c ≠ []) (hh : ∀ x ∈ c.head?, isBlank x = false)
    (hl : ∀ x ∈ c.getLast?, isBlank x = false) (hp : p ≠ []) (hq : ∀ x ∈ p, isQuote x = false) :
    clauseAndSource (statementText c p) = some (c, p) := by
  have hh' : ∀ x ∈ (c ++ sourceTail p).head?, isBlank x = false := by
    obtain ⟨d, ds, rfl⟩ := List.exists_cons_of_ne_nil hne
    simpa using hh
  unfold clauseAndSource
  rw [statementText_eq, afterWord_append, Option.bind_some]
  simp only [indentation_blank_cons (b := ' ') (by decide) hh']
  rw [show (List.range (1 + 1)).reverse = [1, 0] from rfl, List.findSome?_cons, List.drop_one,
    List.tail_cons, shortestClause_sourceTail hne hl hp hq]

/-- Reading a statement `import <clause> from 'p';` reads its clause: the reader finds the clause
whole, whatever it holds, when it neither starts nor ends with a blank. -/
theorem ofStatement_statementText (hne : c ≠ []) (hh : ∀ x ∈ c.head?, isBlank x = false)
    (hl : ∀ x ∈ c.getLast?, isBlank x = false) (hp : p ≠ []) (hq : ∀ x ∈ p, isQuote x = false)
    (line : Nat) : ofStatement (statementText c p) line = ofClause c (String.ofList p) line := by
  have htrim : trim (statementText c p) = statementText c p := by
    apply trim_of_ends
    · rw [head?_statementText]
      simp only [Option.mem_def, Option.some.injEq, forall_eq']
      decide
    · rw [getLast?_statementText]
      simp only [Option.mem_def, Option.some.injEq, forall_eq']
      decide
  have hside : sideEffectSource (statementText c p) = none := by
    obtain ⟨d, ds, rfl⟩ := List.exists_cons_of_ne_nil hne
    rw [sideEffectSource, statementText_eq, afterWord_append, Option.bind_some,
      quotedTail_blank_cons (by decide)]
    exact quotedTail_append ⟨d, by simp, hh d rfl⟩ (countP_sourceTail hq)
  unfold ofStatement
  rw [htrim]
  dsimp only
  rw [hside, clauseAndSource_statementText hne hh hl hp hq, Option.bind_some]
  dsimp only
  rw [trim_of_ends hh hl]

end Clause

/-- A side-effect statement reads as a side-effect import of its specifier. -/
theorem ofStatement_sideEffect {p : List Char} (hp : p ≠ []) (hq : ∀ c ∈ p, isQuote c = false)
    (line : Nat) :
    ofStatement ("import '".toList ++ p ++ "';".toList) line =
      some [⟨.sideEffect, String.ofList p, [], [], line⟩] := by
  have hs : "import '".toList ++ p ++ "';".toList =
      "import".toList ++ (' ' :: '\'' :: p ++ "';".toList) := by
    simp
  have htrim : trim ("import '".toList ++ p ++ "';".toList) =
      "import '".toList ++ p ++ "';".toList := by
    apply trim_of_ends
    · rw [show "import '".toList = 'i' :: "mport '".toList from rfl, List.cons_append,
        List.cons_append, List.head?_cons]
      simp only [Option.mem_def, Option.some.injEq, forall_eq']
      decide
    · rw [List.getLast?_append_of_ne_nil _ (by simp), show "';".toList = ['\'', ';'] from rfl]
      simp only [List.getLast?_cons_cons, List.getLast?_singleton, Option.mem_def,
        Option.some.injEq, forall_eq']
      decide
  unfold ofStatement
  rw [htrim]
  dsimp only
  rw [sideEffectSource, hs, afterWord_append, Option.bind_some, List.cons_append,
    quotedTail_blank_cons (by decide), quotedTail_quoted hp hq]

/-! ### Specifiers -/

section Specifier

variable {cs spec : List Char}

theorem sideEffectSource_spec (h : sideEffectSource cs = some spec) :
    spec ≠ [] ∧ ∀ c ∈ spec, isQuote c = false := by
  unfold sideEffectSource at h
  cases ha : afterWord "import".toList cs with
  | none => rw [ha] at h; cases h
  | some t =>
    rw [ha, Option.bind_some] at h
    exact (quotedTail_spec h).2

theorem clauseAndSource_spec {clause : List Char} (h : clauseAndSource cs = some (clause, spec)) :
    spec ≠ [] ∧ ∀ c ∈ spec, isQuote c = false := by
  unfold clauseAndSource at h
  cases ha : afterWord "import".toList cs with
  | none => rw [ha] at h; cases h
  | some rest =>
    rw [ha, Option.bind_some] at h
    obtain ⟨k, -, hk⟩ := List.exists_of_findSome?_eq_some h
    obtain ⟨n, -, hn⟩ := List.exists_of_findSome?_eq_some hk
    obtain ⟨s', hs', he⟩ := Option.map_eq_some_iff.1 hn
    cases he
    obtain ⟨t, -, ht⟩ := fromTail_eq_some hs'
    exact (quotedTail_spec ht).2

end Specifier

end ModuleBundler.Import
