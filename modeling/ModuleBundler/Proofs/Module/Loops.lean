import ModuleBundler.Proofs.Module.Reading
import Mathlib

/-!
What is left to read, and what the reading loops keep.

The item loop of a module and the member loop of a class pass blank lines, go on where a
leading comment sends them, and otherwise read one item and go on after the lines it took.
What is left to read is always a final part of the lines the loop started with, the first line
perhaps with a leading comment blanked out (`Line.Remains`): lines keep their numbers, so the
numbers left to read are a final part of the numbers of the source lines, and every line left
holds the text of a source line after some spaces.

`Module.items_invariant` and `Module.members_invariant` turn a property that each kind of pass
keeps into a property of the finished reading.
-/

namespace ModuleBundler

open Text Syntax

namespace Line

/-- Line `l` is line `l₀` with a first part of its text perhaps blanked out: the same number,
and spaces followed by a final part of the text of `l₀`. -/
def Blanked (l₀ l : Line) : Prop :=
  l.number = l₀.number ∧ ∃ j k, l.text = List.replicate j ' ' ++ l₀.text.drop k

theorem Blanked.refl (l : Line) : Blanked l l :=
  ⟨rfl, 0, 0, by simp⟩

/-- Blanking a first part of a blanked line leaves it blanked. -/
theorem Blanked.blankPrefix {l₀ l : Line} (h : Blanked l₀ l) (n : Nat) :
    Blanked l₀ ⟨l.number, blankPrefix n l.text⟩ := by
  obtain ⟨hn, j, k, ht⟩ := h
  refine ⟨hn, utf8Length (l.text.take n) + (j - n), k + (n - j), ?_⟩
  rw [Syntax.blankPrefix, List.replicate_add, List.append_assoc, ht, List.drop_append,
    List.drop_replicate, List.length_replicate, List.drop_drop]

/-- A character other than a space of a blanked line stands in the line it comes from. -/
theorem Blanked.mem {l₀ l : Line} (h : Blanked l₀ l) {c : Char} (hc : c ∈ l.text) (hs : c ≠ ' ') :
    c ∈ l₀.text := by
  obtain ⟨-, j, k, ht⟩ := h
  rw [ht] at hc
  rcases List.mem_append.1 hc with hc | hc
  · exact absurd (List.eq_of_mem_replicate hc) hs
  · exact List.mem_of_mem_drop hc

/-- The part of a blanked line from a character other than a space on stands in the line it
comes from. -/
theorem Blanked.suffix {l₀ l : Line} (h : Blanked l₀ l) {a b : List Char} (hab : l.text = a ++ b)
    (hb : ∀ c ∈ b.head?, c ≠ ' ') : b <:+ l₀.text := by
  obtain ⟨-, j, k, ht⟩ := h
  have hkept : l₀.text.drop k <:+ l₀.text := List.drop_suffix _ _
  rw [ht] at hab
  rcases List.append_eq_append_iff.1 hab.symm with ⟨a', hrep, rfl⟩ | ⟨c', -, hd⟩
  · -- `b` starts inside the spaces only if it starts with a space
    cases a' with
    | nil => simpa using hkept
    | cons c rest =>
      have hc : c ∈ List.replicate j ' ' := hrep ▸ List.mem_append_right a List.mem_cons_self
      exact absurd (List.eq_of_mem_replicate hc) (hb c rfl)
  · exact (List.suffix_append c' b).trans (hd ▸ hkept)

/-- What is left to read of the lines `src`: the lines of a final part of `src`, the first
perhaps blanked. -/
def Remains (src : List Line) : List Line → Prop
  | [] => True
  | l :: rest => ∃ l₀, (l₀ :: rest) <:+ src ∧ Blanked l₀ l

variable {src ls : List Line}

theorem remains_of_suffix (h : ls <:+ src) : Remains src ls := by
  cases ls with
  | nil => trivial
  | cons l rest => exact ⟨l, h, Blanked.refl l⟩

theorem remains_self (src : List Line) : Remains src src :=
  remains_of_suffix (List.suffix_refl src)

theorem Remains.tail {l : Line} {rest : List Line} (h : Remains src (l :: rest)) :
    Remains src rest := by
  obtain ⟨l₀, hs, -⟩ := h
  exact remains_of_suffix ((List.suffix_cons l₀ rest).trans hs)

theorem Remains.suffix {ls' : List Line} (h : Remains src ls) (hs : ls' <:+ ls) :
    Remains src ls' := by
  cases ls with
  | nil =>
    rw [List.suffix_nil.1 hs]
    trivial
  | cons l rest =>
    rcases List.suffix_cons_iff.1 hs with rfl | hs
    · exact h
    · obtain ⟨l₀, hsrc, -⟩ := h
      exact remains_of_suffix (hs.trans ((List.suffix_cons l₀ rest).trans hsrc))

theorem Remains.drop (h : Remains src ls) (n : Nat) : Remains src (ls.drop n) := by
  induction n generalizing ls with
  | zero => exact h
  | succ n ih =>
    cases ls with
    | nil => trivial
    | cons l rest => exact ih h.tail

/-- Every line left to read is a line of `src`, perhaps blanked. -/
theorem Remains.mem (h : Remains src ls) {l : Line} (hl : l ∈ ls) : ∃ l₀ ∈ src, Blanked l₀ l := by
  cases ls with
  | nil => cases hl
  | cons m rest =>
    obtain ⟨l₀, hs, hb⟩ := h
    rcases List.mem_cons.1 hl with rfl | hl
    · exact ⟨l₀, hs.subset List.mem_cons_self, hb⟩
    · exact ⟨l, hs.subset (List.mem_cons_of_mem _ hl), Blanked.refl l⟩

/-- The numbers left to read are a final part of the numbers of `src`. -/
theorem Remains.numbers (h : Remains src ls) : ls.map number <:+ src.map number := by
  cases ls with
  | nil => exact List.nil_suffix
  | cons l rest =>
    obtain ⟨l₀, hs, hn, -⟩ := h
    have := hs.map number
    rwa [List.map_cons, ← hn] at this

/-- Numbered in increasing order. -/
def Ascending (ls : List Line) : Prop :=
  ls.Pairwise (·.number < ·.number)

theorem Remains.ascending (h : Remains src ls) (hsrc : Ascending src) : Ascending ls := by
  have hmap : (src.map number).Pairwise (· < ·) := List.pairwise_map.2 hsrc
  exact List.pairwise_map.1 (hmap.sublist h.numbers.sublist)

/-- After the first line, every line left to read comes later in the source. -/
theorem Ascending.lt_of_mem {l : Line} {later : List Line} (h : Ascending (l :: later))
    {m : Line} (hm : m ∈ later) : l.number < m.number :=
  List.rel_of_pairwise_cons h hm

theorem Remains.resumeAt {l : Line} {rest : List Line} (h : Remains src (l :: rest)) (stop : Nat) :
    Remains src (Line.resumeAt l stop rest) := by
  unfold Line.resumeAt
  split
  · exact h.tail
  · obtain ⟨l₀, hs, hb⟩ := h
    exact ⟨l₀, hs, hb.blankPrefix stop⟩

theorem commentEnd_suffix {ls : List Line} {stop : Nat} {m : Line} {rest : List Line}
    (h : commentEnd ls = some (stop, m, rest)) : m :: rest <:+ ls := by
  induction ls with
  | nil => cases h
  | cons l ls ih =>
    simp only [commentEnd] at h
    split at h
    · cases h
      exact List.suffix_refl _
    · exact (ih h).trans (List.suffix_cons l ls)

/-- Passing a leading comment leaves a final part of the lines to read, with a line perhaps
blanked. -/
theorem Remains.leadingComment {l : Line} {later : List Line} (h : Remains src (l :: later))
    (hc : Line.leadingComment l later = .ok (some ls)) : Remains src ls := by
  unfold Line.leadingComment at hc
  dsimp only at hc
  split at hc
  · cases hc
    exact h.tail
  · split at hc
    · cases hc
      exact h.resumeAt _
    · split at hc
      · rename_i stop m rest hend
        cases hc
        exact (h.tail.suffix (commentEnd_suffix hend)).resumeAt stop
      · cases hc
  · cases hc

end Line

namespace Module

/-- The text of a line the reading loops pass: nothing but blanks, or a lone `;`. -/
def Skipped (l : Line) : Prop :=
  ((trim l.text).isEmpty || decide (trim l.text = [';'])) = true

/-- One pass of the item loop that ends well passes a blank line, passes a leading comment, or
reads an item and goes on after it. -/
theorem items_ok_cons {d d' : Draft} {l : Line} {later : List Line}
    (h : items d (l :: later) = .ok d') :
    (Skipped l ∧ items d later = .ok d') ∨
      (∃ ls, Line.leadingComment l later = .ok (some ls) ∧ items d ls = .ok d') ∨
      ∃ d₁ n, item d l later = .ok (d₁, n) ∧ items d₁ ((l :: later).drop (n + 1)) = .ok d' := by
  rw [items] at h
  split at h
  · exact .inl ⟨‹_›, h⟩
  · split at h
    · cases h
    · exact .inr (.inl ⟨_, ‹_›, h⟩)
    · split at h
      · cases h
      · exact .inr (.inr ⟨_, _, ‹_›, h⟩)

deriving instance DecidableEq for ParseFailure
deriving instance DecidableEq for Draft
deriving instance DecidableEq for Line.BraceSpot
deriving instance DecidableEq for Line.Body

/-- A line that is neither blank nor a lone `;` and that no comment opens starts an item, and
reading goes on after the lines the item takes. -/
theorem items_of_item {d d₁ : Draft} {l : Line} {later : List Line} {n : Nat} (hs : ¬ Skipped l)
    (hc : Line.leadingComment l later = .ok none) (hi : item d l later = .ok (d₁, n)) :
    items d (l :: later) = items d₁ ((l :: later).drop (n + 1)) := by
  rw [items]
  split
  · exact absurd ‹_› hs
  · split
    · rename_i e he
      rw [hc] at he
      cases he
    · rename_i ls he
      rw [hc] at he
      cases he
    · rw [hi]

theorem item_of_class {d : Draft} {l : Line} {later : List Line} {h : Header.ClassHeader}
    (hi : Header.isImportStart (trim l.text) = false) (hg : Header.isGenerator (trim l.text) = false)
    (hf : Header.function? (trim l.text) = none) (hc : Header.class? (trim l.text) = some h) :
    item d l later = classItem d l later h := by
  simp only [item, hi, hg, hf, hc, Bool.false_eq_true, if_false]

/-- A class whose body reads well is added to a draft that has none. -/
theorem classItem_of_members {d : Draft} {l : Line} {later : List Line} {h : Header.ClassHeader}
    {spot : Line.BraceSpot} {b : Line.Body} {c : ClassDecl} (hcls : d.cls = none)
    (hext : "extends".toList.isPrefixOf h.rest = false)
    (hspot : Line.braceSpot l (indentation l.text + h.restAt) later
      (.classDecl (String.ofList h.name)) = .ok spot)
    (hb : Line.body spot.line spot.pos spot.more = .ok b)
    (hm : members ⟨String.ofList h.name, h.exported, l.number, none, [], [], []⟩ b.lines = .ok c) :
    classItem d l later h =
      .ok ({ (if h.isDefault then { d with defaultExport := some (String.ofList h.name) } else d)
        with cls := some c }, spot.extra + b.extra) := by
  simp only [classItem, hcls, hext, hspot, hb, hm, Bool.false_eq_true, if_false]

/-- A property of the draft and of the lines left to read that passing a blank line, passing a
leading comment and reading an item keep holds when the reading of a module ends. -/
theorem items_invariant (P : Draft → List Line → Prop)
    (hskip : ∀ d l later, P d (l :: later) → P d later)
    (hcomment : ∀ d l later ls, Line.leadingComment l later = .ok (some ls) → P d (l :: later) →
      P d ls)
    (hitem : ∀ d l later d' n, item d l later = .ok (d', n) → P d (l :: later) →
      P d' ((l :: later).drop (n + 1)))
    {d d' : Draft} {ls : List Line} (h : items d ls = .ok d') (hP : P d ls) : P d' [] := by
  -- by induction on what is left to read, which every pass shortens
  induction ls using Line.shorter_wf.induction generalizing d with
  | _ ls ih =>
    cases ls with
    | nil =>
      rw [items] at h
      cases h
      exact hP
    | cons l later =>
      rcases items_ok_cons h with ⟨-, h'⟩ | ⟨ls, hc, h'⟩ | ⟨d₁, n, hi, h'⟩
      · exact ih later (Line.lex_tail l later) h' (hskip d l later hP)
      · exact ih ls (Line.lex_leadingComment hc) h' (hcomment d l later ls hc hP)
      · exact ih _ (Line.lex_drop l later n) h' (hitem d l later d₁ n hi hP)

/-- A member read by the method reader: its header, and the function with the number of lines
after the first that it takes. -/
def MethodRead (l : Line) (later : List Line) (f : FunctionDecl) (n : Nat) : Prop :=
  ∃ h, Header.method? (trim l.text) = some h ∧
    Line.functionAt l later (indentation l.text + h.paren) (String.ofList h.name) false
      h.isAsync = .ok (f, n)

/-- One pass of the member loop that ends well passes a blank line, passes a leading comment,
or reads the constructor, a method or a field and goes on after it. -/
theorem members_ok_cons {c c' : ClassDecl} {l : Line} {later : List Line}
    (h : members c (l :: later) = .ok c') :
    (Skipped l ∧ members c later = .ok c') ∨
      (∃ ls, Line.leadingComment l later = .ok (some ls) ∧ members c ls = .ok c') ∨
      (∃ f n, MethodRead l later f n ∧ f.name = "constructor" ∧ c.ctor = none ∧
        members { c with ctor := some f } ((l :: later).drop (n + 1)) = .ok c') ∨
      (∃ f n, MethodRead l later f n ∧ f.name ≠ "constructor" ∧
        members { c with methods := c.methods ++ [f] } ((l :: later).drop (n + 1)) = .ok c') ∨
      ∃ member n, members { c with fields := c.fields ++ [member] }
        ((l :: later).drop (n + 1)) = .ok c' := by
  rw [members] at h
  split at h
  · exact .inl ⟨‹_›, h⟩
  · split at h
    · cases h
    · exact .inr (.inl ⟨_, ‹_›, h⟩)
    · split at h
      · cases h
      · split at h
        · cases h
        · split at h
          · -- a method, perhaps the constructor
            rename_i hm hmeth
            split at h
            · cases h
            · rename_i f n hf
              split at h
              · split at h
                · cases h
                · rename_i hname hct
                  exact .inr (.inr (.inl ⟨f, n, ⟨hm, hmeth, hf⟩, hname, by simpa using hct, h⟩))
              · exact .inr (.inr (.inr (.inl ⟨f, n, ⟨hm, hmeth, hf⟩, ‹_›, h⟩)))
          · -- a field
            split at h
            · cases h
            · exact .inr (.inr (.inr (.inr ⟨_, _, h⟩)))

/-- A line that no comment opens and that starts neither an accessor nor a private member is
read by the method reader as the constructor or as a method, and reading goes on after it. -/
theorem members_of_method {c : ClassDecl} {l : Line} {later : List Line} {f : FunctionDecl}
    {n : Nat} (hs : ¬ Skipped l) (hc : Line.leadingComment l later = .ok none)
    (hacc : Header.isAccessor (trim l.text) = false)
    (hpriv : Header.isPrivate (trim l.text) = false) (hr : MethodRead l later f n)
    (hctor : f.name = "constructor" → c.ctor = none) :
    members c (l :: later) = members (if f.name = "constructor" then { c with ctor := some f }
      else { c with methods := c.methods ++ [f] }) ((l :: later).drop (n + 1)) := by
  obtain ⟨h, hm, hf⟩ := hr
  rw [members]
  split
  · exact absurd ‹_› hs
  · split
    · rename_i e he
      rw [hc] at he
      cases he
    · rename_i ls he
      rw [hc] at he
      cases he
    · simp only [hacc, hpriv, hm, hf, Bool.false_eq_true, if_false]
      split_ifs with hname hsome
      · simp [hctor hname] at hsome
      · rfl
      · rfl

/-- A property of the class read so far and of the lines left to read that passing a blank
line, passing a leading comment, reading the constructor, a method or a field keep holds when
the reading of the class body ends. -/
theorem members_invariant (P : ClassDecl → List Line → Prop)
    (hskip : ∀ c l later, P c (l :: later) → P c later)
    (hcomment : ∀ c l later ls, Line.leadingComment l later = .ok (some ls) → P c (l :: later) →
      P c ls)
    (hctor : ∀ c l later f n, MethodRead l later f n → f.name = "constructor" → c.ctor = none →
      P c (l :: later) → P { c with ctor := some f } ((l :: later).drop (n + 1)))
    (hmethod : ∀ c l later f n, MethodRead l later f n → f.name ≠ "constructor" →
      P c (l :: later) → P { c with methods := c.methods ++ [f] } ((l :: later).drop (n + 1)))
    (hfield : ∀ c l later member n, P c (l :: later) →
      P { c with fields := c.fields ++ [member] } ((l :: later).drop (n + 1)))
    {c c' : ClassDecl} {ls : List Line} (h : members c ls = .ok c') (hP : P c ls) : P c' [] := by
  induction ls using Line.shorter_wf.induction generalizing c with
  | _ ls ih =>
    cases ls with
    | nil =>
      rw [members] at h
      cases h
      exact hP
    | cons l later =>
      rcases members_ok_cons h with ⟨-, h'⟩ | ⟨ls, hc, h'⟩ | ⟨f, n, hr, hname, hct, h'⟩ |
        ⟨f, n, hr, hname, h'⟩ | ⟨member, n, h'⟩
      · exact ih later (Line.lex_tail l later) h' (hskip c l later hP)
      · exact ih ls (Line.lex_leadingComment hc) h' (hcomment c l later ls hc hP)
      · exact ih _ (Line.lex_drop l later n) h' (hctor c l later f n hr hname hct hP)
      · exact ih _ (Line.lex_drop l later n) h' (hmethod c l later f n hr hname hP)
      · exact ih _ (Line.lex_drop l later n) h' (hfield c l later member n hP)

end Module

end ModuleBundler
