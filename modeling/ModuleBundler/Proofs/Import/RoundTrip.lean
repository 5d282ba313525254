import ModuleBundler.Proofs.Import.Clause
import Mathlib
/-!
Reading an import statement inverts writing one.

`render` writes the statement that declares a list of imports: `import 'p';`, or
`import <clause> from 'p';` with a braced list `{ n, e as l }`, `* as ns`, a default name, or a
default name, a comma and one of the first two. `WellFormedList` describes the lists a statement
declares: one import, or a default import followed by a named or namespace import of the same
specifier; a specifier that holds no quote; names that are identifiers, sorted and distinct;
aliases sorted, each for one of the names; one name for a default or namespace import, and none
for a side-effect import.

Main statement: `import_statement_round_trip`. A side-effect import that binds a name is not read
back (`sideEffect_names_dropped`): its statement has no place for names.
-/

namespace ModuleBundler.Import

open ModuleBundler.Text ModuleBundler.Syntax

/-! ### Writing imports -/

/-- One entry of a braced list: the name, or the member it stands for, `as` and the name. -/
def entryText (aliases : List (String × String)) (name : String) : List Char :=
  match aliases.find? (·.1 = name) with
  | some a => a.2.toList ++ " as ".toList ++ name.toList
  | none => name.toList

/-- A braced list `{ n, e as l }` of names, each written with its alias if it has one. -/
def bracedText (names : List String) (aliases : List (String × String)) : List Char :=
  "\x7b ".toList ++ ", ".toList.intercalate (names.map (entryText aliases)) ++ " \x7d".toList

/-- The clause of one import: its braced list, `* as name`, or its default name. -/
def clauseText (imp : Import) : List Char :=
  match imp.kind, imp.names with
  | .named, names => bracedText names imp.aliases
  | .namespaceObject, [n] => "* as ".toList ++ n.toList
  | .defaultMember, [n] => n.toList
  | _, _ => []

/-- The statement that declares a list of imports: `import 'p';` for a side-effect import,
`import <clause> from 'p';` for any other, and `import d, <clause> from 'p';` for a default
name followed by another import. -/
def render : List Import → List Char
  | [imp] =>
    if imp.kind = .sideEffect then "import '".toList ++ imp.source.toList ++ "';".toList
    else statementText imp.clauseText imp.source.toList
  | [d, imp] => statementText (d.clauseText ++ ", ".toList ++ imp.clauseText) imp.source.toList
  | _ => []

/-- Names and aliases as a braced list gives them: names that are identifiers, sorted and
distinct, and aliases sorted by local name, each for one of the names and to a member that is an
identifier. -/
structure SortedEntries (entries : List String × List (String × String)) : Prop where
  names_sorted : entries.1.Pairwise (· < ·)
  names_ident : ∀ n ∈ entries.1, isIdentifier n.toList = true
  aliases_sorted : (entries.2.map Prod.fst).Pairwise (· < ·)
  aliases_mem : ∀ a ∈ entries.2, a.1 ∈ entries.1
  aliases_ident : ∀ a ∈ entries.2, isIdentifier a.2.toList = true

theorem SortedEntries.nil : SortedEntries ([], []) :=
  ⟨List.Pairwise.nil, by simp, List.Pairwise.nil, by simp, by simp⟩

/-- One import as a statement declares it: a specifier that is not empty and holds no quote, and
names and aliases as a braced list gives them. A default or namespace import binds one name and
no alias, and a side-effect import binds nothing. -/
structure WellFormed (imp : Import) : Prop where
  source_ne : imp.source.toList ≠ []
  source_quotes : ∀ c ∈ imp.source.toList, isQuote c = false
  entries : SortedEntries (imp.names, imp.aliases)
  single : imp.kind = .defaultMember ∨ imp.kind = .namespaceObject →
    ∃ n, imp.names = [n] ∧ imp.aliases = []
  bare : imp.kind = .sideEffect → imp.names = [] ∧ imp.aliases = []

/-- The import lists one statement declares: one well-formed import, or a default import
followed by a named or namespace import of the same specifier and line. -/
def WellFormedList : List Import → Prop
  | [imp] => imp.WellFormed
  | [d, imp] => d.WellFormed ∧ imp.WellFormed ∧ d.kind = .defaultMember ∧
      (imp.kind = .named ∨ imp.kind = .namespaceObject) ∧ d.source = imp.source ∧
      d.line = imp.line
  | _ => False

/-! ### Sorted insertion -/

theorem insertSorted_of_lt {x : String} {l : List String} (h : ∀ y ∈ l, y < x) :
    insertSorted x l = l ++ [x] := by
  induction l with
  | nil => rfl
  | cons y ys ih =>
    have hy := h y List.mem_cons_self
    have hne : x ≠ y := fun he => lt_irrefl x (he ▸ hy)
    have hnlt : ¬ x < y := fun hl => lt_asymm hl hy
    simp only [insertSorted, if_neg hne, if_neg hnlt, ih (fun z hz => h z (List.mem_cons_of_mem _ hz)),
      List.cons_append]

theorem insertEntry_of_lt {k v : String} {l : List (String × String)} (h : ∀ a ∈ l, a.1 < k) :
    insertEntry k v l = l ++ [(k, v)] := by
  induction l with
  | nil => rfl
  | cons a as ih =>
    obtain ⟨k', v'⟩ := a
    have hy := h _ List.mem_cons_self
    have hne : k ≠ k' := fun he => lt_irrefl k (he ▸ hy)
    have hnlt : ¬ k < k' := fun hl => lt_asymm hl hy
    simp only [insertEntry, if_neg hne, if_neg hnlt, ih (fun z hz => h z (List.mem_cons_of_mem _ hz)),
      List.cons_append]

theorem map_fst_insertEntry (k v : String) (l : List (String × String)) :
    (insertEntry k v l).map Prod.fst = insertSorted k (l.map Prod.fst) := by
  induction l with
  | nil => rfl
  | cons a as ih =>
    obtain ⟨k', v'⟩ := a
    simp only [insertEntry, List.map_cons, insertSorted]
    split
    · rename_i he
      subst he
      simp
    · split <;> simp [ih]

theorem mem_insertEntry {k v : String} {l : List (String × String)} {a : String × String}
    (h : a ∈ insertEntry k v l) : a = (k, v) ∨ a ∈ l := by
  induction l with
  | nil => simpa [insertEntry] using h
  | cons b bs ih =>
    obtain ⟨k', v'⟩ := b
    simp only [insertEntry] at h
    split at h
    · rcases List.mem_cons.1 h with rfl | h
      · exact .inl rfl
      · exact .inr (List.mem_cons_of_mem _ h)
    · split at h
      · rcases List.mem_cons.1 h with rfl | h
        · exact .inl rfl
        · exact .inr h
      · rcases List.mem_cons.1 h with rfl | h
        · exact .inr List.mem_cons_self
        · rcases ih h with h | h
          · exact .inl h
          · exact .inr (List.mem_cons_of_mem _ h)

/-! ### Braced lists -/

section Entries

variable {aliases : List (String × String)} {n : String}

theorem find?_alias {a : String × String} (h : aliases.find? (·.1 = n) = some a) :
    a.1 = n ∧ a ∈ aliases := by
  have := List.find?_some h
  exact ⟨by simpa using this, List.mem_of_find?_eq_some h⟩

theorem as_eq (m n : List Char) :
    m ++ " as ".toList ++ n = m ++ ' ' :: ("as".toList ++ ' ' :: n) := by
  simp

theorem entryText_spec (hn : isIdentifier n.toList = true)
    (hal : ∀ a ∈ aliases, isIdentifier a.2.toList = true) :
    Tight (entryText aliases n) ∧ ',' ∉ entryText aliases n ∧
      listEntry (entryText aliases n) = some (n, (aliases.find? (·.1 = n)).map (·.2)) := by
  obtain ⟨htn, hbn, hcn⟩ := tight_of_isIdentifier hn
  unfold entryText
  split
  · rename_i a ha
    obtain ⟨htm, hbm, hcm⟩ := tight_of_isIdentifier (hal a (find?_alias ha).2)
    have has : words "as".toList = ["as".toList] :=
      words_of_forall (by simp) (by
        intro c hc
        simp only [show "as".toList = ['a', 's'] by simp, List.mem_cons, List.not_mem_nil,
          or_false] at hc
        rcases hc with rfl | rfl <;> decide)
    have hw : words (a.2.toList ++ " as ".toList ++ n.toList) = [a.2.toList, "as".toList, n.toList] := by
      rw [as_eq, words_append_blank (by decide), words_append_blank (by decide),
        words_of_forall htm.1 hbm, words_of_forall htn.1 hbn, has]
      rfl
    refine ⟨⟨by simp, ?_, ?_⟩, ?_, ?_⟩
    · obtain ⟨c, cs, hcs⟩ := List.exists_cons_of_ne_nil htm.1
      have := htm.2.1
      simp only [hcs, List.head?_cons, Option.mem_def, Option.some.injEq, forall_eq'] at this
      simp [hcs, this]
    · rw [List.getLast?_append_of_ne_nil _ htn.1]
      exact htn.2.2
    · simp only [List.mem_append, not_or]
      exact ⟨⟨hcm, by simp⟩, hcn⟩
    · rw [listEntry, hw, ha]
      simp [hn, hal a (find?_alias ha).2]
  · rename_i ha
    refine ⟨htn, hcn, ?_⟩
    rw [listEntry, words_of_forall htn.1 hbn, ha]
    simp [hn]

end Entries

/-- Names read in increasing order are appended, each with its alias. -/
theorem foldlM_addEntry_entryText {aliases : List (String × String)}
    (hal : ∀ a ∈ aliases, isIdentifier a.2.toList = true) :
    ∀ (ns : List String) (acc : List String × List (String × String)),
      ns.Pairwise (· < ·) → (∀ n ∈ ns, isIdentifier n.toList = true) →
      (∀ x ∈ acc.1, ∀ y ∈ ns, x < y) → (∀ a ∈ acc.2, ∀ y ∈ ns, a.1 < y) →
      (ns.map (entryText aliases)).foldlM addEntry acc =
        some (acc.1 ++ ns, acc.2 ++ ns.filterMap fun n => aliases.find? (·.1 = n))
  | [], acc, _, _, _, _ => by simp
  | n :: ns, acc, hs, hi, h1, h2 => by
    rw [List.pairwise_cons] at hs
    have hn := (entryText_spec (hi n List.mem_cons_self) hal).2.2
    -- the entry for `n` goes after everything read so far
    have hstep : addEntry acc (entryText aliases n) =
        some (acc.1 ++ [n], acc.2 ++ (aliases.find? (·.1 = n)).toList) := by
      have hins := insertSorted_of_lt (fun y hy => h1 y hy n List.mem_cons_self)
      rw [addEntry, hn]
      cases hf : aliases.find? (·.1 = n) with
      | none => simp [hins]
      | some a =>
        obtain ⟨ha, -⟩ := find?_alias hf
        simp only [Option.map_some, Option.toList_some, hins]
        rw [insertEntry_of_lt (fun b hb => h2 b hb n List.mem_cons_self), ← ha]
    rw [List.map_cons, List.foldlM_cons, hstep, Option.bind_eq_bind, Option.bind_some]
    rw [foldlM_addEntry_entryText hal ns _ hs.2 (fun y hy => hi y (List.mem_cons_of_mem _ hy))]
    · congr 2
      · simp
      · cases hf : aliases.find? (·.1 = n) <;> simp [hf]
    · intro x hx y hy
      rcases List.mem_append.1 hx with hx | hx
      · exact h1 x hx y (List.mem_cons_of_mem _ hy)
      · rw [List.mem_singleton.1 hx]
        exact hs.1 y hy
    · intro a ha y hy
      rcases List.mem_append.1 ha with ha | ha
      · exact h2 a ha y (List.mem_cons_of_mem _ hy)
      · obtain ⟨b, hb, rfl⟩ : ∃ b, aliases.find? (·.1 = n) = some b ∧ b = a := by
          simpa [Option.mem_toList] using ha
        rw [(find?_alias hb).1]
        exact hs.1 y hy

/-- Looking up each name of a sorted list in sorted aliases of those names gives back the
aliases. -/
theorem filterMap_find?_names : ∀ {names : List String} {aliases : List (String × String)},
    names.Pairwise (· < ·) → (aliases.map Prod.fst).Pairwise (· < ·) →
    (∀ a ∈ aliases, a.1 ∈ names) →
    names.filterMap (fun n => aliases.find? (·.1 = n)) = aliases
  | [], aliases, _, _, hm => by
    cases aliases with
    | nil => rfl
    | cons a as => exact absurd (hm a List.mem_cons_self) (by simp)
  | n :: ns, aliases, hs, ha, hm => by
    rw [List.pairwise_cons] at hs
    cases aliases with
    | nil => simp
    | cons a as =>
      have hks := List.pairwise_cons.1 (List.map_cons (f := Prod.fst) ▸ ha)
      have hlt : ∀ b ∈ as, a.1 < b.1 := fun b hb => hks.1 b.1 (List.mem_map_of_mem hb)
      rw [List.filterMap_cons]
      by_cases han : a.1 = n
      · -- `a` is the alias of `n`, and the other aliases belong to the other names
        have hrest : ∀ y ∈ ns, (a :: as).find? (·.1 = y) = as.find? (·.1 = y) := fun y hy => by
          simp [ne_of_lt (han ▸ hs.1 y hy)]
        have hm' : ∀ b ∈ as, b.1 ∈ ns := fun b hb =>
          (List.mem_cons.1 (hm b (List.mem_cons_of_mem _ hb))).resolve_left
            (ne_of_gt (han ▸ hlt b hb))
        rw [List.find?_cons_of_pos (by simpa using han), List.filterMap_congr hrest,
          filterMap_find?_names hs.2 hks.2 hm']
      · -- `n` has no alias: every key is at least that of `a`, which comes after `n`
        have hna : n < a.1 :=
          hs.1 a.1 ((List.mem_cons.1 (hm a List.mem_cons_self)).resolve_left han)
        have hne : ∀ b ∈ a :: as, b.1 ≠ n := by
          intro b hb
          rcases List.mem_cons.1 hb with rfl | hb
          · exact han
          · exact ne_of_gt (lt_trans hna (hlt b hb))
        have hnone : (a :: as).find? (·.1 = n) = none :=
          List.find?_eq_none.2 fun b hb => by simpa using hne b hb
        rw [hnone]
        exact filterMap_find?_names hs.2 ha fun b hb =>
          (List.mem_cons.1 (hm b hb)).resolve_left (hne b hb)

theorem bracedText_eq (names : List String) (aliases : List (String × String)) :
    bracedText names aliases =
      '\x7b' :: ((' ' :: ", ".toList.intercalate (names.map (entryText aliases)) ++ [' ']) ++
        ['\x7d']) := by
  simp [bracedText]

/-- A braced list of sorted names, with sorted aliases of some of them, reads back as those
names and aliases. -/
theorem bracedList_bracedText {names : List String} {aliases : List (String × String)}
    (he : SortedEntries (names, aliases)) :
    bracedList (bracedText names aliases) = some (names, aliases) := by
  obtain ⟨hs, hi, has, ham, hal⟩ := he
  have hitems : commaItems (' ' :: ", ".toList.intercalate (names.map (entryText aliases)) ++
      [' ']) = names.map (entryText aliases) := by
    refine commaItems_spaced _ fun e he => ?_
    obtain ⟨n, hn, rfl⟩ := List.mem_map.1 he
    exact ⟨(entryText_spec (hi n hn) hal).1, (entryText_spec (hi n hn) hal).2.1⟩
  rw [bracedText_eq, bracedList, if_pos List.getLast?_concat, List.dropLast_concat, hitems,
    foldlM_addEntry_entryText hal names ([], []) hs hi (by simp) (by simp)]
  simp [filterMap_find?_names hs has ham]

/-! ### Clauses -/

theorem namespaceName_spaced {n : List Char} (h : isIdentifier n = true) :
    namespaceName ("* as ".toList ++ n) = some n := by
  have hn := tight_of_isIdentifier h
  have h1 : "* as ".toList ++ n = "*".toList ++ (' ' :: ("as".toList ++ ' ' :: n)) := by simp
  have h2 : trimStart (' ' :: ("as".toList ++ ' ' :: n)) = "as".toList ++ ' ' :: n := by
    simp [trimStart, show isBlank ' ' = true by decide, show isBlank 'a' = false by decide]
  have h3 : afterKeyword "as".toList ("as".toList ++ ' ' :: n) = some n := by
    simp [afterKeyword, show isBlank ' ' = true by decide, trimStart_of_head hn.1.2.1]
  rw [namespaceName, h1, afterWord_append, Option.bind_some, h2, h3, Option.bind_some, if_pos h]

theorem namespaceName_bracedText (names : List String) (aliases : List (String × String)) :
    namespaceName (bracedText names aliases) = none := by
  rw [bracedText_eq]
  rfl

theorem clauseText_of_named {imp : Import} (h : imp.kind = .named) :
    imp.clauseText = bracedText imp.names imp.aliases := by
  unfold clauseText
  rw [h]

theorem clauseText_of_single {imp : Import} {n : String} (hn : imp.names = [n]) :
    (imp.kind = .namespaceObject → imp.clauseText = "* as ".toList ++ n.toList) ∧
      (imp.kind = .defaultMember → imp.clauseText = n.toList) := by
  unfold clauseText
  constructor <;> intro h <;> rw [h, hn]

/-- A clause that is one name reads as a default import of it. -/
theorem ofClause_name {n : List Char} (hi : isIdentifier n = true) (source : String)
    (line : Nat) :
    ofClause n source line = some [⟨.defaultMember, source, [String.ofList n], [], line⟩] := by
  have hcn := (tight_of_isIdentifier hi).2.2
  obtain ⟨c, cs, rfl, hc⟩ := head_not_open hi
  have hsplit : (c :: cs).splitOn ',' = [c :: cs] := List.splitOn_eq_singleton hcn
  rw [ofClause]
  simp only [hc, Bool.false_eq_true, if_false]
  rw [hsplit]
  dsimp only
  rw [if_pos hi, restOfClause]
  rfl

/-- A clause that starts with a name and a comma reads as a default import of that name, followed
by what the rest of the clause declares. -/
theorem ofClause_name_comma {n r : List Char} (hi : isIdentifier n = true) (hr : Tight r)
    (source : String) (line : Nat) :
    ofClause (n ++ ", ".toList ++ r) source line =
      restOfClause source line r [⟨.defaultMember, source, [String.ofList n], [], line⟩] := by
  obtain ⟨htn, -, hcn⟩ := tight_of_isIdentifier hi
  have hsplit : (n ++ ", ".toList ++ r).splitOn ',' = n :: (' ' :: r).splitOn ',' := by
    rw [show n ++ ", ".toList ++ r = n ++ ',' :: (' ' :: r) by simp]
    exact List.splitOn_append_cons_self_of_not_mem hcn _
  obtain ⟨m, ms, hm⟩ := List.exists_cons_of_ne_nil (List.splitOn_ne_nil ',' (' ' :: r))
  have hrest : trim (",".toList.intercalate (m :: ms)) = r := by
    rw [← hm, show ",".toList = [','] from rfl, List.intercalate_splitOn, hr.trim_space_cons]
  obtain ⟨c, cs, hn, hc⟩ := head_not_open hi
  have hcl : n ++ ", ".toList ++ r = c :: (cs ++ ", ".toList ++ r) := by simp [hn]
  rw [hcl, ofClause]
  simp only [hc, Bool.false_eq_true, if_false]
  rw [← hcl, hsplit, hm]
  simp only [htn.trim_eq, hrest, hi, if_true]

section WellFormed

variable {imp : Import} (hw : imp.WellFormed)
include hw

theorem WellFormed.single_ident {n : String} (hn : imp.names = [n]) :
    isIdentifier n.toList = true :=
  hw.entries.names_ident n (by simp [hn])

/-- The clause of a named or namespace import reads back as that import, after the imports read
before it. -/
theorem restOfClause_clauseText (hk : imp.kind = .named ∨ imp.kind = .namespaceObject)
    (before : List Import) :
    restOfClause imp.source imp.line imp.clauseText before = some (before ++ [imp]) := by
  rcases hk with hk | hk
  · rw [clauseText_of_named hk, restOfClause, bracedText_eq]
    simp only [List.isEmpty_cons, Bool.false_eq_true, if_false]
    rw [← bracedText_eq, namespaceName_bracedText, bracedList_bracedText hw.entries,
      Option.map_some]
    obtain ⟨kind, source, names, aliases, line⟩ := imp
    dsimp only at hk
    rw [hk]
  · obtain ⟨n, hn, ha⟩ := hw.single (.inr hk)
    rw [(clauseText_of_single hn).1 hk, restOfClause, if_neg (by simp),
      namespaceName_spaced (hw.single_ident hn)]
    obtain ⟨kind, source, names, aliases, line⟩ := imp
    dsimp only at hk hn ha
    subst hk hn ha
    simp

/-- The clause of an import other than a side-effect one is a tight text. -/
theorem tight_clauseText (hk : imp.kind ≠ .sideEffect) : Tight imp.clauseText := by
  cases h : imp.kind with
  | named =>
    rw [clauseText_of_named h, bracedText_eq]
    refine ⟨List.cons_ne_nil _ _, ?_, ?_⟩
    · simp only [List.head?_cons, Option.mem_def, Option.some.injEq, forall_eq']
      decide
    · rw [← List.cons_append, List.getLast?_concat]
      simp only [Option.mem_def, Option.some.injEq, forall_eq']
      decide
  | namespaceObject =>
    obtain ⟨n, hn, -⟩ := hw.single (.inr h)
    have htn := (tight_of_isIdentifier (hw.single_ident hn)).1
    rw [(clauseText_of_single hn).1 h]
    refine ⟨by simp, ?_, ?_⟩
    · rw [show "* as ".toList = '*' :: " as ".toList from rfl, List.cons_append, List.head?_cons]
      simp only [Option.mem_def, Option.some.injEq, forall_eq']
      decide
    · rw [List.getLast?_append_of_ne_nil _ htn.1]
      exact htn.2.2
  | defaultMember =>
    obtain ⟨n, hn, -⟩ := hw.single (.inl h)
    rw [(clauseText_of_single hn).2 h]
    exact (tight_of_isIdentifier (hw.single_ident hn)).1
  | sideEffect => exact absurd h hk

/-- The clause of an import other than a side-effect one reads back as that import. -/
theorem ofClause_clauseText (hk : imp.kind ≠ .sideEffect) :
    ofClause imp.clauseText imp.source imp.line = some [imp] := by
  by_cases hd : imp.kind = .defaultMember
  · obtain ⟨n, hn, ha⟩ := hw.single (.inl hd)
    rw [(clauseText_of_single hn).2 hd, ofClause_name (hw.single_ident hn)]
    obtain ⟨kind, source, names, aliases, line⟩ := imp
    dsimp only at hd hn ha
    subst hd hn ha
    simp
  · have hk' : imp.kind = .named ∨ imp.kind = .namespaceObject := by
      cases h : imp.kind <;> simp_all
    obtain ⟨c, cs, hc, hck⟩ : ∃ c cs, imp.clauseText = c :: cs ∧ (c = '\x7b' || c = '*') = true := by
      rcases hk' with hk' | hk'
      · exact ⟨_, _, (clauseText_of_named hk').trans (bracedText_eq _ _), rfl⟩
      · obtain ⟨n, hn, -⟩ := hw.single (.inr hk')
        exact ⟨'*', " as ".toList ++ n.toList, (clauseText_of_single hn).1 hk', rfl⟩
    have hr := restOfClause_clauseText hw hk' []
    rw [hc] at hr ⊢
    rw [ofClause, if_pos hck, hr]
    rfl

end WellFormed

/-- The clause of a default import followed by a named or namespace import reads back as both. -/
theorem ofClause_default_pair {d imp : Import} (hd : d.WellFormed) (hw : imp.WellFormed)
    (hdk : d.kind = .defaultMember) (hk : imp.kind = .named ∨ imp.kind = .namespaceObject)
    (hs : d.source = imp.source) (hl : d.line = imp.line) :
    ofClause (d.clauseText ++ ", ".toList ++ imp.clauseText) imp.source imp.line =
      some [d, imp] := by
  obtain ⟨n, hn, ha⟩ := hd.single (.inl hdk)
  have hne : imp.kind ≠ .sideEffect := by rcases hk with h | h <;> rw [h] <;> decide
  rw [(clauseText_of_single hn).2 hdk, ofClause_name_comma (hd.single_ident hn)
    (tight_clauseText hw hne), restOfClause_clauseText hw hk]
  obtain ⟨kind, source, names, aliases, line⟩ := d
  dsimp only at hdk hn ha hs hl
  subst hdk hn ha hs hl
  simp

/-! ### Reading back what is written -/

/-- Every well-formed list of imports is read back from the statement that declares it. -/
theorem ofStatement_render {v : List Import} {line : Nat} (hv : WellFormedList v)
    (hl : ∀ imp ∈ v, imp.line = line) : ofStatement (render v) line = some v := by
  match v, hv with
  | [], hv => exact hv.elim
  | [imp], hw =>
    obtain rfl : imp.line = line := hl imp List.mem_cons_self
    by_cases hk : imp.kind = .sideEffect
    · rw [render, if_pos hk, ofStatement_sideEffect hw.source_ne hw.source_quotes]
      obtain ⟨hn, ha⟩ := hw.bare hk
      obtain ⟨kind, source, names, aliases, line⟩ := imp
      dsimp only at hk hn ha
      subst hk hn ha
      simp
    · have ht := tight_clauseText hw hk
      rw [render, if_neg hk, ofStatement_statementText ht.1 ht.2.1 ht.2.2 hw.source_ne
        hw.source_quotes, String.ofList_toList, ofClause_clauseText hw hk]
  | [d, imp], ⟨hd, hw, hdk, hk, hs, hdl⟩ =>
    obtain rfl : imp.line = line := hl imp (by simp)
    have hne : imp.kind ≠ .sideEffect := by rcases hk with h | h <;> rw [h] <;> decide
    have hdne : d.kind ≠ .sideEffect := by rw [hdk]; decide
    have ht := (tight_clauseText hd hdne).append (tight_clauseText hw hne) ", ".toList
    rw [render, ofStatement_statementText ht.1 ht.2.1 ht.2.2 hw.source_ne hw.source_quotes,
      String.ofList_toList, ofClause_default_pair hd hw hdk hk hs hdl]
  | _ :: _ :: _ :: _, hv => exact hv.elim

/-! ### What the reader gives back -/

theorem listEntry_spec {e : List Char} {name : String} {m : Option String}
    (h : listEntry e = some (name, m)) :
    isIdentifier name.toList = true ∧ ∀ member ∈ m, isIdentifier member.toList = true := by
  unfold listEntry at h
  split at h
  · split at h
    · rename_i w _ hi
      simp only [Option.some.injEq, Prod.mk.injEq] at h
      obtain ⟨rfl, rfl⟩ := h
      simp [hi]
    · cases h
  · split at h
    · rename_i member as w _ hi
      simp only [Bool.and_eq_true] at hi
      simp only [Option.some.injEq, Prod.mk.injEq] at h
      obtain ⟨rfl, rfl⟩ := h
      simp [hi.2, hi.1.2]
    · cases h
  · cases h

/-- Adding an entry keeps names and aliases as a braced list gives them. -/
theorem SortedEntries.of_addEntry {acc acc' : List String × List (String × String)} {e : List Char}
    (h : SortedEntries acc) (he : addEntry acc e = some acc') : SortedEntries acc' := by
  unfold addEntry at he
  cases hl : listEntry e with
  | none => rw [hl] at he; cases he
  | some r =>
    obtain ⟨name, m⟩ := r
    obtain ⟨hn, hm⟩ := listEntry_spec hl
    rw [hl, Option.map_some, Option.some.injEq] at he
    have hnames : ∀ n ∈ insertSorted name acc.1, isIdentifier n.toList = true := by
      intro n hn'
      rcases mem_insertSorted.1 hn' with rfl | hn'
      · exact hn
      · exact h.names_ident n hn'
    have hmem : ∀ a ∈ acc.2, a.1 ∈ insertSorted name acc.1 := fun a ha =>
      mem_insertSorted.2 (.inr (h.aliases_mem a ha))
    cases m with
    | none =>
      subst he
      exact ⟨pairwise_insertSorted h.names_sorted, hnames, h.aliases_sorted, hmem,
        h.aliases_ident⟩
    | some member =>
      subst he
      refine ⟨pairwise_insertSorted h.names_sorted, hnames, ?_, ?_, ?_⟩
      · rw [map_fst_insertEntry]
        exact pairwise_insertSorted h.aliases_sorted
      · intro a ha
        rcases mem_insertEntry ha with rfl | ha
        · exact mem_insertSorted.2 (.inl rfl)
        · exact hmem a ha
      · intro a ha
        rcases mem_insertEntry ha with rfl | ha
        · exact hm member rfl
        · exact h.aliases_ident a ha

theorem SortedEntries.of_foldlM {es : List (List Char)} :
    ∀ {acc acc' : List String × List (String × String)}, SortedEntries acc →
      es.foldlM addEntry acc = some acc' → SortedEntries acc' := by
  induction es with
  | nil =>
    intro acc acc' h he
    rw [List.foldlM_nil] at he
    cases he
    exact h
  | cons e es ih =>
    intro acc acc' h he
    rw [List.foldlM_cons] at he
    cases ha : addEntry acc e with
    | none => rw [ha] at he; cases he
    | some a => rw [ha] at he; exact ih (h.of_addEntry ha) he

/-- A braced list reads as names and aliases that are sorted, identifiers, and each alias for one
of the names. -/
theorem sortedEntries_of_bracedList {cs : List Char} {r : List String × List (String × String)}
    (h : bracedList cs = some r) : SortedEntries r := by
  unfold bracedList at h
  split at h
  · split at h
    · exact SortedEntries.nil.of_foldlM h
    · cases h
  · cases h

theorem namespaceName_spec {cs name : List Char} (h : namespaceName cs = some name) :
    isIdentifier name = true := by
  unfold namespaceName at h
  cases hb : (afterWord "*".toList cs).bind fun rest => afterKeyword "as".toList (trimStart rest) with
  | none => rw [hb] at h; cases h
  | some n =>
    rw [hb, Option.bind_some] at h
    split at h
    · cases h
      assumption
    · cases h

section Source

variable {source : String} (hp : source.toList ≠ [])
  (hq : ∀ c ∈ source.toList, isQuote c = false)
include hp hq

theorem wellFormed_default {name : List Char} (hi : isIdentifier name = true) (line : Nat) :
    (⟨.defaultMember, source, [String.ofList name], [], line⟩ : Import).WellFormed :=
  ⟨hp, hq, ⟨by simp, by simp [hi], by simp, by simp, by simp⟩, fun _ => ⟨_, rfl, rfl⟩,
    fun h => by cases h⟩

/-- After the imports read before it, the rest of a clause declares nothing more, or one
well-formed named or namespace import of the statement's specifier and line. -/
theorem restOfClause_spec {line : Nat} {rest : List Char} {before v : List Import}
    (h : restOfClause source line rest before = some v) :
    (before ≠ [] ∧ v = before) ∨
      ∃ imp : Import, v = before ++ [imp] ∧ imp.WellFormed ∧ imp.source = source ∧
        imp.line = line ∧ (imp.kind = .named ∨ imp.kind = .namespaceObject) := by
  unfold restOfClause at h
  split at h
  · split at h
    · cases h
    · rename_i hb
      cases h
      exact .inl ⟨by simpa using hb, rfl⟩
  · split at h
    · rename_i name hn
      cases h
      refine .inr ⟨_, rfl, ⟨hp, hq, ⟨by simp, ?_, by simp, by simp, by simp⟩,
        fun _ => ⟨_, rfl, rfl⟩, fun h => by cases h⟩, rfl, rfl, .inr rfl⟩
      simp [namespaceName_spec hn]
    · cases hb : bracedList rest with
      | none => rw [hb] at h; cases h
      | some r =>
        obtain ⟨names, aliases⟩ := r
        rw [hb, Option.map_some, Option.some.injEq] at h
        subst h
        exact .inr ⟨_, rfl, ⟨hp, hq, sortedEntries_of_bracedList hb, fun h => by simp at h,
          fun h => by cases h⟩, rfl, rfl, .inl rfl⟩

/-- A clause that starts with a default name reads as a default import, perhaps followed by a
well-formed named or namespace import of the same specifier and line. -/
theorem wellFormedList_of_default {line : Nat} {v : List Import} (parts : List Char × List Char)
    (h : (let (first, rest) := parts
      if isIdentifier first then
        restOfClause source line rest [⟨.defaultMember, source, [String.ofList first], [], line⟩]
      else none) = some v) :
    WellFormedList v ∧ ∀ imp ∈ v, imp.line = line := by
  obtain ⟨first, rest⟩ := parts
  dsimp only at h
  split at h
  · rename_i hi
    have hd := wellFormed_default hp hq hi line
    rcases restOfClause_spec hp hq h with ⟨-, rfl⟩ | ⟨imp, rfl, hw, hs, hl, hk⟩
    · exact ⟨hd, by simp⟩
    · exact ⟨⟨hd, hw, rfl, hk, hs.symm, hl.symm⟩, by simp [hl]⟩
  · cases h

/-- Every list a clause reads as is one that a statement declares, on the statement's line. -/
theorem wellFormedList_of_ofClause {clause : List Char} {line : Nat} {v : List Import}
    (h : ofClause clause source line = some v) :
    WellFormedList v ∧ ∀ imp ∈ v, imp.line = line := by
  unfold ofClause at h
  split at h
  · split at h
    · rcases restOfClause_spec hp hq h with ⟨hb, -⟩ | ⟨imp, rfl, hw, -, hl, -⟩
      · exact absurd rfl hb
      · exact ⟨hw, by simp [hl]⟩
    · exact wellFormedList_of_default hp hq _ h
  · cases h

end Source

/-- Every list of imports the reader gives back is one that a statement declares, on the line it
was given. -/
theorem wellFormedList_of_ofStatement {s : List Char} {line : Nat} {v : List Import}
    (h : ofStatement s line = some v) : WellFormedList v ∧ ∀ imp ∈ v, imp.line = line := by
  unfold ofStatement at h
  dsimp only at h
  cases hs : sideEffectSource (trim s) with
  | some spec =>
    rw [hs, Option.some.injEq] at h
    subst h
    obtain ⟨hne, hq⟩ := sideEffectSource_spec hs
    refine ⟨⟨by simpa using hne, by simpa using hq, SortedEntries.nil, fun h => ?_, fun _ => ⟨rfl, rfl⟩⟩,
      by simp⟩
    rcases h with h | h <;> cases h
  | none =>
    rw [hs] at h
    cases hc : clauseAndSource (trim s) with
    | none => rw [hc] at h; cases h
    | some r =>
      obtain ⟨clause, spec⟩ := r
      rw [hc, Option.bind_some] at h
      obtain ⟨hne, hq⟩ := clauseAndSource_spec hc
      exact wellFormedList_of_ofClause (by simpa using hne) (by simpa using hq) h

/-! ### The round trip -/

/-- The reader of import statements inverts writing them: a list of imports is read back from its
statement, on a given line, exactly when it is one that a statement declares, with that line; and
whatever the reader gives back for any text is such a list, so it is read back from its own
statement. -/
theorem import_statement_round_trip :
    (∀ (v : List Import) (line : Nat),
      ofStatement (render v) line = some v ↔ WellFormedList v ∧ ∀ imp ∈ v, imp.line = line) ∧
    ∀ (s : List Char) (line : Nat) (v : List Import), ofStatement s line = some v →
      WellFormedList v ∧ (∀ imp ∈ v, imp.line = line) ∧ ofStatement (render v) line = some v := by
  refine ⟨fun v line => ⟨wellFormedList_of_ofStatement, fun ⟨hv, hl⟩ => ofStatement_render hv hl⟩,
    fun s line v h => ?_⟩
  obtain ⟨hv, hl⟩ := wellFormedList_of_ofStatement h
  exact ⟨hv, hl, ofStatement_render hv hl⟩

/-- A side-effect import that binds a name is not read back from its statement, which has no place
for names. -/
theorem sideEffect_names_dropped :
    ofStatement (render [⟨.sideEffect, "./a.js", ["a"], [], 1⟩]) 1 ≠
      some [⟨.sideEffect, "./a.js", ["a"], [], 1⟩] := by
  decide

end ModuleBundler.Import
