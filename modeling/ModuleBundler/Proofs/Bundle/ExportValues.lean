import ModuleBundler.Proofs.Bundle.Exports
import ModuleBundler.Proofs.Module.SourceOrder
import ModuleBundler.Proofs.Import.RoundTrip
import ModuleBundler.Proofs.Service.Tidy
import Mathlib

/-!
What a parsed module's factory returns.

Every value of the object a parsed module's factory returns is declared by the factory, or is
the local name of an entry of an `export { … }` list of the source
(`parse_exportProperties_declared`). Reading keeps these facts as it goes (`Draft.Named`): the
names of imports are identifiers, functions and the class have names made of name characters
and parameter lists that open with `(`, and every export binding and the default export name a
function, the class or one of its methods, a function after the class, or a statement that
opens a declaration of it (`export const x = …` and `export default …` are kept as such
statements), unless they come from an export list. Redirecting call sites keeps those statements' declarations, since an
imported name followed by a blank, `=` or `;` is no call site.

An export list is recorded as written, without looking for a declaration: a module that
imports `x` and lists it in `export { x };` returns `x` under `x`, and its factory declares no
`x`, since an import is no declaration of the factory (`reexported_import_listed`).
-/

namespace ModuleBundler

open ModuleBundler.Text ModuleBundler.Syntax

/-! ### Imported names are identifiers -/

namespace Import

theorem WellFormedList.mem {v : List Import} (h : WellFormedList v) : ∀ imp ∈ v, imp.WellFormed := by
  unfold WellFormedList at h
  split at h
  · simpa using h
  · simp only [List.mem_cons, List.not_mem_nil, or_false]
    rintro imp (rfl | rfl)
    · exact h.1
    · exact h.2.1
  · cases h

/-- Every name an import statement binds is an identifier. -/
theorem ofStatement_names {s : List Char} {line : Nat} {v : List Import}
    (h : ofStatement s line = some v) : ∀ imp ∈ v, ∀ n ∈ imp.names, isIdentifier n.toList = true :=
  fun imp himp n hn => ((wellFormedList_of_ofStatement h).1.mem imp himp).entries.names_ident n hn

end Import

/-! ### Redirecting keeps the opening of a declaration -/

namespace Binding

variable {b : Binding} {N : List Char} {p : Option Char}

theorem isIdentPart_dot : isIdentPart '.' = false := by decide +kernel

/-- A binding replaces no name followed by anything but `(` or `.`. -/
theorem replacement_eq_none {u : List Char} (hu : ∀ c ∈ u.head?, c ≠ '(' ∧ c ≠ '.') :
    b.replacement u = none := by
  unfold replacement
  split
  · exact absurd rfl (hu '(' rfl).1
  · exact absurd rfl (hu '.' rfl).2
  · rfl

/-- A name made of name characters that starts a text can only cover a first part that no
character outside names ends. -/
theorem prefix_of_prefix_append {P Y : List Char} (hN : ∀ x ∈ N, isIdentPart x = true)
    (hY : ∀ c ∈ Y.head?, isIdentPart c = false) (h : N <+: P ++ Y) : N <+: P := by
  by_cases hl : N.length ≤ P.length
  · exact List.prefix_of_prefix_length_le h (List.prefix_append P Y) hl
  · -- otherwise the name would take in the first character after `P`
    exfalso
    have hlt : P.length < N.length := by omega
    have hy : P.length < (P ++ Y).length := lt_of_lt_of_le hlt h.length_le
    obtain ⟨c, Y', rfl⟩ : ∃ c Y', Y = c :: Y' := by
      cases Y with
      | nil => simp at hy
      | cons c Y' => exact ⟨c, Y', rfl⟩
    have hc : N[P.length] = c := by
      rw [h.getElem hlt]
      simp
    have := hN _ (hc ▸ List.getElem_mem hlt)
    rw [hY c rfl] at this
    cases this

/-- A redirection copies a first part without `(` and `.`, followed by a character that
neither continues a name nor opens a call, when the name is made of name characters. -/
theorem redirectFrom_keeps (hN : ∀ x ∈ N, isIdentPart x = true) {Y : List Char}
    (hY : ∀ c ∈ Y.head?, isIdentPart c = false ∧ c ≠ '(' ∧ c ≠ '.') :
    ∀ (P : List Char) (p : Option Char), '(' ∉ P → '.' ∉ P →
      ∃ p', b.redirectFrom N p (P ++ Y) = P ++ b.redirectFrom N p' Y
  | [], p, _, _ => ⟨p, rfl⟩
  | c :: P, p, h₁, h₂ => by
    by_cases hne : N = []
    · subst hne
      exact ⟨p, by rw [redirectFrom_name_nil, redirectFrom_name_nil]⟩
    by_cases ho : N <+: c :: P ++ Y
    · -- an occurrence of the name inside `c :: P`, which the character after it keeps from
      -- being a call site
      have hNP := prefix_of_prefix_append hN (fun x hx => (hY x hx).1) ho
      have hlen : N.length ≤ (c :: P).length := hNP.length_le
      have hdrop : (c :: P ++ Y).drop N.length = (c :: P).drop N.length ++ Y :=
        List.drop_append_of_le_length hlen
      have hrep : b.replacement ((c :: P ++ Y).drop N.length) = none := by
        refine replacement_eq_none fun x hx => ?_
        rw [hdrop] at hx
        by_cases hd : (c :: P).drop N.length = []
        · rw [hd, List.nil_append] at hx
          exact ⟨(hY x hx).2.1, (hY x hx).2.2⟩
        · rw [List.head?_append_of_ne_nil _ hd] at hx
          have hm : x ∈ c :: P := List.mem_of_mem_drop (List.mem_of_mem_head? hx)
          exact ⟨fun h => h₁ (h ▸ hm), fun h => h₂ (h ▸ hm)⟩
      obtain ⟨p', hp'⟩ := redirectFrom_keeps hN hY ((c :: P).drop N.length) N.getLast?
        (fun h => h₁ (List.mem_of_mem_drop h)) (fun h => h₂ (List.mem_of_mem_drop h))
      refine ⟨p', ?_⟩
      rw [redirectFrom_of_occurs hne ho]
      have hnone : (if joinsName p = true then none else b.replacement ((c :: P ++ Y).drop N.length)) =
          none := by
        split
        · rfl
        · exact hrep
      obtain ⟨t, ht⟩ := hNP
      have hdropt : (c :: P).drop N.length = t := by
        rw [← ht]
        exact List.drop_left
      rw [hnone]
      dsimp only
      rw [hdrop, hp', ← List.append_assoc, hdropt, ht]
    · obtain ⟨p', hp'⟩ := redirectFrom_keeps hN hY P (some c)
        (fun h => h₁ (List.mem_cons_of_mem c h)) (fun h => h₂ (List.mem_cons_of_mem c h))
      rw [List.cons_append] at ho
      exact ⟨p', by rw [List.cons_append, redirectFrom_of_not_occurs ho, hp', List.cons_append]⟩
termination_by P => P.length
decreasing_by
  all_goals simp_wf
  exact List.length_pos_iff.2 hne

/-- A redirection keeps the first character of a text that no name starts. -/
theorem head?_redirectFrom_of_identPart (hN : ∀ x ∈ N, isIdentPart x = true) {Y : List Char}
    (hY : ∀ c ∈ Y.head?, isIdentPart c = false) (p : Option Char) :
    (b.redirectFrom N p Y).head? = Y.head? := by
  cases Y with
  | nil => simp [redirectFrom]
  | cons c Y =>
    by_cases hne : N = []
    · subst hne
      rw [redirectFrom_name_nil]
    · have ho : ¬ N <+: c :: Y := by
        obtain ⟨n, ns, rfl⟩ := List.exists_cons_of_ne_nil hne
        intro h
        obtain ⟨rfl, -⟩ := List.cons_prefix_cons.1 h
        have hc := hY n rfl
        rw [hN n List.mem_cons_self] at hc
        cases hc
      rw [redirectFrom_of_not_occurs ho]
      rfl

end Binding

/-- Redirecting a line for bindings with names made of name characters keeps a first part
without `(` and `.`, followed by a character that neither continues a name nor opens a call. -/
theorem redirectLine_keeps {bs : List Binding}
    (hbs : ∀ b ∈ bs, ∀ x ∈ b.localName.toList, isIdentPart x = true) {P : List Char}
    (h₁ : '(' ∉ P) (h₂ : '.' ∉ P) :
    ∀ {Y : List Char}, (∀ c ∈ Y.head?, isIdentPart c = false ∧ c ≠ '(' ∧ c ≠ '.') →
      ∃ Y', redirectLine bs [] (P ++ Y) = P ++ Y' ∧ Y'.head? = Y.head? := by
  induction bs with
  | nil => exact fun {Y} _ => ⟨Y, rfl, rfl⟩
  | cons b bs ih =>
    intro Y hY
    have hb := hbs b List.mem_cons_self
    obtain ⟨p', hp'⟩ := Binding.redirectFrom_keeps (b := b) hb hY P none h₁ h₂
    have hhead := Binding.head?_redirectFrom_of_identPart (b := b) hb (fun c hc => (hY c hc).1) p'
    obtain ⟨Y', hY', hhead'⟩ := ih (fun b' hb' => hbs b' (List.mem_cons_of_mem b hb'))
      (Y := b.redirectFrom b.localName.toList p' Y) (fun c hc => hY c (hhead ▸ hc))
    refine ⟨Y', ?_, hhead'.trans hhead⟩
    have hstep : redirectLine (b :: bs) [] (P ++ Y) = redirectLine bs [] (b.redirect (P ++ Y)) := by
      simp [redirectLine]
    rw [hstep, Binding.redirect, hp', hY']

namespace Bundle

theorem paren_dot_not_mem_keyword {kw : String} (hkw : kw ∈ ["const", "let", "var"]) :
    '(' ∉ kw.toList ∧ '.' ∉ kw.toList := by
  simp only [List.mem_cons, List.not_mem_nil, or_false] at hkw
  rcases hkw with rfl | rfl | rfl <;> decide

/-- Redirecting the call sites of a statement keeps the declaration it opens. -/
theorem OpensDeclaration.redirectLine {x : List Char} {v : String} (h : OpensDeclaration x v)
    {bs : List Binding} (hbs : ∀ b ∈ bs, ∀ c ∈ b.localName.toList, isIdentPart c = true) :
    OpensDeclaration (redirectLine bs [] x) v := by
  obtain ⟨ind, kw, sp, rest, rfl, hkw, hind, hsp, hv, hrest⟩ := h
  have hblank : ∀ c ∈ ind ++ sp, c ≠ '(' ∧ c ≠ '.' := by
    intro c hc
    have hb := (hind c hc).1
    exact ⟨fun h => absurd (h ▸ hb) (by decide), fun h => absurd (h ▸ hb) (by decide)⟩
  have hname : ∀ c ∈ v.toList, c ≠ '(' ∧ c ≠ '.' := by
    intro c hc
    have hi := hv c hc
    exact ⟨fun h => absurd (h ▸ hi) (by rw [isIdentPart_paren]; decide),
      fun h => absurd (h ▸ hi) (by rw [Binding.isIdentPart_dot]; decide)⟩
  have hkw' := paren_dot_not_mem_keyword hkw
  have hP : ∀ c ∈ ind ++ kw.toList ++ sp ++ v.toList, c ≠ '(' ∧ c ≠ '.' := by
    intro c hc
    simp only [List.mem_append] at hc
    rcases hc with ((hc | hc) | hc) | hc
    · exact hblank c (List.mem_append_left _ hc)
    · exact ⟨fun h => hkw'.1 (h ▸ hc), fun h => hkw'.2 (h ▸ hc)⟩
    · exact hblank c (List.mem_append_right _ hc)
    · exact hname c hc
  obtain ⟨Y', hY', hhead⟩ := redirectLine_keeps hbs (fun h => (hP '(' h).1 rfl)
    (fun h => (hP '.' h).2 rfl) hrest
  exact ⟨ind, kw, sp, Y', hY', hkw, hind, hsp, hv, fun c hc => hrest c (hhead ▸ hc)⟩

end Bundle

/-! ### What headers read -/

namespace Syntax

/-- Every character of the name at the start of a text continues a name. -/
theorem mem_take_identLength {r : List Char} {c : Char} (hc : c ∈ r.take (identLength r)) :
    isIdentPart c = true := by
  cases r with
  | nil => simp at hc
  | cons d rest =>
    rw [identLength] at hc
    split at hc
    · rename_i hd
      rw [List.take_succ_cons] at hc
      rcases List.mem_cons.1 hc with rfl | hc
      · exact Import.isIdentPart_of_isIdentStart hd
      · have hp : rest.takeWhile isIdentPart <+: rest := List.takeWhile_prefix isIdentPart
        rw [← List.prefix_iff_eq_take.1 hp] at hc
        exact List.mem_takeWhile_imp hc
    · simp at hc

end Syntax

namespace Header

theorem nameThenParen_name {r name fromParen : List Char}
    (h : nameThenParen r = some (name, fromParen)) : ∀ c ∈ name, isIdentPart c = true := by
  unfold nameThenParen at h
  dsimp only at h
  split at h
  · cases h
  · split at h
    · cases h
      exact fun c hc => mem_take_identLength hc
    · cases h

theorem function?_name {t : List Char} {h : FunctionHeader} (hf : function? t = some h) :
    ∀ c ∈ h.name, isIdentPart c = true := by
  unfold function? at hf
  simp only [Option.bind_eq_some_iff, Option.map_eq_some_iff] at hf
  obtain ⟨r, -, ⟨name, fromParen⟩, hnp, rfl⟩ := hf
  exact nameThenParen_name hnp

theorem method?_name {t : List Char} {h : MethodHeader} (hm : method? t = some h) :
    ∀ c ∈ h.name, isIdentPart c = true := by
  unfold method? at hm
  simp only [Option.orElse_eq_orElse, Option.orElse_eq_or, Option.or_eq_some_iff,
    Option.bind_eq_some_iff, Option.map_eq_some_iff] at hm
  rcases hm with ⟨r, hr, r', hr', ⟨name, fp⟩, hnp, rfl⟩ | ⟨-, ⟨r, hr, ⟨name, fp⟩, hnp, rfl⟩ |
    ⟨-, ⟨r, hr, ⟨name, fp⟩, hnp, rfl⟩ | ⟨-, ⟨name, fp⟩, hnp, rfl⟩⟩⟩
  all_goals exact nameThenParen_name hnp

theorem class?_name {t : List Char} {h : ClassHeader} (hc : class? t = some h) :
    ∀ c ∈ h.name, isIdentPart c = true := by
  unfold class? at hc
  simp only [Option.bind_eq_some_iff] at hc
  obtain ⟨r, -, hr⟩ := hc
  split at hr
  · cases hr
  · cases hr
    exact fun c hc => mem_take_identLength hc

/-- A character that starts a text is blank or starts it with its blanks dropped. -/
theorem head_of_trimStart {x : List Char} {c : Char} (hc : c ∈ x.head?) :
    isBlank c = true ∨ c ∈ (trimStart x).head? := by
  cases x with
  | nil => cases hc
  | cons d x =>
    rw [List.head?_cons, Option.mem_def, Option.some.injEq] at hc
    subst hc
    cases hb : isBlank d
    · right
      simp [trimStart, hb]
    · exact .inl rfl

/-- `export const|let|var name` followed by `=`, `;` or the end: after `export` and a blank, a
declaration keyword, blanks, the name, and then a blank, `=`, `;` or nothing. -/
theorem exportDeclaration?_spec {t name : List Char} (h : exportDeclaration? t = some name) :
    ∃ b rest kw sp tail, t = "export".toList ++ b :: rest ∧ isBlank b = true ∧
      trimStart rest = kw.toList ++ sp ++ name ++ tail ∧ kw ∈ ["const", "let", "var"] ∧
      sp ≠ [] ∧ (∀ c ∈ sp, isBlank c = true) ∧ (∀ c ∈ name, isIdentPart c = true) ∧
      ∀ c ∈ tail.head?, isBlank c = true ∨ c = '=' ∨ c = ';' := by
  unfold exportDeclaration? at h
  simp only [Option.bind_eq_some_iff] at h
  obtain ⟨r, hr, r', hr', h⟩ := h
  obtain ⟨b, rest, rfl, hb, rfl⟩ := afterKeyword_spec hr
  -- the keyword that was read
  obtain ⟨kw, hkw, hkw'⟩ : ∃ kw ∈ ["const", "let", "var"],
      afterKeyword kw.toList (trimStart rest) = some r' := by
    simp only [Option.orElse_eq_orElse, Option.orElse_eq_or, Option.or_eq_some_iff] at hr'
    rcases hr' with hr' | ⟨-, hr' | ⟨-, hr'⟩⟩
    · exact ⟨"const", by simp, hr'⟩
    · exact ⟨"let", by simp, hr'⟩
    · exact ⟨"var", by simp, hr'⟩
  obtain ⟨b', rest', hrest, hb', rfl⟩ := afterKeyword_spec hkw'
  have hsplit : trimStart rest = kw.toList ++ (b' :: rest'.takeWhile isBlank) ++
      (trimStart rest').take (identLength (trimStart rest')) ++
      (trimStart rest').drop (identLength (trimStart rest')) := by
    rw [hrest, List.append_assoc, List.append_assoc, List.take_append_drop, trimStart,
      List.cons_append, List.takeWhile_append_dropWhile]
  have hsp : ∀ c ∈ b' :: rest'.takeWhile isBlank, isBlank c = true := by
    intro c hc
    rcases List.mem_cons.1 hc with rfl | hc
    · exact hb'
    · exact List.mem_takeWhile_imp hc
  -- the name ends where the text, its blanks dropped, goes on with `=`, `;` or nothing
  have hname : name = (trimStart rest').take (identLength (trimStart rest')) ∧
      ∀ c ∈ ((trimStart rest').drop (identLength (trimStart rest'))).head?,
        isBlank c = true ∨ c = '=' ∨ c = ';' := by
    split at h
    · cases h
    · split at h
      case h_4 => cases h
      -- the text after the name, its blanks dropped, is empty or opens with `=` or `;`
      all_goals
        rename_i heq
        cases h
        refine ⟨rfl, fun c hc => ?_⟩
        rcases head_of_trimStart hc with hc | hc
        · exact .inl hc
        · rw [heq] at hc
          cases hc <;> simp
  obtain ⟨rfl, htail⟩ := hname
  exact ⟨b, rest, kw, _, _, rfl, hb, hsplit, hkw, List.cons_ne_nil _ _, hsp,
    fun c hc => mem_take_identLength hc, htail⟩

end Header

/-! ### What the reader records of functions and classes -/

namespace Line

/-- No source line holds a `\n`, nor does what is left of one to read. -/
theorem unbroken_ofSource (cs : List Char) : ∀ m ∈ ofSource cs, '\n' ∉ m.text := by
  intro m hm
  obtain ⟨⟨text, i⟩, hmem, rfl⟩ := List.mem_map.1 hm
  exact newline_not_mem_of_mem_lines (List.fst_mem_of_mem_zipIdx hmem)

theorem Remains.unbroken {src ls : List Line} (hsrc : ∀ m ∈ src, '\n' ∉ m.text)
    (h : Remains src ls) : ∀ m ∈ ls, '\n' ∉ m.text := fun m hm hn => by
  obtain ⟨l₀, hl₀, hb⟩ := h.mem hm
  exact hsrc l₀ hl₀ (hb.mem hn (by decide))

theorem Remains.newline_not_mem {cs : List Char} {l : Line} {later : List Line}
    (h : Remains (ofSource cs) (l :: later)) : '\n' ∉ l.text :=
  h.unbroken (unbroken_ofSource cs) l List.mem_cons_self

/-- A first part of a text starts as the text does, when not empty. -/
theorem head?_take_of_head? {cs : List Char} {c : Char} (h : cs.head? = some c) (e : Nat) :
    ∀ x ∈ (cs.take e).head?, x = c := by
  intro x hx
  rw [List.head?_take] at hx
  split at hx
  · cases hx
  · rw [h] at hx
    exact (Option.mem_some_iff.1 hx).symm

/-- A parameter list read from a text that opens with `(` opens with `(`, when not empty. -/
theorem paramSpan_params_head {joined : List Char} {extra start base : Nat} {cur : Line}
    {ms : List Line} {span : ParamSpan} (h : paramSpan joined extra start base cur ms = some span)
    (hj : joined.head? = some '(') : ∀ c ∈ span.params.head?, c = '(' := by
  induction ms generalizing joined extra start base cur with
  | nil =>
    simp only [paramSpan, Option.map_eq_some_iff] at h
    obtain ⟨e, -, rfl⟩ := h
    exact head?_take_of_head? hj e
  | cons m ms ih =>
    simp only [paramSpan] at h
    split at h
    · cases h
      exact head?_take_of_head? hj _
    · -- the list goes on at the next line, after the text so far
      exact ih h (by simp [hj])

/-- A function read at a `(` keeps the name it is read under, and its parameter list opens with
`(`. -/
theorem functionAt_wellNamed {l : Line} {later : List Line} {paren : Nat} {name : String}
    {exported isAsync : Bool} {f : FunctionDecl} {n : Nat}
    (hname : ∀ c ∈ name.toList, isIdentPart c = true) (hp : l.text[paren]? = some '(')
    (h : functionAt l later paren name exported isAsync = .ok (f, n)) :
    f.name = name ∧ f.WellNamed := by
  unfold functionAt at h
  split at h
  · cases h
  · rename_i span hspan
    split at h
    · cases h
    · split at h
      · cases h
      · cases h
        have hhead : (l.text.drop paren).head? = some '(' := by rw [List.head?_drop, hp]
        exact ⟨rfl, hname, by simpa using paramSpan_params_head hspan hhead⟩

end Line

namespace Module

theorem MethodRead.wellNamed {l : Line} {later : List Line} {f : FunctionDecl} {n : Nat}
    (h : MethodRead l later f n) : f.WellNamed := by
  obtain ⟨hh, hm, hf⟩ := h
  have hname : ∀ c ∈ (String.ofList hh.name).toList, isIdentPart c = true := by
    simpa using Header.method?_name hm
  exact (Line.functionAt_wellNamed hname (getElem?_of_trim (Header.method?_paren hm)) hf).2

/-- The constructor and the methods of a class body are read well named. -/
theorem members_wellNamed {c c' : ClassDecl} {ls : List Line} (h : members c ls = .ok c')
    (hc : ∀ f ∈ c.ctor.toList ++ c.methods, f.WellNamed) :
    ∀ f ∈ c'.ctor.toList ++ c'.methods, f.WellNamed := by
  refine members_invariant (fun c₁ _ => ∀ f ∈ c₁.ctor.toList ++ c₁.methods, f.WellNamed)
    (fun _ _ _ h => h) (fun _ _ _ _ _ h => h) ?_ ?_ (fun _ _ _ _ _ h => h) h hc
  · -- the constructor, where there was none
    intro c₁ l later f n hr _ hct h₁ g hg
    simp only [hct, Option.toList_some, List.singleton_append, List.mem_cons] at hg h₁
    rcases hg with rfl | hg
    · exact hr.wellNamed
    · exact h₁ g (by simpa using hg)
  · intro c₁ l later f n hr _ h₁ g hg
    rw [← List.append_assoc, List.mem_append, List.mem_singleton] at hg
    rcases hg with hg | rfl
    · exact h₁ g hg
    · exact hr.wellNamed

/-- A statement goes on after its first lines. -/
theorem statementRest_extends {first : Line} {stmts' : List String} {n : Nat} {ms : List Line} :
    ∀ {st : Brace.State} {stmts : List String} {extra : Nat},
      statementRest first st stmts extra ms = .ok (stmts', n) → stmts <+: stmts' := by
  induction ms with
  | nil =>
    intro st stmts extra h
    unfold statementRest at h
    split at h
    · cases h
    · cases h
      exact List.prefix_refl _
  | cons m ms ih =>
    intro st stmts extra h
    unfold statementRest at h
    dsimp only at h
    split at h
    · split at h
      · cases h
      · exact (List.prefix_append _ _).trans (ih h)
    · cases h
      exact List.prefix_refl _

/-! ### What reading keeps -/

/-- `v` is the first word of an entry of an `export { … }` list on a line of `source`, perhaps
after a first part of the line. -/
def ListedExport (source v : String) : Prop :=
  ∃ l ∈ Line.ofSource source.toList, ∃ k list,
    Header.exportList? (trim (l.text.drop k)) = some list ∧
      ∃ entry ∈ commaItems list, (words entry).head? = some v.toList

/-- What a draft declares, as `Module.DeclaresName` says of the module it becomes. -/
def Draft.DeclaresName (d : Draft) (v : String) : Prop :=
  (∃ f ∈ d.functions, f.name = v) ∨
    (∃ c ∈ d.cls, c.name = v ∨ ∃ f ∈ c.methods ++ c.trailing, f.name = v) ∨
    ∃ s ∈ d.statements, Bundle.OpensDeclaration s.toList v

/-- A name an export binding or the default export may stand for: one the draft declares, or
one an export list of the source gives. -/
def Draft.Backed (source : String) (d : Draft) (v : String) : Prop :=
  d.DeclaresName v ∨ ListedExport source v

/-- What reading keeps of a draft: imports bind identifiers, the functions and the class are
well named, and every export binding and the default export are backed. -/
structure Draft.Named (source : String) (d : Draft) : Prop where
  imports : ∀ imp ∈ d.imports, ∀ n ∈ imp.names, isIdentifier n.toList = true
  functions : ∀ f ∈ d.functions, f.WellNamed
  className : ∀ c ∈ d.cls, ∀ x ∈ c.name.toList, isIdentPart x = true
  classFunctions : ∀ c ∈ d.cls, ∀ f ∈ c.functions, f.WellNamed
  exports : ∀ b ∈ d.exports, d.Backed source b.localName
  default : ∀ v ∈ d.defaultExport, d.Backed source v

/-- `d'` declares all that `d` declares: its functions, its class under the same name with its
methods and the functions after it, and its statements. -/
structure Draft.Keeps (d d' : Draft) : Prop where
  functions : d.functions ⊆ d'.functions
  cls : ∀ c ∈ d.cls, ∃ c' ∈ d'.cls, c'.name = c.name ∧
    c.methods ++ c.trailing ⊆ c'.methods ++ c'.trailing
  statements : d.statements ⊆ d'.statements

namespace Draft

variable {source : String} {d d' : Draft} {v : String}

theorem Keeps.declaresName (hk : d.Keeps d') (h : d.DeclaresName v) : d'.DeclaresName v := by
  rcases h with ⟨f, hf, rfl⟩ | ⟨c, hc, hname | ⟨f, hf, rfl⟩⟩ | ⟨s, hs, ho⟩
  · exact .inl ⟨f, hk.functions hf, rfl⟩
  · obtain ⟨c', hc', hn, -⟩ := hk.cls c hc
    exact .inr (.inl ⟨c', hc', .inl (hn.trans hname)⟩)
  · obtain ⟨c', hc', -, hsub⟩ := hk.cls c hc
    exact .inr (.inl ⟨c', hc', .inr ⟨f, hsub hf, rfl⟩⟩)
  · exact .inr (.inr ⟨s, hk.statements hs, ho⟩)

theorem Keeps.backed (hk : d.Keeps d') (h : d.Backed source v) : d'.Backed source v :=
  h.imp hk.declaresName id

theorem declaresName_addFunction (d : Draft) (f : FunctionDecl) :
    { d with functions := d.functions ++ [f] }.DeclaresName f.name :=
  .inl ⟨f, List.mem_append_right _ (List.mem_singleton_self f), rfl⟩

theorem declaresName_addTrailing (d : Draft) (c : ClassDecl) (f : FunctionDecl) :
    { d with cls := some { c with trailing := c.trailing ++ [f] } }.DeclaresName f.name :=
  .inr (.inl ⟨_, rfl, .inr ⟨f, by simp, rfl⟩⟩)

theorem declaresName_setClass (d : Draft) (c : ClassDecl) :
    { d with cls := some c }.DeclaresName c.name :=
  .inr (.inl ⟨c, rfl, .inl rfl⟩)

theorem declaresName_addStatements (d : Draft) {stmts : List String} {s : String}
    (hs : s ∈ stmts) (ho : Bundle.OpensDeclaration s.toList v) :
    { d with statements := d.statements ++ stmts }.DeclaresName v :=
  .inr (.inr ⟨s, List.mem_append_right _ hs, ho⟩)

theorem named_empty (source : String) : ({} : Draft).Named source where
  imports _ h := nomatch h
  functions _ h := nomatch h
  className _ h := nomatch h
  classFunctions _ h := nomatch h
  exports _ h := nomatch h
  default _ h := nomatch h

/-! Each way reading changes a draft keeps it named. -/

namespace Named

theorem addImports (hd : d.Named source) {v : List Import}
    (hv : ∀ imp ∈ v, ∀ n ∈ imp.names, isIdentifier n.toList = true) :
    { d with imports := d.imports ++ v }.Named source where
  imports imp himp := by
    rcases List.mem_append.1 himp with h | h
    · exact hd.imports imp h
    · exact hv imp h
  functions := hd.functions
  className := hd.className
  classFunctions := hd.classFunctions
  exports := hd.exports
  default := hd.default

theorem addFunction (hd : d.Named source) {f : FunctionDecl} (hf : f.WellNamed) :
    { d with functions := d.functions ++ [f] }.Named source :=
  have hk : d.Keeps { d with functions := d.functions ++ [f] } :=
    ⟨List.subset_append_left _ _, fun c hc => ⟨c, hc, rfl, List.Subset.refl _⟩,
      List.Subset.refl _⟩
  { imports := hd.imports
    functions := fun g hg => by
      rcases List.mem_append.1 hg with hg | hg
      · exact hd.functions g hg
      · rw [List.mem_singleton.1 hg]
        exact hf
    className := hd.className
    classFunctions := hd.classFunctions
    exports := fun b hb => hk.backed (hd.exports b hb)
    default := fun v hv => hk.backed (hd.default v hv) }

theorem addTrailing (hd : d.Named source) {c : ClassDecl} (hcls : d.cls = some c)
    {f : FunctionDecl} (hf : f.WellNamed) :
    { d with cls := some { c with trailing := c.trailing ++ [f] } }.Named source := by
  have hc : c ∈ d.cls := by rw [hcls]; rfl
  have hk : d.Keeps { d with cls := some { c with trailing := c.trailing ++ [f] } } := by
    refine ⟨List.Subset.refl _, fun c₀ hc₀ => ?_, List.Subset.refl _⟩
    rw [hcls, Option.mem_some_iff] at hc₀
    subst hc₀
    refine ⟨_, rfl, rfl, fun g hg => ?_⟩
    simp only [List.mem_append] at hg ⊢
    tauto
  refine ⟨hd.imports, hd.functions, ?_, ?_, fun b hb => hk.backed (hd.exports b hb),
    fun v hv => hk.backed (hd.default v hv)⟩
  · intro c' hc'
    rw [← Option.mem_some_iff.1 hc']
    exact hd.className c hc
  · intro c' hc' g hg
    rw [← Option.mem_some_iff.1 hc'] at hg
    have hg' : g ∈ c.functions ∨ g = f := by simpa [ClassDecl.functions, or_assoc] using hg
    rcases hg' with hg' | rfl
    · exact hd.classFunctions c hc g hg'
    · exact hf

theorem setClass (hd : d.Named source) (hcls : d.cls = none) {c : ClassDecl}
    (hname : ∀ x ∈ c.name.toList, isIdentPart x = true) (hfs : ∀ f ∈ c.functions, f.WellNamed) :
    { d with cls := some c }.Named source :=
  have hk : d.Keeps { d with cls := some c } :=
    ⟨List.Subset.refl _, fun c₀ hc₀ => (by rw [hcls] at hc₀; cases hc₀), List.Subset.refl _⟩
  { imports := hd.imports
    functions := hd.functions
    className := fun c' hc' => by rw [Option.mem_some_iff.1 hc'] at hname; exact hname
    classFunctions := fun c' hc' => by rw [Option.mem_some_iff.1 hc'] at hfs; exact hfs
    exports := fun b hb => hk.backed (hd.exports b hb)
    default := fun v hv => hk.backed (hd.default v hv) }

theorem addStatements (hd : d.Named source) (stmts : List String) :
    { d with statements := d.statements ++ stmts }.Named source :=
  have hk : d.Keeps { d with statements := d.statements ++ stmts } :=
    ⟨List.Subset.refl _, fun c hc => ⟨c, hc, rfl, List.Subset.refl _⟩,
      List.subset_append_left _ _⟩
  { imports := hd.imports
    functions := hd.functions
    className := hd.className
    classFunctions := hd.classFunctions
    exports := fun b hb => hk.backed (hd.exports b hb)
    default := fun v hv => hk.backed (hd.default v hv) }

theorem addExport (hd : d.Named source) {b : ExportBinding} (hb : d.Backed source b.localName) :
    { d with exports := d.exports ++ [b] }.Named source where
  imports := hd.imports
  functions := hd.functions
  className := hd.className
  classFunctions := hd.classFunctions
  exports b' hb' := by
    rcases List.mem_append.1 hb' with hb' | hb'
    · exact hd.exports b' hb'
    · rw [List.mem_singleton.1 hb']
      exact hb
  default := hd.default

theorem setDefault (hd : d.Named source) (hv : d.Backed source v) :
    { d with defaultExport := some v }.Named source where
  imports := hd.imports
  functions := hd.functions
  className := hd.className
  classFunctions := hd.classFunctions
  exports := hd.exports
  default v' hv' := by
    rw [Option.mem_some_iff.1 hv'] at hv
    exact hv

end Named

end Draft

/-! ### What each item adds -/

theorem trim_spaces_append (j : Nat) (x : List Char) : trim (List.replicate j ' ' ++ x) = trim x := by
  rw [trim, trim, trimStart, trimStart, List.dropWhile_append_of_pos]
  intro c hc
  rw [List.eq_of_mem_replicate hc]
  decide

/-- The entries of an export list read on a line left to read are listed in the source. -/
theorem listedExport_of_remains {source : String} {l : Line} {later : List Line}
    (hl : Line.Remains (Line.ofSource source.toList) (l :: later)) {list : List Char}
    (hlist : Header.exportList? (trim l.text) = some list) :
    ∀ entry ∈ commaItems list, ∀ v : String, (words entry).head? = some v.toList →
      ListedExport source v := by
  obtain ⟨l₀, hsuf, -, j, k, ht⟩ := hl
  intro entry he v hv
  refine ⟨l₀, hsuf.subset List.mem_cons_self, k, list, ?_, entry, he, hv⟩
  rwa [ht, trim_spaces_append] at hlist

theorem ne_of_isBlank {c d : Char} (hc : isBlank c = true) (hd : isBlank d = false) : c ≠ d := by
  rintro rfl
  rw [hd] at hc
  cases hc

/-- What follows the name of `export const|let|var name` neither continues the name nor opens
a call. -/
theorem exportDeclaration_tail {c : Char} (h : isBlank c = true ∨ c = '=' ∨ c = ';') :
    isIdentPart c = false ∧ c ≠ '(' ∧ c ≠ '.' := by
  rcases h with h | rfl | rfl
  · exact ⟨Import.isIdentPart_of_isBlank h, ne_of_isBlank h (by decide),
      ne_of_isBlank h (by decide)⟩
  · exact ⟨by decide +kernel, by decide, by decide⟩
  · exact ⟨by decide +kernel, by decide, by decide⟩

/-- The indentation of a line without `\n` is blanks other than `\n`. -/
theorem indentation_blank_of_line {text : List Char} (hnl : '\n' ∉ text) :
    ∀ c ∈ text.take (indentation text), isBlank c = true ∧ c ≠ '\n' :=
  fun _ hc => ⟨mem_take_indentation hc, fun hn => hnl (hn ▸ List.mem_of_mem_take hc)⟩

/-- The statement `export const|let|var name …` is kept as opens the declaration of `name`. -/
theorem opensDeclaration_exportDeclaration {text name : List Char} (hnl : '\n' ∉ text)
    (h : Header.exportDeclaration? (trim text) = some name) :
    Bundle.OpensDeclaration (text.take (indentation text) ++ trimStart ((trim text).drop 6))
      (String.ofList name) := by
  obtain ⟨b, rest, kw, sp, tail, ht, hb, hsplit, hkw, hsp, hspb, hname, htail⟩ :=
    Header.exportDeclaration?_spec h
  have hdrop : trimStart ((trim text).drop 6) = trimStart rest := by
    rw [ht]
    simp [trimStart, hb]
  -- the blanks after the keyword are on the line, so none is `\n`
  have hsp' : ∀ c ∈ sp, c ≠ '\n' := by
    intro c hc hn
    have hr : c ∈ trimStart rest := by
      rw [hsplit]
      simp [hc]
    have ht' : c ∈ trim text := by
      rw [ht]
      exact List.mem_append_right _ (List.mem_cons_of_mem b ((List.dropWhile_suffix _).subset hr))
    exact hnl (hn ▸ (Import.trim_sublist text).subset ht')
  refine ⟨text.take (indentation text), kw, sp, tail, ?_, hkw, ?_, hsp, ?_,
    fun c hc => exportDeclaration_tail (htail c hc)⟩
  · rw [hdrop, hsplit, String.toList_ofList]
    simp only [List.append_assoc]
  · intro c hc
    rcases List.mem_append.1 hc with hc | hc
    · exact indentation_blank_of_line hnl c hc
    · exact ⟨hspb c hc, hsp' c hc⟩
  · simpa using hname

/-- The statement `export default …` is kept as opens the declaration of `__default`. -/
theorem opensDeclaration_exportDefault {text r : List Char} (hnl : '\n' ∉ text) :
    Bundle.OpensDeclaration
      (text.take (indentation text) ++ ("const " ++ anonymousDefault ++ " = ").toList ++ r)
      anonymousDefault := by
  refine ⟨text.take (indentation text), "const", [' '], " = ".toList ++ r, ?_, by simp, ?_,
    List.cons_ne_nil _ _, List.all_eq_true.1 (by decide +kernel), ?_⟩
  · simp [anonymousDefault]
  · intro c hc
    rcases List.mem_append.1 hc with hc | hc
    · exact indentation_blank_of_line hnl c hc
    · rw [List.mem_singleton.1 hc]
      decide
  · intro c hc
    have hc' : ' ' = c := by simpa using hc
    subst hc'
    exact exportDeclaration_tail (.inl (by decide))

/-- A property that each step of a fold over the elements of `xs` keeps holds of its result. -/
theorem foldlM_invariant_mem {α β ε : Type} (P : α → Prop) {f : α → β → Except ε α}
    {xs : List β} (hf : ∀ a b a', b ∈ xs → f a b = .ok a' → P a → P a') {a a' : α}
    (h : xs.foldlM f a = .ok a') (ha : P a) : P a' := by
  rw [← List.unattach_attach (l := xs),
    ← List.foldlM_subtype (f := fun a b => f a b.1) (fun _ _ _ => rfl)] at h
  exact foldlM_invariant P (fun a b a' hb => hf a b.1 a' b.2 hb) h ha

namespace Draft.Named

variable {source : String} {d d' : Draft} {l : Line} {later : List Line} {n : Nat}

/-- An export list records the first words of its entries, as bindings or as the default
export. -/
theorem afterExportList (hd : d.Named source) {no : Nat} {list : List Char}
    (hlisted : ∀ entry ∈ commaItems list, ∀ v : String, (words entry).head? = some v.toList →
      ListedExport source v)
    (h : exportList d no list = .ok d') : d'.Named source := by
  refine foldlM_invariant_mem (Draft.Named source) (fun a entry a' hmem hstep ha => ?_) h hd
  dsimp only at hstep
  split at hstep
  · cases hstep
  · rename_i b hb
    -- the local name of the binding is the first word of the entry
    have hhead : (words entry).head? = some b.localName.toList := by
      split at hb
      · rename_i name hw
        cases hb
        simp [hw]
      · rename_i name as exported hw
        split at hb
        · cases hb
          simp [hw]
        · cases hb
      · cases hb
    have hlocal := hlisted entry hmem _ hhead
    split at hstep <;> cases hstep
    · exact ha.setDefault (.inr hlocal)
    · exact ha.addExport (.inr hlocal)

theorem afterImport (hd : d.Named source) (h : importItem d l later = .ok (d', n)) :
    d'.Named source := by
  unfold importItem at h
  dsimp only at h
  split at h
  · cases h
  · split at h
    · rename_i imports himports
      cases h
      exact hd.addImports (Import.ofStatement_names himports)
    · cases h

/-- A function item adds a well-named function, before the class or after it, and perhaps
makes it the default export. -/
theorem afterFunction (hd : d.Named source) {h : Header.FunctionHeader}
    (hh : Header.function? (trim l.text) = some h) (hi : functionItem d l later h = .ok (d', n)) :
    d'.Named source := by
  unfold functionItem at hi
  dsimp only at hi
  split at hi
  · cases hi
  · rename_i f extra hfa
    have hname : ∀ c ∈ (String.ofList h.name).toList, isIdentPart c = true := by
      simpa using Header.function?_name hh
    obtain ⟨hfn, hf⟩ :=
      Line.functionAt_wellNamed hname (getElem?_of_trim (Header.function?_paren hh)) hfa
    cases hdef : h.isDefault <;> cases hcls : d.cls <;>
      simp only [hdef, hcls, Bool.false_eq_true, ↓reduceIte] at hi <;> cases hi
    · rw [← hcls]
      exact hd.addFunction hf
    · exact hd.addTrailing hcls hf
    · rw [← hcls]
      exact (hd.addFunction hf).setDefault (.inl (hfn ▸ declaresName_addFunction d f))
    · exact (hd.addTrailing hcls hf).setDefault (.inl (hfn ▸ declaresName_addTrailing d _ f))

/-- A class item sets a class with a well-named name, constructor and methods, and no function
after it yet, and perhaps makes it the default export. -/
theorem afterClass (hd : d.Named source) {h : Header.ClassHeader}
    (hh : Header.class? (trim l.text) = some h) (hi : classItem d l later h = .ok (d', n)) :
    d'.Named source := by
  unfold classItem at hi
  dsimp only at hi
  split at hi
  · cases hi
  · rename_i hcls
    split at hi
    · cases hi
    · split at hi
      · cases hi
      · split at hi
        · cases hi
        · split at hi
          · cases hi
          · rename_i c hc
            obtain ⟨hname, -, -, htrail⟩ := members_keeps hc
            have hname : c.name = String.ofList h.name := hname
            have hnamed : { d with cls := some c }.Named source := by
              refine hd.setClass hcls ?_ fun f hf => ?_
              · rw [hname]
                simpa using Header.class?_name hh
              · rw [ClassDecl.functions, htrail, List.append_nil] at hf
                exact members_wellNamed hc (by simp) f hf
            split at hi <;> cases hi
            · exact hnamed.setDefault (.inl (hname ▸ declaresName_setClass d c))
            · exact hnamed

/-- Any other item adds statements, the first of which opens the declaration of the binding or
the default export it adds, or records an export list. -/
theorem afterStatement (hd : d.Named source)
    (hl : Line.Remains (Line.ofSource source.toList) (l :: later))
    (hi : statementItem d l later = .ok (d', n)) : d'.Named source := by
  have hnl := hl.newline_not_mem
  unfold statementItem at hi
  dsimp only at hi
  split at hi
  · rename_i list hlist
    cases hx : exportList d l.number list with
    | error e =>
      rw [hx] at hi
      cases hi
    | ok d₁ =>
      rw [hx] at hi
      cases hi
      exact hd.afterExportList (listedExport_of_remains hl hlist) hx
  · split at hi
    · cases hi
    · rename_i first d₁ hstart
      -- what the first line adds besides itself, and the declaration it opens for that
      have hadd : d₁ = d ∨ ∃ v, Bundle.OpensDeclaration first v ∧
          (d₁ = { d with exports := d.exports ++ [⟨v, v⟩] } ∨
            d₁ = { d with defaultExport := some v }) := by
        split at hstart
        · cases hstart
          exact .inr ⟨_, opensDeclaration_exportDeclaration hnl ‹_›, .inl rfl⟩
        · split at hstart
          · cases hstart
            exact .inr ⟨_, opensDeclaration_exportDefault hnl, .inr rfl⟩
          · split at hstart <;> cases hstart
            exact .inl rfl
      split at hi
      · cases hi
      · split at hi
        · cases hi
        · rename_i stmts extra hrest
          cases hi
          have hfirst : String.ofList first ∈ stmts :=
            (statementRest_extends hrest).subset (List.mem_singleton_self _)
          have hdecl : ∀ v, Bundle.OpensDeclaration first v →
              { d with statements := d.statements ++ stmts }.Backed source v :=
            fun v ho => .inl (declaresName_addStatements d hfirst (by simpa using ho))
          rcases hadd with rfl | ⟨v, ho, rfl | rfl⟩
          · exact hd.addStatements stmts
          · exact (hd.addStatements stmts).addExport (hdecl v ho)
          · exact (hd.addStatements stmts).setDefault (hdecl v ho)

theorem afterItem (hd : d.Named source)
    (hl : Line.Remains (Line.ofSource source.toList) (l :: later))
    (h : item d l later = .ok (d', n)) : d'.Named source := by
  unfold item at h
  dsimp only at h
  split at h
  · exact hd.afterImport h
  · split at h
    · cases h
    · split at h
      · exact hd.afterFunction ‹_› h
      · split at h
        · exact hd.afterClass ‹_› h
        · exact hd.afterStatement hl h

end Draft.Named

/-- Reading keeps a draft named, from the empty draft on. -/
theorem items_named {source : String} {d : Draft}
    (h : items {} (Line.ofSource source.toList) = .ok d) : d.Named source :=
  (items_invariant (fun d ls => d.Named source ∧ Line.Remains (Line.ofSource source.toList) ls)
    (fun _ _ _ h => ⟨h.1, h.2.tail⟩) (fun _ _ _ _ hc h => ⟨h.1, h.2.leadingComment hc⟩)
    (fun _ _ _ _ _ hi h => ⟨h.1.afterItem h.2 hi, h.2.drop _⟩) h
    ⟨Draft.named_empty source, Line.remains_self _⟩).1

/-! ### Read and parsed modules -/

/-- A read module is well named, its imports bind identifiers, and its export bindings and
default export stand for names it declares or names export lists of the source give. -/
theorem read_named {path source : String} {m : Module} (h : read path source = .ok m) :
    m.WellNamed ∧ (∀ imp ∈ m.imports, ∀ n ∈ imp.names, isIdentifier n.toList = true) ∧
      (∀ b ∈ m.exports, m.DeclaresName b.localName ∨ ListedExport source b.localName) ∧
      ∀ v ∈ m.defaultExport, m.DeclaresName v ∨ ListedExport source v := by
  unfold read at h
  split at h
  · cases h
  · rename_i d hd
    cases h
    have hn := items_named hd
    exact ⟨⟨hn.functions, hn.className, hn.classFunctions⟩, hn.imports, hn.exports, hn.default⟩

/-- The bindings of imports that bind identifiers have names made of name characters. -/
theorem localName_of_ofImports {imports : List Import}
    (h : ∀ imp ∈ imports, ∀ n ∈ imp.names, isIdentifier n.toList = true) :
    ∀ b ∈ Binding.ofImports imports, ∀ c ∈ b.localName.toList, isIdentPart c = true := by
  intro b hb c hc
  simp only [Binding.ofImports, List.mem_flatMap, List.mem_map] at hb
  obtain ⟨imp, himp, n, hn, rfl⟩ := hb
  exact (Import.isIdentPart_of_isIdentifier (h imp himp n hn)).2 c hc

end Module

/-- Redirecting call sites changes no name and no parameter list. -/
theorem FunctionDecl.WellNamed.redirectCalls {f : FunctionDecl} (h : f.WellNamed)
    (bs : List Binding) (mode : Scoping) : (f.redirectCalls bs mode).WellNamed :=
  ⟨h.name, h.params⟩

namespace Module

theorem WellNamed.redirectCalls {m : Module} (h : m.WellNamed) (mode : Scoping) :
    (m.redirectCalls mode).WellNamed := by
  refine ⟨fun f hf => ?_, fun c hc => ?_, fun c hc f hf => ?_⟩
  · obtain ⟨f₀, hf₀, rfl⟩ := List.mem_map.1 hf
    exact (h.functions f₀ hf₀).redirectCalls _ mode
  · obtain ⟨c₀, hc₀, rfl⟩ := Option.mem_map.1 hc
    exact h.className c₀ hc₀
  · obtain ⟨c₀, hc₀, rfl⟩ := Option.mem_map.1 hc
    rw [ClassDecl.functions_mapFunctions] at hf
    obtain ⟨f₀, hf₀, rfl⟩ := List.mem_map.1 hf
    exact (h.classFunctions c₀ hc₀ f₀ hf₀).redirectCalls _ mode

/-- Redirecting call sites keeps every declaration, when the imports bind identifiers. -/
theorem DeclaresName.redirectCalls {m : Module} {v : String}
    (hi : ∀ imp ∈ m.imports, ∀ n ∈ imp.names, isIdentifier n.toList = true)
    (h : m.DeclaresName v) (mode : Scoping) : (m.redirectCalls mode).DeclaresName v := by
  rcases h with ⟨f, hf, rfl⟩ | ⟨c, hc, hname⟩ | ⟨s, hs, ho⟩
  · exact .inl ⟨_, List.mem_map_of_mem hf, rfl⟩
  · refine .inr (.inl ⟨_, Option.mem_map_of_mem _ hc, ?_⟩)
    rcases hname with hname | ⟨f, hf, rfl⟩
    · exact .inl hname
    · refine .inr ⟨f.redirectCalls (Binding.ofImports m.imports) mode, ?_, rfl⟩
      simp only [ClassDecl.mapFunctions, ← List.map_append]
      exact List.mem_map_of_mem hf
  · refine .inr (.inr ⟨_, List.mem_map_of_mem hs, ?_⟩)
    rw [String.toList_ofList]
    exact ho.redirectLine (localName_of_ofImports hi)

end Module

namespace Bundle

/-- The object a parsed module's factory returns has distinct keys: the exported functions, the
class and its methods when the class is exported or the default export, the exported functions
after the class, the names of the export bindings, and `default` when there is a default
export. Each key maps to the first value offered under it. Every value is a name the factory
declares on a line of its own (a function or constructor it writes, or a statement that opens
`const|let|var <name>`), or the first word of an entry of an `export { … }` list of the
source: export lists are recorded without looking for a declaration. -/
theorem parse_exportProperties_declared {path source : String} {mode : Scoping} {m : Module}
    (h : Module.parse path source mode = .ok m) :
    ((exportProperties m).map Prod.fst).Nodup ∧
      (∀ k, k ∈ (exportProperties m).map Prod.fst ↔ ExportsName m k) ∧
      (∀ p ∈ exportProperties m, (exportCandidates m).find? (·.1 == p.1) = some p) ∧
      ∀ p ∈ exportProperties m, Declares (factoryBody m) p.2 ∨ Module.ListedExport source p.2 := by
  obtain ⟨hnd, hkeys, hfirst⟩ := exportProperties_spec m
  refine ⟨hnd, hkeys, hfirst, fun p hp => ?_⟩
  obtain ⟨m₀, hread, rfl⟩ := Module.parse_eq_ok h
  obtain ⟨hwn, himp, hexp, hdef⟩ := Module.read_named hread
  have hwn' := hwn.redirectCalls mode
  -- a name the read module declares is declared by the factory of the parsed one
  have hback : ∀ v, m₀.DeclaresName v ∨ Module.ListedExport source v →
      Declares (factoryBody (m₀.redirectCalls mode)) v ∨ Module.ListedExport source v :=
    fun v => Or.imp (fun hv => factoryBody_declares hwn' (hv.redirectCalls himp mode)) id
  rcases value_of_mem_exportCandidates (List.mem_of_find?_eq_some (hfirst p hp)) with
    ⟨f, hf, hn⟩ | ⟨c, hc, hn⟩ | ⟨b, hb, hn⟩ | hd
  · exact .inl (factoryBody_declares hwn' (.inl ⟨f, hf, hn⟩))
  · exact .inl (factoryBody_declares hwn' (.inr (.inl ⟨c, hc, hn⟩)))
  · rw [← hn]
    exact hback _ (hexp b hb)
  · exact hback _ (hdef _ hd)

/-- A line declares a name only when, its blanks dropped, it opens with a declaration keyword. -/
theorem DeclaresLine.keyword {line : List Char} {v : String} (h : DeclaresLine line v) :
    ∃ kw ∈ declarationKeywords, kw.toList <+: trimStart line := by
  obtain ⟨kw, hkw, sp, rest, ht, -⟩ := h
  exact ⟨kw, hkw, ⟨sp ++ v.toList ++ rest, by rw [ht]; simp⟩⟩

/-- A module that imports `x` and lists it for export, read item by item. -/
theorem parse_reexported_import :
    Module.parse "m.js" "import { x } from './a.js';\nexport { x };\n" .textual =
      .ok { name := Module.factoryName "m.js", path := "m.js",
            imports := [⟨.named, "./a.js", ["x"], [], 1⟩], exports := [⟨"x", "x"⟩] } := by
  have hlines : Line.ofSource "import { x } from './a.js';\nexport { x };\n".toList =
      [⟨1, "import { x } from './a.js';".toList⟩, ⟨2, "export { x };".toList⟩] := by decide +kernel
  -- the import line, then the export list
  have h₁ : Module.item {} ⟨1, "import { x } from './a.js';".toList⟩ [⟨2, "export { x };".toList⟩] =
      .ok ({ imports := [⟨.named, "./a.js", ["x"], [], 1⟩] }, 0) := by
    decide +kernel
  have h₂ : Module.item { imports := [⟨.named, "./a.js", ["x"], [], 1⟩] }
      ⟨2, "export { x };".toList⟩ [] =
      .ok ({ imports := [⟨.named, "./a.js", ["x"], [], 1⟩], exports := [⟨"x", "x"⟩] }, 0) := by
    decide +kernel
  have hitems : Module.items {} (Line.ofSource "import { x } from './a.js';\nexport { x };\n".toList) =
      .ok { imports := [⟨.named, "./a.js", ["x"], [], 1⟩], exports := [⟨"x", "x"⟩] } := by
    rw [hlines, Module.items_of_item (by unfold Module.Skipped; decide +kernel) (by decide +kernel) h₁,
      List.drop_succ_cons, List.drop_zero,
      Module.items_of_item (by unfold Module.Skipped; decide +kernel) (by decide +kernel) h₂,
      List.drop_succ_cons, List.drop_zero, Module.items]
  unfold Module.parse Module.read
  rw [hitems]
  rfl

/-- A module that imports `x` and lists it for export returns `x` under `x`, and its factory
declares no `x`: the value is backed only by the export list. -/
theorem reexported_import_listed :
    ∃ m, Module.parse "m.js" "import { x } from './a.js';\nexport { x };\n" .textual = .ok m ∧
      ("x", "x") ∈ exportProperties m ∧ ¬ Declares (factoryBody m) "x" ∧
      Module.ListedExport "import { x } from './a.js';\nexport { x };\n" "x" := by
  have hx : ("x", "x") ∈ exportProperties
      { name := Module.factoryName "m.js", path := "m.js",
        imports := [⟨.named, "./a.js", ["x"], [], 1⟩], exports := [⟨"x", "x"⟩] } := by
    decide +kernel
  have hnd : ¬ Declares (factoryBody
      { name := Module.factoryName "m.js", path := "m.js",
        imports := [⟨.named, "./a.js", ["x"], [], 1⟩], exports := [⟨"x", "x"⟩] }) "x" := by
    -- no line of the factory opens with a declaration keyword
    rintro ⟨line, hl, hd⟩
    obtain ⟨kw, hkw, hp⟩ := hd.keyword
    clear hd
    revert line kw
    decide +kernel
  exact ⟨_, parse_reexported_import, hx, hnd,
    ((parse_exportProperties_declared parse_reexported_import).2.2.2 _ hx).resolve_left hnd⟩

end Bundle

end ModuleBundler
