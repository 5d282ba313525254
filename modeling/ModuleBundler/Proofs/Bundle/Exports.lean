import ModuleBundler.Proofs.Bundle.Scaffold
import ModuleBundler.Proofs.Import.Text
import Mathlib

/-!
The object a factory returns, and the names a factory declares.

`exportProperties` offers the names a module exports one after another (`exportCandidates`)
and adds a name only the first time it is offered: its names are distinct, they are the names
the module exports (`ExportsName`), and each comes with the value of the first offer of it
(`exportProperties_spec`).

A factory declares a name on a line that, after its indentation, opens with `function`,
`async function`, `let`, `const` or `var`, blanks and the name, with no character of a name
after it (`Declares`). The factory declares each function, method and function after the class
under its name, the class under the name of its constructor, and each name a statement opens a
declaration of (`factoryBody_declares`).
-/

namespace ModuleBundler

open ModuleBundler.Text ModuleBundler.Syntax ModuleBundler.Brace

namespace Bundle

/-! ### The first value offered for a name -/

section AddProperty

variable {props l : List (String × String)} {p q : String × String} {k : String}

theorem any_key_iff (props : List (String × String)) (k : String) :
    props.any (·.1 = k) = true ↔ k ∈ props.map Prod.fst := by
  simp [List.any_eq_true]

theorem addProperty_of_mem (h : p.1 ∈ props.map Prod.fst) : addProperty props p = props := by
  rw [addProperty, if_pos ((any_key_iff props p.1).2 h)]

theorem addProperty_of_not_mem (h : p.1 ∉ props.map Prod.fst) :
    addProperty props p = props ++ [p] := by
  rw [addProperty, if_neg (mt (any_key_iff props p.1).1 h)]

theorem nodup_keys_addProperty (h : (props.map Prod.fst).Nodup) :
    ((addProperty props p).map Prod.fst).Nodup := by
  by_cases hp : p.1 ∈ props.map Prod.fst
  · rwa [addProperty_of_mem hp]
  · rw [addProperty_of_not_mem hp, List.map_append, List.nodup_append]
    refine ⟨h, List.nodup_singleton _, ?_⟩
    intro a ha b hb
    rw [List.map_cons, List.map_nil, List.mem_singleton] at hb
    rintro rfl
    exact hp (hb ▸ ha)

/-- Adding a property and then the rest finds, for each name, what adding all of them after the
properties so far would find first. -/
theorem find?_addProperty_append (props l : List (String × String)) (q : String × String)
    (k : String) :
    (addProperty props q ++ l).find? (·.1 == k) = (props ++ q :: l).find? (·.1 == k) := by
  by_cases hq : q.1 ∈ props.map Prod.fst
  · rw [addProperty_of_mem hq, List.find?_append, List.find?_append]
    cases hf : props.find? (·.1 == k) with
    | some r => rfl
    | none =>
      -- no property so far has the name `k`, and one has the name of `q`
      have hk : q.1 ≠ k := by
        rintro rfl
        obtain ⟨r, hr, hrq⟩ := List.mem_map.1 hq
        exact absurd hf (List.find?_isSome.2 ⟨r, hr, by simpa using hrq⟩ |> Option.isSome_iff_ne_none.1)
      simp [hk]
  · rw [addProperty_of_not_mem hq, List.append_assoc, List.singleton_append]

/-- In properties with distinct names, each is the first of its name. -/
theorem find?_of_nodup_keys (h : (props.map Prod.fst).Nodup) (hp : p ∈ props) :
    props.find? (·.1 == p.1) = some p := by
  induction props with
  | nil => cases hp
  | cons r props ih =>
    rw [List.map_cons, List.nodup_cons] at h
    rcases List.mem_cons.1 hp with rfl | hp
    · simp
    · have hr : r.1 ≠ p.1 := fun he => h.1 (he ▸ List.mem_map_of_mem hp)
      rw [List.find?_cons, show (r.1 == p.1) = false by simpa using hr]
      exact ih h.2 hp

theorem nodup_keys_foldl (h : (props.map Prod.fst).Nodup) :
    ((l.foldl addProperty props).map Prod.fst).Nodup := by
  induction l generalizing props with
  | nil => exact h
  | cons q l ih => exact ih (nodup_keys_addProperty h)

theorem mem_keys_foldl :
    k ∈ (l.foldl addProperty props).map Prod.fst ↔ k ∈ props.map Prod.fst ∨ k ∈ l.map Prod.fst := by
  induction l generalizing props with
  | nil => simp
  | cons q l ih =>
    rw [List.foldl_cons, ih, List.map_cons, List.mem_cons]
    by_cases hq : q.1 ∈ props.map Prod.fst
    · rw [addProperty_of_mem hq]
      constructor
      · rintro (h | h)
        · exact .inl h
        · exact .inr (.inr h)
      · rintro (h | rfl | h)
        · exact .inl h
        · exact .inl hq
        · exact .inr h
    · rw [addProperty_of_not_mem hq, List.map_append, List.mem_append, List.map_cons,
        List.map_nil, List.mem_singleton, or_assoc]

/-- Each property added is the first offer of its name among the properties so far and those
offered. -/
theorem find?_of_mem_foldl (h : (props.map Prod.fst).Nodup) (hp : p ∈ l.foldl addProperty props) :
    (props ++ l).find? (·.1 == p.1) = some p := by
  induction l generalizing props with
  | nil => simpa using find?_of_nodup_keys h hp
  | cons q l ih =>
    rw [← find?_addProperty_append]
    exact ih (nodup_keys_addProperty h) hp

end AddProperty

/-- The properties `exportProperties` offers, in the order it offers them. -/
def exportCandidates (m : Module) : List (String × String) :=
  let own (f : FunctionDecl) : String × String := (f.name, f.name)
  let classProps := match m.cls with
    | some c =>
      (if c.exported || m.defaultExport = some c.name then (c.name, c.name) :: c.methods.map own
       else []) ++ (c.trailing.filter (·.exported)).map own
    | none => []
  (m.functions.filter (·.exported)).map own ++ classProps ++
    m.exports.map (fun b => (b.exported, b.localName)) ++
    (m.defaultExport.map fun l => (defaultMemberName, l)).toList

theorem exportProperties_eq_foldl (m : Module) :
    exportProperties m = (exportCandidates m).foldl addProperty [] := rfl

/-- The names a module exports: its exported functions, the class and its methods when the
class is exported or the default export, the exported functions after the class, the names of
its export bindings, and `default` when it has a default export. -/
def ExportsName (m : Module) (k : String) : Prop :=
  (∃ f ∈ m.functions, f.exported = true ∧ f.name = k) ∨
    (∃ c, m.cls = some c ∧
      (((c.exported = true ∨ m.defaultExport = some c.name) ∧
          (c.name = k ∨ ∃ f ∈ c.methods, f.name = k)) ∨
        ∃ f ∈ c.trailing, f.exported = true ∧ f.name = k)) ∨
    (∃ b ∈ m.exports, b.exported = k) ∨
    (k = defaultMemberName ∧ m.defaultExport ≠ none)

theorem mem_keys_exportCandidates (m : Module) (k : String) :
    k ∈ (exportCandidates m).map Prod.fst ↔ ExportsName m k := by
  unfold exportCandidates ExportsName
  have hd : (∃ x, m.defaultExport = some x) ∧ defaultMemberName = k ↔
      k = defaultMemberName ∧ m.defaultExport ≠ none := by
    rw [Option.ne_none_iff_exists', eq_comm, and_comm]
  cases hc : m.cls with
  | none => simp [and_assoc, hd]
  | some c =>
    by_cases he : c.exported = true ∨ m.defaultExport = some c.name
    · have he' : (c.exported || decide (m.defaultExport = some c.name)) = true := by simpa using he
      simp [he', he, and_assoc, hd, eq_comm (a := k), or_assoc]
    · have he' : (c.exported || decide (m.defaultExport = some c.name)) = false := by simpa using he
      simp [he', he, and_assoc, hd]

/-- Every value offered is the name of a function, of the class, of a method or of a function
after the class, the local name of an export binding, or the default export. -/
theorem value_of_mem_exportCandidates {m : Module} {p : String × String}
    (hp : p ∈ exportCandidates m) :
    (∃ f ∈ m.functions, f.name = p.2) ∨
      (∃ c, m.cls = some c ∧ (c.name = p.2 ∨ ∃ f ∈ c.methods ++ c.trailing, f.name = p.2)) ∨
      (∃ b ∈ m.exports, b.localName = p.2) ∨ m.defaultExport = some p.2 := by
  unfold exportCandidates at hp
  cases hc : m.cls with
  | none =>
    simp only [hc, List.append_nil, List.mem_append, List.mem_map, List.mem_filter,
      Option.mem_toList, Option.map_eq_some_iff] at hp
    rcases hp with ((⟨f, ⟨hf, -⟩, rfl⟩ | ⟨b, hb, rfl⟩) | ⟨l, hl, rfl⟩)
    · exact .inl ⟨f, hf, rfl⟩
    · exact .inr (.inr (.inl ⟨b, hb, rfl⟩))
    · exact .inr (.inr (.inr hl))
  | some c =>
    simp only [hc, List.mem_append, List.mem_map, List.mem_filter, Option.mem_toList,
      Option.map_eq_some_iff] at hp
    rcases hp with (((⟨f, ⟨hf, -⟩, rfl⟩ | hcls | ⟨f, ⟨hf, -⟩, rfl⟩) | ⟨b, hb, rfl⟩) | ⟨l, hl, rfl⟩)
    · exact .inl ⟨f, hf, rfl⟩
    · split at hcls
      · rcases List.mem_cons.1 hcls with rfl | hm
        · exact .inr (.inl ⟨c, rfl, .inl rfl⟩)
        · obtain ⟨f, hf, rfl⟩ := List.mem_map.1 hm
          exact .inr (.inl ⟨c, rfl, .inr ⟨f, List.mem_append_left _ hf, rfl⟩⟩)
      · cases hcls
    · exact .inr (.inl ⟨c, rfl, .inr ⟨f, List.mem_append_right _ hf, rfl⟩⟩)
    · exact .inr (.inr (.inl ⟨b, hb, rfl⟩))
    · exact .inr (.inr (.inr hl))

/-- The object's names are distinct and are the names the module exports, and each has the
value of the first offer of its name. -/
theorem exportProperties_spec (m : Module) :
    ((exportProperties m).map Prod.fst).Nodup ∧
      (∀ k, k ∈ (exportProperties m).map Prod.fst ↔ ExportsName m k) ∧
      ∀ p ∈ exportProperties m, (exportCandidates m).find? (·.1 == p.1) = some p := by
  rw [exportProperties_eq_foldl]
  have hnil : (([] : List (String × String)).map Prod.fst).Nodup := List.nodup_nil
  refine ⟨nodup_keys_foldl hnil, fun k => ?_, fun p hp => ?_⟩
  · rw [mem_keys_foldl, ← mem_keys_exportCandidates]
    simp
  · simpa using find?_of_mem_foldl hnil hp

/-! ### Names a factory declares -/

/-- The keywords that open a declaration in a factory. -/
def declarationKeywords : List String := ["function", "async function", "let", "const", "var"]

/-- A line declares `v`: after its indentation it opens with a declaration keyword, blanks and
`v`, and no character of a name follows `v`. -/
def DeclaresLine (line : List Char) (v : String) : Prop :=
  ∃ kw ∈ declarationKeywords, ∃ sp rest, trimStart line = kw.toList ++ sp ++ v.toList ++ rest ∧
    sp ≠ [] ∧ (∀ c ∈ sp, isBlank c = true) ∧ ∀ c ∈ rest.head?, isIdentPart c = false

/-- A text declares `v` on one of its lines. -/
def Declares (text v : String) : Prop :=
  ∃ line ∈ text.toList.splitOn '\n', DeclaresLine line v

/-- A statement opens a declaration of `v`: indentation, `const`, `let` or `var`, blanks and
`v`, after which comes no character of a name, no `(` and no `.`. -/
def OpensDeclaration (x : List Char) (v : String) : Prop :=
  ∃ ind kw sp rest, x = ind ++ kw.toList ++ sp ++ v.toList ++ rest ∧ kw ∈ ["const", "let", "var"] ∧
    (∀ c ∈ ind ++ sp, isBlank c = true ∧ c ≠ '\n') ∧ sp ≠ [] ∧
    (∀ c ∈ v.toList, isIdentPart c = true) ∧
    ∀ c ∈ rest.head?, isIdentPart c = false ∧ c ≠ '(' ∧ c ≠ '.'

theorem head?_splitOn_newline (cs : List Char) :
    (cs.splitOn '\n').head? = some (cs.takeWhile (· != '\n')) := by
  induction cs with
  | nil => rfl
  | cons c cs ih =>
    rw [List.splitOn_cons_eq_if_modifyHead, List.takeWhile_cons]
    by_cases hc : c = '\n'
    · subst hc
      simp
    · obtain ⟨x, xs, hx⟩ := List.exists_cons_of_ne_nil (List.splitOn_ne_nil '\n' cs)
      rw [hx, List.head?_cons, Option.some.injEq] at ih
      simp [hc, hx, ih]

/-- After a line break, or at the start, a line of a text runs up to the next line break. -/
theorem takeWhile_mem_splitOn {pre : List Char} (hpre : pre.getLast? = some '\n' ∨ pre = [])
    (x : List Char) : x.takeWhile (· != '\n') ∈ (pre ++ x).splitOn '\n' := by
  rcases hpre with hpre | rfl
  · obtain ⟨p, rfl⟩ := List.getLast?_eq_some_iff.1 hpre
    rw [List.append_assoc, List.singleton_append, splitOn_append_newline]
    exact List.mem_append_right _ (List.mem_of_mem_head? (head?_splitOn_newline x))
  · exact List.mem_of_mem_head? (head?_splitOn_newline x)

theorem takeWhile_append_newline (x y : List Char) :
    (x ++ '\n' :: y).takeWhile (· != '\n') = x.takeWhile (· != '\n') := by
  rw [List.takeWhile_append]
  split
  · rename_i h
    have hp : x.takeWhile (· != '\n') <+: x := List.takeWhile_prefix _
    have hall := List.takeWhile_eq_self_iff.1 (hp.eq_of_length h)
    rw [List.takeWhile_eq_self_iff.2 hall]
    simp
  · rfl

/-- A text declares a name on the first line of a piece that starts a line. -/
theorem declares_of_line {A x B : String} (hA : EndsLine A) {P Q : List Char}
    (hx : x.toList = P ++ '\n' :: Q) {v : String} (h : DeclaresLine (P.takeWhile (· != '\n')) v) :
    Declares (A ++ x ++ B) v := by
  refine ⟨_, ?_, h⟩
  have hpre : A.toList.getLast? = some '\n' ∨ A.toList = [] := by
    rcases hA with hA | rfl
    · exact .inl hA
    · exact .inr rfl
  have hm := takeWhile_mem_splitOn hpre (P ++ '\n' :: (Q ++ B.toList))
  rw [takeWhile_append_newline] at hm
  rw [String.toList_append, String.toList_append, hx]
  simpa only [List.append_assoc, List.cons_append] using hm

/-- A text declares a name on the first line of one of the pieces of a join that starts it. -/
theorem declares_of_mem_join {A B : String} (hA : EndsLine A) {ts : List String}
    (hts : ∀ t ∈ ts, EndsLine t) {x : String} (hx : x ∈ ts) {P Q : List Char}
    (hxs : x.toList = P ++ '\n' :: Q) {v : String} (h : DeclaresLine (P.takeWhile (· != '\n')) v) :
    Declares (A ++ String.join ts ++ B) v := by
  obtain ⟨s, t, rfl⟩ := List.append_of_mem hx
  have hs : EndsLine (A ++ String.join s) :=
    hA.append (endsLine_join fun y hy => hts y (List.mem_append_left _ hy))
  have hd := declares_of_line (B := String.join t ++ B) hs hxs h
  simpa only [String.join_append, String.join_cons, String.append_assoc] using hd

theorem trimStart_blanks_append {ind y : List Char} (hind : ∀ c ∈ ind, isBlank c = true)
    (hy : ∀ c ∈ y.head?, isBlank c = false) : trimStart (ind ++ y) = y := by
  rw [trimStart, List.dropWhile_append_of_pos hind]
  exact Import.trimStart_of_head hy

theorem declarationKeywords_spec :
    ∀ kw ∈ declarationKeywords, '\n' ∉ kw.toList ∧ ∃ c cs, kw.toList = c :: cs ∧ isBlank c = false := by
  simp only [declarationKeywords, List.mem_cons, List.not_mem_nil, or_false, forall_eq_or_imp,
    forall_eq]
  refine ⟨⟨by decide, 'f', _, rfl, by decide⟩, ⟨by decide, 'a', _, rfl, by decide⟩,
    ⟨by decide, 'l', _, rfl, by decide⟩, ⟨by decide, 'c', _, rfl, by decide⟩,
    ⟨by decide, 'v', _, rfl, by decide⟩⟩

/-- A line of indentation, a declaration keyword, blanks, `v` and then no character of a name
declares `v`. -/
theorem declaresLine_of_eq {ind sp rest : List Char} {kw v : String}
    (hind : ∀ c ∈ ind, isBlank c = true) (hkw : kw ∈ declarationKeywords) (hsp : sp ≠ [])
    (hsp' : ∀ c ∈ sp, isBlank c = true) (hrest : ∀ c ∈ rest.head?, isIdentPart c = false) :
    DeclaresLine (ind ++ kw.toList ++ sp ++ v.toList ++ rest) v := by
  refine ⟨kw, hkw, sp, rest, ?_, hsp, hsp', hrest⟩
  obtain ⟨-, c, cs, hc, hb⟩ := declarationKeywords_spec kw hkw
  simp only [List.append_assoc]
  rw [trimStart_blanks_append hind (by rw [hc]; simpa using hb)]

/-- The same, up to the first line break, when none comes before `v` ends. -/
theorem declaresLine_takeWhile {ind sp rest : List Char} {kw v : String}
    (hind : ∀ c ∈ ind ++ sp, isBlank c = true ∧ c ≠ '\n') (hkw : kw ∈ declarationKeywords)
    (hsp : sp ≠ []) (hv : '\n' ∉ v.toList) (hrest : ∀ c ∈ rest.head?, isIdentPart c = false) :
    DeclaresLine ((ind ++ kw.toList ++ sp ++ v.toList ++ rest).takeWhile (· != '\n')) v := by
  have hkw' := (declarationKeywords_spec kw hkw).1
  have hpos : ∀ c ∈ ind ++ kw.toList ++ sp ++ v.toList, (c != '\n') = true := by
    intro c hc
    simp only [List.mem_append] at hc
    simp only [bne_iff_ne, ne_eq]
    rintro rfl
    rcases hc with ((hc | hc) | hc) | hc
    · exact (hind _ (List.mem_append_left _ hc)).2 rfl
    · exact hkw' hc
    · exact (hind _ (List.mem_append_right _ hc)).2 rfl
    · exact hv hc
  rw [List.takeWhile_append_of_pos hpos]
  refine declaresLine_of_eq (fun c hc => (hind c (List.mem_append_left _ hc)).1) hkw hsp
    (fun c hc => (hind c (List.mem_append_right _ hc)).1) fun c hc => hrest c ?_
  rw [List.head?_takeWhile] at hc
  exact (Option.mem_filter_iff.1 hc).1

theorem OpensDeclaration.declaresLine {x : List Char} {v : String} (h : OpensDeclaration x v) :
    DeclaresLine (x.takeWhile (· != '\n')) v := by
  obtain ⟨ind, kw, sp, rest, rfl, hkw, hind, hsp, hv, hrest⟩ := h
  have hkw' : kw ∈ declarationKeywords := by
    simp only [List.mem_cons, List.not_mem_nil, or_false] at hkw
    rcases hkw with rfl | rfl | rfl <;> simp [declarationKeywords]
  refine declaresLine_takeWhile hind hkw' hsp (fun hn => ?_) fun c hc => (hrest c hc).1
  exact absurd (hv _ hn) (by decide)

end Bundle

/-- A function as the reader records it: a name made of name characters, and a parameter list
that, when not empty, opens with `(`. -/
structure FunctionDecl.WellNamed (f : FunctionDecl) : Prop where
  name : ∀ c ∈ f.name.toList, isIdentPart c = true
  params : ∀ c ∈ f.params.toList.head?, c = '('

/-- The functions and the class of a module as the reader records them. -/
structure Module.WellNamed (m : Module) : Prop where
  functions : ∀ f ∈ m.functions, f.WellNamed
  className : ∀ c ∈ m.cls, ∀ x ∈ c.name.toList, isIdentPart x = true
  classFunctions : ∀ c ∈ m.cls, ∀ f ∈ c.functions, f.WellNamed

/-- What a module's factory writes as a declaration of `v`: a function, the class (under its
constructor), a method or a function after the class, or a statement that opens a declaration
of `v`. -/
def Module.DeclaresName (m : Module) (v : String) : Prop :=
  (∃ f ∈ m.functions, f.name = v) ∨
    (∃ c ∈ m.cls, c.name = v ∨ ∃ f ∈ c.methods ++ c.trailing, f.name = v) ∨
    ∃ s ∈ m.statements, Bundle.OpensDeclaration s.toList v

namespace Bundle

theorem isIdentPart_paren : isIdentPart '(' = false := by decide +kernel

/-- After a name, a parameter list that opens with `(` and then ` {` continue no name. -/
theorem head_params_brace {params : String} (hp : ∀ c ∈ params.toList.head?, c = '(') :
    ∀ c ∈ (params.toList ++ [' ', '\x7b']).head?, isIdentPart c = false := by
  intro c hc
  cases hpar : params.toList with
  | nil =>
    rw [hpar, List.nil_append, List.head?_cons, Option.mem_def, Option.some.injEq] at hc
    subst hc
    exact Import.isIdentPart_of_isBlank (by decide)
  | cons d ds =>
    rw [hpar, List.cons_append, List.head?_cons, Option.mem_def, Option.some.injEq] at hc
    subst hc
    rw [hp d (by simp [hpar])]
    exact isIdentPart_paren

theorem functionHead_toList (isAsync : Bool) :
    ∃ kw ∈ declarationKeywords,
      (indent ++ indent ++ (if isAsync then "async " else "") ++ "function ").toList =
        "        ".toList ++ kw.toList ++ [' '] := by
  cases isAsync
  · exact ⟨"function", by simp [declarationKeywords], rfl⟩
  · exact ⟨"async function", by simp [declarationKeywords], rfl⟩

theorem indentation_blank : ∀ c ∈ "        ".toList ++ [' '], isBlank c = true ∧ c ≠ '\n' := by
  simp only [List.mem_append, List.mem_singleton]
  rintro c (hc | rfl)
  · rw [show "        ".toList = List.replicate 8 ' ' from rfl, List.mem_replicate] at hc
    rw [hc.2]
    decide
  · decide

/-- A function text declares the name it is written under on its first line. -/
theorem functionText_declares {name : String} {f : FunctionDecl}
    (hn : ∀ c ∈ name.toList, isIdentPart c = true) (hp : ∀ c ∈ f.params.toList.head?, c = '(')
    (rt : Bool) :
    ∃ P Q, (functionText name f rt).toList = P ++ '\n' :: Q ∧
      DeclaresLine (P.takeWhile (· != '\n')) name := by
  obtain ⟨kw, hkw, hhead⟩ := functionHead_toList f.isAsync
  have htext : functionText name f rt =
      (indent ++ indent ++ (if f.isAsync then "async " else "") ++ "function ") ++ name ++
        (f.params ++ " \x7b") ++ ("\n" ++ (String.join (f.body.map (· ++ "\n")) ++
          (if rt then indent ++ indent ++ indent ++ "return this;\n" else "") ++
          (indent ++ indent ++ "\x7d\n"))) := by
    rw [functionText, show " \x7b\n" = " \x7b" ++ "\n" from rfl]
    simp only [String.append_assoc]
  refine ⟨"        ".toList ++ kw.toList ++ [' '] ++ name.toList ++ (f.params.toList ++ [' ', '\x7b']),
    (String.join (f.body.map (· ++ "\n")) ++
      (if rt then indent ++ indent ++ indent ++ "return this;\n" else "") ++
      (indent ++ indent ++ "\x7d\n")).toList, ?_, ?_⟩
  · rw [htext]
    simp only [String.toList_append, hhead, List.append_assoc]
    rfl
  · have hv : '\n' ∉ name.toList := fun h =>
      absurd (hn _ h) (by rw [Import.isIdentPart_of_isBlank (by decide)]; decide)
    exact declaresLine_takeWhile indentation_blank hkw (List.cons_ne_nil _ _) hv
      (head_params_brace hp)

/-- The constructor written for a class that declares none declares the class's name. -/
theorem defaultConstructor_declares {cls : String} (hn : ∀ c ∈ cls.toList, isIdentPart c = true) :
    ∃ P Q, (defaultConstructor cls).toList = P ++ '\n' :: Q ∧
      DeclaresLine (P.takeWhile (· != '\n')) cls := by
  obtain ⟨kw, hkw, hhead⟩ := functionHead_toList false
  have htext : defaultConstructor cls =
      (indent ++ indent ++ (if false then "async " else "") ++ "function ") ++ cls ++
        ("()" ++ " \x7b") ++ ("\n" ++ (indent ++ indent ++ indent ++ "return this;\n" ++
          indent ++ indent ++ "\x7d\n")) := by
    rw [defaultConstructor, show "() \x7b\n" = "()" ++ " \x7b" ++ "\n" from rfl]
    simp only [String.append_assoc]
    rfl
  refine ⟨"        ".toList ++ kw.toList ++ [' '] ++ cls.toList ++ ("()".toList ++ [' ', '\x7b']),
    (indent ++ indent ++ indent ++ "return this;\n" ++ indent ++ indent ++ "\x7d\n").toList, ?_, ?_⟩
  · rw [htext]
    simp only [String.toList_append, hhead, List.append_assoc]
    rfl
  · have hv : '\n' ∉ cls.toList := fun h =>
      absurd (hn _ h) (by rw [Import.isIdentPart_of_isBlank (by decide)]; decide)
    exact declaresLine_takeWhile indentation_blank hkw (List.cons_ne_nil _ _) hv
      (head_params_brace (show ∀ c ∈ "()".toList.head?, c = '(' by simp))

/-- The texts written for a class declare the class under its constructor, each method, and
each function after the class. -/
theorem classFunctionTexts_declares {c : ClassDecl}
    (hname : ∀ x ∈ c.name.toList, isIdentPart x = true) (hfs : ∀ f ∈ c.functions, f.WellNamed)
    {v : String} (hv : c.name = v ∨ ∃ f ∈ c.methods ++ c.trailing, f.name = v) :
    ∃ t ∈ classFunctionTexts c, ∃ P Q, t.toList = P ++ '\n' :: Q ∧
      DeclaresLine (P.takeWhile (· != '\n')) v := by
  rcases hv with rfl | ⟨f, hf, rfl⟩
  · cases hk : c.ctor with
    | none =>
      exact ⟨defaultConstructor c.name, by simp [classFunctionTexts, hk],
        defaultConstructor_declares hname⟩
    | some k =>
      have hkf := hfs k (by simp [ClassDecl.functions, hk])
      exact ⟨functionText c.name k true, by simp [classFunctionTexts, hk],
        functionText_declares hname hkf.params true⟩
  · have hff := hfs f (by
      simp only [ClassDecl.functions, List.mem_append] at hf ⊢
      tauto)
    exact ⟨functionText f.name f false, List.mem_cons_of_mem _ (List.mem_map_of_mem hf),
      functionText_declares hff.name hff.params false⟩

/-- A factory declares each function and method it writes, the class under its constructor, and
each name a statement opens a declaration of. -/
theorem factoryBody_declares {m : Module} (hm : m.WellNamed) {v : String} (h : m.DeclaresName v) :
    Declares (factoryBody m) v := by
  have hfields : EndsLine (String.join (((m.cls.map ClassDecl.fields).getD []).map fieldLine)) :=
    endsLine_join fun t ht => by
      obtain ⟨x, -, rfl⟩ := List.mem_map.1 ht
      exact endsLine_newline _
  have hstmts : ∀ t ∈ m.statements.map (· ++ "\n"), EndsLine t := by
    intro t ht
    obtain ⟨x, -, rfl⟩ := List.mem_map.1 ht
    exact endsLine_newline _
  have hfns : ∀ t ∈ m.functions.map (fun f => functionText f.name f false), EndsLine t := by
    intro t ht
    obtain ⟨f, -, rfl⟩ := List.mem_map.1 ht
    exact endsLine_functionText _ _ _
  have hcls : ∀ t ∈ (m.cls.map classFunctionTexts).getD [], EndsLine t := by
    intro t ht
    obtain ⟨c, -, ht⟩ := mem_getD_map ht
    rcases List.mem_cons.1 ht with rfl | ht
    · split
      · exact endsLine_functionText _ _ _
      · exact endsLine_defaultConstructor _
    · obtain ⟨f, -, rfl⟩ := List.mem_map.1 ht
      exact endsLine_functionText _ _ _
  have hpre := hfields.append (endsLine_join hstmts)
  unfold factoryBody
  rcases h with ⟨f, hf, rfl⟩ | ⟨c, hc, hcv⟩ | ⟨s, hs, hsv⟩
  · -- a function, written among the functions
    obtain ⟨P, Q, hPQ, hd⟩ :=
      functionText_declares (hm.functions f hf).name (hm.functions f hf).params false
    have hd' := declares_of_mem_join (B := String.join ((m.cls.map classFunctionTexts).getD []) ++
      returnedObject m) hpre hfns (List.mem_map_of_mem hf) hPQ hd
    simpa only [String.append_assoc] using hd'
  · -- the class's constructor, a method or a function after the class, written with the class
    have hmem : ∀ t ∈ classFunctionTexts c, t ∈ (m.cls.map classFunctionTexts).getD [] := by
      intro t ht
      rw [Option.mem_def] at hc
      simpa [hc] using ht
    obtain ⟨t, ht, P, Q, hPQ, hd⟩ :=
      classFunctionTexts_declares (hm.className c hc) (hm.classFunctions c hc) hcv
    have hd' := declares_of_mem_join (A := String.join (((m.cls.map ClassDecl.fields).getD []).map
      fieldLine) ++ String.join (m.statements.map (· ++ "\n")) ++
      String.join (m.functions.map fun f => functionText f.name f false))
      (B := returnedObject m) (hpre.append (endsLine_join hfns)) hcls (hmem t ht) hPQ hd
    simpa only [String.append_assoc] using hd'
  · -- a statement, written on its own line
    have hd' := declares_of_mem_join (B := String.join (m.functions.map fun f =>
      functionText f.name f false) ++ String.join ((m.cls.map classFunctionTexts).getD []) ++
      returnedObject m) hfields hstmts (List.mem_map_of_mem hs) (P := s.toList) (Q := [])
      (by simp) hsv.declaresLine
    simpa only [String.append_assoc] using hd'

end Bundle

end ModuleBundler
