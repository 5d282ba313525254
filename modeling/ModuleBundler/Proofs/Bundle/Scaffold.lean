import ModuleBundler.Proofs.Brace.Lines
import ModuleBundler.Bundle.Registration
import Mathlib

/-!
The brace structure of a module's block in a bundle.

A block is scaffolding around text copied from the module: the block's `{`, the factory's
`function() {`, each function's header brace and closing `}`, the returned object, the
registrations and the block's `}`; in between stand field declarations, statements, parameter
lists, bodies and names. When every copied piece keeps the tracker's level
(`Module.Neutral`), a fresh tracker fed the block line by line sees the block's `{` closed by
the block's last line, the factory's `{` closed by the `};` that ends it, and ends in code
(`registration_brace_structure`). Reading a module does not make its pieces neutral: a
statement line is checked only for its depth at the end of the line.
-/

namespace ModuleBundler

namespace Brace

/-- What quoting does to a character: a backslash or a single quote gets a backslash. -/
def quoteChar (c : Char) : List Char :=
  if c = '\\' then ['\\', '\\'] else if c = '\'' then ['\\', '\''] else [c]

theorem singleQuoted_toList (n : String) :
    (singleQuoted n).toList = '\'' :: (n.toList.flatMap quoteChar ++ ['\'']) := by
  simp [singleQuoted]
  rfl

namespace State

/-- One step that neither ends the line nor counts a brace. -/
theorem scan_cons_quiet {s : State} {q : Option Char} {pos : Nat} {c : Char} {rest : List Char}
    {m : Move} (hm : s.step q pos c rest.head? = m) (hs : m.stops = false) (he : m.event = none) :
    s.scan q pos (c :: rest) =
      m.state.scan m.quote (pos + if m.pairs then 2 else 1)
        (if m.pairs then rest.tail else rest) := by
  rw [scan]
  simp [hm, hs, he]

/-- Inside a single-quoted string, a quoted text is read through to its closing quote. -/
theorem scan_quoted (d : Int) :
    ∀ (n : List Char) (pos : Nat) (cs : List Char),
      (code d).scan (some '\'') pos (n.flatMap quoteChar ++ cs) =
        (code d).scan (some '\'') (pos + (n.flatMap quoteChar).length) cs
  | [], pos, cs => rfl
  | c :: n, pos, cs => by
    have ih := scan_quoted d n
    by_cases hb : c = '\\'
    · subst hb
      -- the backslash that quoting adds escapes the one that follows
      rw [List.flatMap_cons, show quoteChar '\\' = ['\\', '\\'] by rfl, List.append_assoc,
        List.cons_append,
        scan_cons_quiet (m := { state := code d, quote := some '\'', pairs := true })
          (by simp [step, code]) rfl rfl]
      simp only [if_true, List.singleton_append, List.tail_cons, ih, List.length_append]
      simp only [List.length_cons, List.length_nil]
      congr 1
      omega
    by_cases hq : c = '\''
    · subst hq
      rw [List.flatMap_cons, show quoteChar '\'' = ['\\', '\''] by rfl, List.append_assoc,
        List.cons_append,
        scan_cons_quiet (m := { state := code d, quote := some '\'', pairs := true })
          (by simp [step, code]) rfl rfl]
      simp only [if_true, List.singleton_append, List.tail_cons, ih, List.length_append]
      simp only [List.length_cons, List.length_nil]
      congr 1
      omega
    · have hc : quoteChar c = [c] := by simp [quoteChar, hb, hq]
      rw [List.flatMap_cons, hc, List.append_assoc, List.singleton_append,
        scan_cons_quiet (m := { state := code d, quote := some '\'' })
          (by simp [step, code, hb, hq]) rfl rfl]
      simp only [Bool.false_eq_true, if_false, ih, List.length_append, List.length_singleton]
      congr 1
      omega

/-- A single-quoted text leaves code as it is. -/
theorem scan_singleQuoted (d : Int) (n : String) (pos : Nat) (cs : List Char) :
    (code d).scan none pos ((singleQuoted n).toList ++ cs) =
      (code d).scan none (pos + (singleQuoted n).toList.length) cs := by
  rw [singleQuoted_toList]
  simp only [List.cons_append, List.append_assoc]
  -- the opening quote, the quoted text, then the closing quote
  rw [scan_cons_quiet (m := { state := code d, quote := some '\'' }) (by simp [step, code]) rfl rfl]
  simp only [Bool.false_eq_true, if_false, scan_quoted]
  rw [scan_cons_quiet (m := { state := code d, quote := none }) (by simp [step, code]) rfl rfl]
  simp only [Bool.false_eq_true, if_false, List.length_cons, List.length_append, List.length_nil]
  congr 1
  omega

end State

end Brace

namespace Bundle

open Brace Brace.State Text

/-- Text the tracker passes over in code, all on one line. -/
def Plain (s : String) : Prop :=
  ∀ c ∈ s.toList, plain c

/-- Text that, fed line by line from code at any depth, comes back to that depth and never
closes a brace opened before it. -/
def Neutral (t : String) : Prop :=
  Span 0 0 (lines t.toList)

/-- Text that is empty or ends a line. -/
def EndsLine (t : String) : Prop :=
  t.toList.getLast? = some '\n' ∨ t = ""

theorem endsLine_append_of_newline (s : String) {t : String} (ht : t.toList.getLast? = some '\n') :
    EndsLine (s ++ t) :=
  .inl (by
    rw [String.toList_append, List.getLast?_append_of_ne_nil _ (fun h => by simp [h] at ht), ht])

theorem endsLine_newline (s : String) : EndsLine (s ++ "\n") :=
  endsLine_append_of_newline s (by simp)

theorem EndsLine.append {s t : String} (hs : EndsLine s) (ht : EndsLine t) : EndsLine (s ++ t) := by
  rcases ht with ht | rfl
  · left
    rw [String.toList_append, List.getLast?_append, ht]
    rfl
  · simpa using hs

theorem endsLine_join {ts : List String} (h : ∀ t ∈ ts, EndsLine t) :
    EndsLine (String.join ts) := by
  induction ts with
  | nil => exact .inr rfl
  | cons t ts ih =>
    rw [String.join_cons]
    exact (h t List.mem_cons_self).append (ih fun x hx => h x (List.mem_cons_of_mem _ hx))

theorem lines_append_of_endsLine {s t : String} (hs : EndsLine s) :
    lines (s ++ t).toList = lines s.toList ++ lines t.toList := by
  rcases hs with hs | rfl
  · rw [String.toList_append, lines_append_of_newline hs]
  · simp [lines]

theorem lines_single {l : String} (hn : '\n' ∉ l.toList) (hr : l.toList.getLast? ≠ some '\r') :
    lines (l ++ "\n").toList = [l.toList] := by
  simpa using lines_line hn hr

/-- Spans of text that ends a line chain like spans of lines. -/
theorem span_append {a b c : Int} {s t : String} (hs : Span a b (lines s.toList))
    (ht : Span b c (lines t.toList)) (hb : min a c ≤ b) (hend : EndsLine s) :
    Span a c (lines (s ++ t).toList) := by
  rw [lines_append_of_endsLine hend]
  exact hs.append ht hb

theorem span_join {d : Int} {ts : List String}
    (h : ∀ t ∈ ts, Span d d (lines t.toList) ∧ EndsLine t) :
    Span d d (lines (String.join ts).toList) := by
  induction ts with
  | nil => exact Span.nil d
  | cons t ts ih =>
    rw [String.join_cons]
    obtain ⟨ht, hend⟩ := h t List.mem_cons_self
    exact span_append ht (ih fun x hx => h x (List.mem_cons_of_mem _ hx)) (by simp) hend

/-- A neutral text keeps the level at any depth. -/
theorem Neutral.span {t : String} (h : Neutral t) (d : Int) : Span d d (lines t.toList) := by
  simpa using Span.lift h d

end Bundle

/-- A function as the factory writes it under `name` keeps the tracker's level: the name is
plain, the parameter list followed by ` {` opens exactly one level, and the body keeps to its
level. -/
structure FunctionDecl.Neutral (name : String) (f : FunctionDecl) : Prop where
  name : Bundle.Plain name
  params : Brace.Span 0 1 (Text.lines (f.params ++ " \x7b\n").toList)
  body : Bundle.Neutral (String.join (f.body.map (· ++ "\n")))

/-- Every piece that a module's block copies from the module keeps the tracker's level: its
factory name, the class's fields, the statements taken together, the functions and the class's
functions, and the names of the returned object. -/
structure Module.Neutral (m : Module) : Prop where
  name : Bundle.Plain m.name
  fields : ∀ c ∈ m.cls, ∀ f ∈ c.fields, Bundle.Neutral (Bundle.fieldDeclaration f ++ "\n")
  statements : Bundle.Neutral (String.join (m.statements.map (· ++ "\n")))
  functions : ∀ f ∈ m.functions, f.Neutral f.name
  className : ∀ c ∈ m.cls, Bundle.Plain c.name
  ctor : ∀ c ∈ m.cls, ∀ k ∈ c.ctor, k.Neutral c.name
  methods : ∀ c ∈ m.cls, ∀ f ∈ c.methods ++ c.trailing, f.Neutral f.name
  exports : ∀ p ∈ Bundle.exportProperties m, Bundle.Plain p.1 ∧ Bundle.Plain p.2

namespace Bundle

open Brace Brace.State Text

theorem plain_indent : Plain indent := by
  simp [Plain, indent, plain]

theorem Plain.append {s t : String} (hs : Plain s) (ht : Plain t) : Plain (s ++ t) := by
  intro c hc
  rw [String.toList_append, List.mem_append] at hc
  rcases hc with hc | hc
  · exact hs c hc
  · exact ht c hc

theorem Plain.newline_not_mem {s : String} (h : Plain s) : '\n' ∉ s.toList := fun hc => by
  simpa [plain] using h _ hc

/-- A line of plain text keeps any level. -/
theorem span_plainLine {d : Int} {l : String} (hl : Plain l) (hr : l.toList.getLast? ≠ some '\r') :
    Span d d (lines (l ++ "\n").toList) := by
  rw [lines_single hl.newline_not_mem hr]
  exact Span.plainLine hl

/-- A line of plain text ended by `{` opens a level. -/
theorem span_openLine {d : Int} {p : String} (hp : Plain p) :
    Span d (d + 1) (lines ((p ++ "\x7b") ++ "\n").toList) := by
  have hn : '\n' ∉ (p ++ "\x7b").toList := by
    rw [String.toList_append, List.mem_append, not_or]
    exact ⟨hp.newline_not_mem, by simp⟩
  have hr : (p ++ "\x7b").toList.getLast? ≠ some '\r' := by
    rw [String.toList_append, List.getLast?_append_of_ne_nil _ (by simp)]
    simp
  rw [lines_single hn hr]
  simpa using Span.openLine (d := d) hp

/-- A line of plain text with one `}` in it closes a level. -/
theorem span_closeLine {d : Int} {p q : String} (hp : Plain p) (hq : Plain q) :
    Span (d + 1) d (lines ((p ++ "\x7d" ++ q) ++ "\n").toList) := by
  have hn : '\n' ∉ (p ++ "\x7d" ++ q).toList := by
    simp only [String.toList_append, List.mem_append, not_or]
    exact ⟨⟨hp.newline_not_mem, by simp⟩, hq.newline_not_mem⟩
  have hr : (p ++ "\x7d" ++ q).toList.getLast? ≠ some '\r' := by
    rw [String.toList_append, List.getLast?_append]
    cases hl : q.toList.getLast? with
    | none =>
      rw [String.toList_append, List.getLast?_append_of_ne_nil _ (by simp)]
      simp
    | some c =>
      have := hq c (List.mem_of_getLast? hl)
      simp only [Option.some_or, ne_eq, Option.some.injEq]
      rintro rfl
      simp [plain] at this
  rw [lines_single hn hr]
  simpa using Span.closeLine (d := d) hp hq

theorem endsLine_functionText (name : String) (f : FunctionDecl) (rt : Bool) :
    EndsLine (functionText name f rt) :=
  endsLine_append_of_newline _ (by simp)

/-- A function text keeps the level it is written at. -/
theorem functionText_span {name : String} {f : FunctionDecl} (hf : f.Neutral name) (rt : Bool) :
    Span 0 0 (lines (functionText name f rt).toList) := by
  have hp : Plain (indent ++ indent ++ (if f.isAsync then "async " else "") ++ "function " ++
      name) := by
    refine ((plain_indent.append plain_indent).append ?_).append ?_ |>.append hf.name
    · split <;> simp [Plain, plain]
    · simp [Plain, plain]
  have htext : functionText name f rt =
      (indent ++ indent ++ (if f.isAsync then "async " else "") ++ "function " ++ name) ++
        ((f.params ++ " \x7b\n") ++ (String.join (f.body.map (· ++ "\n")) ++
          ((if rt then indent ++ indent ++ indent ++ "return this;\n" else "") ++
            (indent ++ indent ++ "\x7d\n")))) := by
    simp only [functionText, String.append_assoc]
  rw [htext, String.toList_append, lines_prepend hp (by simp)]
  apply Span.prepend hp
  -- the header opens a level, the body and `return this` keep it, and the last line closes it
  have hbody : Span 1 1 (lines (String.join (f.body.map (· ++ "\n"))).toList) := hf.body.span 1
  have hret : Span 1 1
      (lines (if rt then indent ++ indent ++ indent ++ "return this;\n" else "").toList) := by
    split
    · rw [show indent ++ indent ++ indent ++ "return this;\n" =
          (indent ++ indent ++ indent ++ "return this;") ++ "\n" by simp [String.append_assoc]]
      exact span_plainLine (by simp [Plain, indent, plain]) (by simp [indent])
    · exact Span.nil 1
  have hclose : Span 1 0 (lines (indent ++ indent ++ "\x7d\n").toList) := by
    rw [show indent ++ indent ++ "\x7d\n" = (indent ++ indent ++ "\x7d" ++ "") ++ "\n" by
        simp [String.append_assoc]]
    exact span_closeLine (d := 0) (plain_indent.append plain_indent) (by simp [Plain])
  refine span_append hf.params (span_append hbody (span_append hret hclose (by simp) ?_)
    (by simp) (endsLine_join fun t ht => ?_)) (by simp) (.inl (by simp))
  · split
    · exact .inl (by simp)
    · exact .inr rfl
  · obtain ⟨x, -, rfl⟩ := List.mem_map.1 ht
    exact endsLine_newline x

theorem defaultConstructor_span {cls : String} (h : Plain cls) :
    Span 0 0 (lines (defaultConstructor cls).toList) := by
  have hp : Plain (indent ++ indent ++ "function " ++ cls ++ "() ") :=
    (((plain_indent.append plain_indent).append (by simp [Plain, plain])).append h).append
      (by simp [Plain, plain])
  have htext : defaultConstructor cls =
      ((indent ++ indent ++ "function " ++ cls ++ "() ") ++ "\x7b") ++ "\n" ++
        ((indent ++ indent ++ indent ++ "return this;") ++ "\n" ++
          ((indent ++ indent ++ "\x7d") ++ "\n")) := by
    simp only [defaultConstructor, String.append_assoc]
    rfl
  have hopen : Span 0 1
      (lines (((indent ++ indent ++ "function " ++ cls ++ "() ") ++ "\x7b") ++ "\n").toList) :=
    span_openLine hp
  have hret : Span 1 1 (lines ((indent ++ indent ++ indent ++ "return this;") ++ "\n").toList) :=
    span_plainLine (by simp [Plain, indent, plain]) (by simp [indent])
  have hclose : Span 1 0 (lines ((indent ++ indent ++ "\x7d") ++ "\n").toList) := by
    rw [← @String.append_empty (indent ++ indent ++ "\x7d")]
    exact span_closeLine (d := 0) (plain_indent.append plain_indent) (by simp [Plain])
  rw [htext]
  exact span_append hopen (span_append hret hclose (by simp) (endsLine_newline _)) (by simp)
    (endsLine_newline _)

theorem endsLine_defaultConstructor (cls : String) : EndsLine (defaultConstructor cls) :=
  endsLine_append_of_newline _ (by simp)

/-- Each function a class becomes keeps the level it is written at, and ends a line. -/
theorem classFunctionTexts_span {c : ClassDecl} (hname : Plain c.name)
    (hctor : ∀ k ∈ c.ctor, k.Neutral c.name)
    (hfns : ∀ f ∈ c.methods ++ c.trailing, f.Neutral f.name) :
    ∀ t ∈ classFunctionTexts c, Span 0 0 (lines t.toList) ∧ EndsLine t := by
  intro t ht
  rcases List.mem_cons.1 ht with rfl | ht
  · split
    · rename_i k hk
      exact ⟨functionText_span (hctor k hk) true, endsLine_functionText _ _ _⟩
    · exact ⟨defaultConstructor_span hname, endsLine_defaultConstructor _⟩
  · obtain ⟨f, hf, rfl⟩ := List.mem_map.1 ht
    exact ⟨functionText_span (hfns f hf) false, endsLine_functionText _ _ _⟩

theorem fieldLine_span {f : String} (h : Neutral (fieldDeclaration f ++ "\n")) :
    Span 2 2 (lines (fieldLine f).toList) := by
  have hp : Plain (indent ++ indent) := plain_indent.append plain_indent
  rw [fieldLine, show indent ++ indent ++ fieldDeclaration f ++ "\n" =
      (indent ++ indent) ++ (fieldDeclaration f ++ "\n") by simp [String.append_assoc],
    String.toList_append, lines_prepend hp (by simp)]
  exact (h.span 2).prepend hp

/-- The returned object opens a level, lists plain properties, and closes it. -/
theorem returnedObject_span {m : Module} (h : ∀ p ∈ exportProperties m, Plain p.1 ∧ Plain p.2) :
    Span 2 2 (lines (returnedObject m).toList) := by
  unfold returnedObject
  simp only [String.append_assoc]
  rw [← @String.append_assoc indent indent, ← @String.append_assoc (indent ++ indent)]
  -- each property is one line of its own
  have hprop (k v : String) : indent ++ (indent ++ (indent ++ (k ++ (": " ++ (v ++ ",\n"))))) =
      (indent ++ indent ++ indent ++ k ++ ": " ++ v ++ ",") ++ "\n" := by
    simp [String.append_assoc]
  refine span_append (b := 3) ?_ (span_append (b := 3) ?_ ?_ (by simp) ?_) (by simp)
    (endsLine_append_of_newline _ (by simp))
  · rw [show indent ++ indent ++ "return \x7b\n" =
        ((indent ++ indent ++ "return ") ++ "\x7b") ++ "\n" by simp [String.append_assoc]]
    exact span_openLine (d := 2) (by simp [Plain, indent, plain])
  · refine span_join fun t ht => ?_
    obtain ⟨⟨k, v⟩, hkv, rfl⟩ := List.mem_map.1 ht
    obtain ⟨hk, hv⟩ := h _ hkv
    have hl : Plain (indent ++ indent ++ indent ++ k ++ ": " ++ v ++ ",") :=
      (((((plain_indent.append plain_indent).append plain_indent).append hk).append
        (by simp [Plain, plain])).append hv).append (by simp [Plain, plain])
    have hr :
        (indent ++ indent ++ indent ++ k ++ ": " ++ v ++ ",").toList.getLast? ≠ some '\r' := by
      rw [String.toList_append, List.getLast?_append_of_ne_nil _ (by simp)]
      simp
    dsimp only
    rw [hprop]
    exact ⟨span_plainLine hl hr, endsLine_newline _⟩
  · rw [show indent ++ (indent ++ "\x7d;\n") = (indent ++ indent ++ "\x7d" ++ ";") ++ "\n" by
        simp [String.append_assoc]]
    exact span_closeLine (d := 2) (plain_indent.append plain_indent) (by simp [Plain, plain])
  · refine endsLine_join fun t ht => ?_
    obtain ⟨⟨k, v⟩, -, rfl⟩ := List.mem_map.1 ht
    dsimp only
    rw [hprop]
    exact endsLine_newline _

theorem mem_getD_map {α β : Type} {o : Option α} {g : α → List β} {x : β}
    (h : x ∈ (o.map g).getD []) : ∃ a ∈ o, x ∈ g a := by
  cases o with
  | none => simp at h
  | some a => exact ⟨a, rfl, by simpa using h⟩

theorem getLast_returnedObject (m : Module) : (returnedObject m).toList.getLast? = some '\n' := by
  unfold returnedObject
  rw [String.toList_append, List.getLast?_append_of_ne_nil _ (by simp)]
  simp

theorem getLast_factoryBody (m : Module) : (factoryBody m).toList.getLast? = some '\n' := by
  have hr := getLast_returnedObject m
  unfold factoryBody
  rw [String.toList_append, List.getLast?_append_of_ne_nil _ (fun h => by simp [h] at hr), hr]

/-- The factory's body keeps the level the factory opens. -/
theorem factoryBody_span {m : Module} (hm : m.Neutral) :
    Span 2 2 (lines (factoryBody m).toList) := by
  have hfields : Span 2 2
      (lines (String.join (((m.cls.map ClassDecl.fields).getD []).map fieldLine)).toList) := by
    refine span_join fun t ht => ?_
    obtain ⟨f, hf, rfl⟩ := List.mem_map.1 ht
    obtain ⟨c, hc, hf⟩ := mem_getD_map hf
    exact ⟨fieldLine_span (hm.fields c hc f hf), endsLine_newline _⟩
  have hstmts : Span 2 2 (lines (String.join (m.statements.map (· ++ "\n"))).toList) :=
    hm.statements.span 2
  have hfns : Span 2 2
      (lines (String.join (m.functions.map fun f => functionText f.name f false)).toList) := by
    refine span_join fun t ht => ?_
    obtain ⟨f, hf, rfl⟩ := List.mem_map.1 ht
    exact ⟨by simpa using (functionText_span (hm.functions f hf) false).lift 2,
      endsLine_functionText _ _ _⟩
  have hclass : Span 2 2 (lines (String.join ((m.cls.map classFunctionTexts).getD [])).toList) := by
    refine span_join fun t ht => ?_
    obtain ⟨c, hc, ht⟩ := mem_getD_map ht
    obtain ⟨hs, he⟩ :=
      classFunctionTexts_span (hm.className c hc) (hm.ctor c hc) (hm.methods c hc) t ht
    exact ⟨by simpa using hs.lift 2, he⟩
  -- each group of lines ends a line, so the groups chain
  have e₁ : EndsLine (String.join (((m.cls.map ClassDecl.fields).getD []).map fieldLine)) :=
    endsLine_join fun t ht => by
      obtain ⟨f, -, rfl⟩ := List.mem_map.1 ht
      exact endsLine_newline _
  have e₂ : EndsLine (String.join (m.statements.map (· ++ "\n"))) :=
    endsLine_join fun t ht => by
      obtain ⟨x, -, rfl⟩ := List.mem_map.1 ht
      exact endsLine_newline x
  have e₃ : EndsLine (String.join (m.functions.map fun f => functionText f.name f false)) :=
    endsLine_join fun t ht => by
      obtain ⟨f, -, rfl⟩ := List.mem_map.1 ht
      exact endsLine_functionText _ _ _
  have e₄ : EndsLine (String.join ((m.cls.map classFunctionTexts).getD [])) :=
    endsLine_join fun t ht => by
      obtain ⟨c, hc, ht⟩ := mem_getD_map ht
      exact (classFunctionTexts_span (hm.className c hc) (hm.ctor c hc) (hm.methods c hc) t ht).2
  unfold factoryBody
  exact span_append (span_append (span_append (span_append hfields hstmts (by simp) e₁) hfns
    (by simp) (e₁.append e₂)) hclass (by simp) ((e₁.append e₂).append e₃))
    (returnedObject_span hm.exports) (by simp) (((e₁.append e₂).append e₃).append e₄)

theorem newline_not_mem_singleQuoted {n : String} (hn : '\n' ∉ n.toList) :
    '\n' ∉ (singleQuoted n).toList := by
  rw [singleQuoted_toList]
  simp only [List.mem_cons, List.mem_append, List.mem_flatMap, not_or]
  refine ⟨by decide, ?_, by simp⟩
  rintro ⟨c, hc, hq⟩
  -- quoting keeps a character or puts a backslash before it
  unfold quoteChar at hq
  split_ifs at hq with h₁ h₂
  · simp at hq
  · simp at hq
  · simp only [List.mem_singleton] at hq
    exact hn (hq ▸ hc)

theorem plain_registerHead : Plain (indent ++ registryName ++ ".register(") := by
  simp [Plain, indent, registryName, plain]

theorem plain_registerTail {m : Module} (hname : Plain m.name) : Plain (", " ++ m.name ++ ");") :=
  (((by simp [Plain, plain]) : Plain ", ").append hname).append (by simp [Plain, plain])

theorem registerLine_toList (m : Module) (n : String) :
    (registerLine m n).toList = (indent ++ registryName ++ ".register(").toList ++
      ((singleQuoted n).toList ++ (", " ++ m.name ++ ");").toList) := by
  simp [registerLine]

/-- A registration passes the tracker by: its name is quoted and the factory name plain. -/
theorem feed_registerLine {m : Module} (hname : Plain m.name) (n : String) (d : Int) :
    (code d).feed (registerLine m n).toList = (code d, []) := by
  rw [feed, registerLine_toList, scan_plain d _ 0 _ plain_registerHead, scan_singleQuoted,
    ← List.append_nil (", " ++ m.name ++ ");").toList,
    scan_plain d _ _ [] (plain_registerTail hname), scan]

theorem lines_registerLines {m : Module} (hname : Plain m.name) {names : List String}
    (hn : ∀ n ∈ names, '\n' ∉ n.toList) :
    lines (String.join (names.map fun n => registerLine m n ++ "\n")).toList =
      names.map fun n => (registerLine m n).toList := by
  induction names with
  | nil => rfl
  | cons n ns ih =>
    have hline : '\n' ∉ (registerLine m n).toList := by
      rw [registerLine_toList]
      simp only [List.mem_append, not_or]
      exact ⟨plain_registerHead.newline_not_mem,
        newline_not_mem_singleQuoted (hn n List.mem_cons_self),
        (plain_registerTail hname).newline_not_mem⟩
    have hlast : (registerLine m n).toList.getLast? ≠ some '\r' := by
      unfold registerLine
      rw [String.toList_append, List.getLast?_append_of_ne_nil _ (by simp)]
      simp
    rw [List.map_cons, String.join_cons, lines_append_of_endsLine (endsLine_newline _),
      lines_single hline hlast, ih fun x hx => hn x (List.mem_cons_of_mem _ hx), List.map_cons]
    rfl

theorem feedLines_registerLines {m : Module} (hname : Plain m.name) (names : List String)
    (d : Int) :
    (code d).feedLines (names.map fun n => (registerLine m n).toList) =
      (names.map fun n => ((registerLine m n).toList, []), code d) := by
  induction names with
  | nil => rfl
  | cons n ns ih => simp [feedLines, feed_registerLine hname, ih]

/-- The lines of a block: its `{`, the factory's first line, the factory's body, the `};` that
ends the factory, the registrations and the closing `}`. -/
theorem lines_registration {m : Module} (hname : Plain m.name) {names : List String}
    (hn : ∀ n ∈ names, '\n' ∉ n.toList) :
    lines (registration m names).toList =
      ['\x7b'] :: (indent ++ "let " ++ m.name ++ " = function() \x7b").toList ::
        (lines (factoryBody m).toList ++ (indent ++ "\x7d;").toList ::
          (names.map (fun n => (registerLine m n).toList) ++ [['\x7d']])) := by
  have htext : (registration m names).toList =
      ['\x7b', '\n'] ++ ((indent ++ "let " ++ m.name ++ " = function() \x7b").toList ++ '\n' ::
        ((factoryBody m).toList ++ ((indent ++ "\x7d;").toList ++ '\n' ::
          (String.join (names.map fun n => registerLine m n ++ "\n") ++ "\x7d\n").toList))) := by
    simp [registration, factory]
  have hheader : '\n' ∉ (indent ++ "let " ++ m.name ++ " = function() \x7b").toList := by
    simp only [String.toList_append, List.mem_append, not_or]
    exact ⟨⟨⟨by simp [indent], by simp⟩, hname.newline_not_mem⟩, by simp⟩
  rw [htext, lines_append_of_newline (by simp), lines_append_newline,
    lines_line hheader
      (by rw [String.toList_append, List.getLast?_append_of_ne_nil _ (by simp)]; simp),
    lines_append_of_newline (getLast_factoryBody m), lines_append_newline,
    lines_line (by simp [indent]) (by simp [indent]),
    lines_append_of_endsLine (endsLine_join fun t ht => by
      obtain ⟨n, -, rfl⟩ := List.mem_map.1 ht
      exact endsLine_newline _),
    lines_registerLines hname hn]
  have h₀ : lines ['\x7b', '\n'] = [['\x7b']] := lines_line (l := ['\x7b']) (by simp) (by simp)
  have h₁ : lines "\x7d\n".toList = [['\x7d']] := lines_line (l := ['\x7d']) (by simp) (by simp)
  rw [h₀, h₁]
  simp

/-- The brace structure of a block. Fed line by line to a fresh tracker, the block's `{` opens
level 1 on its first line and the factory's `{` opens level 2 at the end of the second; the
factory's body stays at level 2 or deeper; the `};` that ends the factory closes level 2; the
registrations count no brace; and the last line's `}` closes level 1, leaving the tracker as it
started, in code. So the block's `{` is closed by its last line and the factory's by its `};`. -/
theorem registration_brace_structure {m : Module} (hm : m.Neutral) {names : List String}
    (hn : ∀ n ∈ names, '\n' ∉ n.toList) :
    ∃ body : List (List Char × List Event),
      State.initial.feedLines (lines (registration m names).toList) =
        ((['\x7b'], [⟨0, true, 1⟩]) ::
          ((indent ++ "let " ++ m.name ++ " = function() \x7b").toList,
            [⟨m.name.length + 22, true, 2⟩]) ::
          (body ++ ((indent ++ "\x7d;").toList, [⟨4, false, 1⟩]) ::
            (names.map (fun n => ((registerLine m n).toList, [])) ++
              [(['\x7d'], [⟨0, false, 0⟩])])),
          State.initial) ∧
      Above 2 body := by
  obtain ⟨hend, habove⟩ := factoryBody_span hm
  refine ⟨((code 2).feedLines (lines (factoryBody m).toList)).1, ?_, by simpa using habove⟩
  -- the scaffolding lines: two that open a level, two that close one
  have hp : Plain (indent ++ "let " ++ m.name ++ " = function() ") :=
    ((plain_indent.append (by simp [Plain, plain])).append hm.name).append (by simp [Plain, plain])
  have h₀ : (code 0).feed ['\x7b'] = (code 1, [⟨0, true, 1⟩]) := by
    simpa using feed_open (d := 0) (p := []) (by simp)
  have h₁ : (code 1).feed (indent ++ "let " ++ m.name ++ " = function() \x7b").toList =
      (code 2, [⟨m.name.length + 22, true, 2⟩]) := by
    have h := feed_open (d := 1) hp
    have hlen : (indent ++ "let " ++ m.name ++ " = function() ").toList.length =
        m.name.length + 22 := by
      simp [indent, String.length_toList]
    rw [hlen] at h
    simpa using h
  have h₂ : (code 2).feed (indent ++ "\x7d;").toList = (code 1, [⟨4, false, 1⟩]) := by
    simpa [indent] using feed_close (d := 1) (p := indent.toList) (q := [';'])
      (by simp [indent, plain]) (by simp [plain])
  have h₃ : (code 1).feed ['\x7d'] = (code 0, [⟨0, false, 0⟩]) := by
    simpa using feed_close (d := 0) (p := []) (q := []) (by simp) (by simp)
  rw [lines_registration hm.name hn, show State.initial = code 0 from rfl]
  simp only [feedLines, h₀, h₁, feedLines_append, hend, h₂, feedLines_registerLines hm.name, h₃]

end Bundle

end ModuleBundler
