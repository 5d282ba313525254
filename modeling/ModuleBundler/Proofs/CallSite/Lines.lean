import ModuleBundler.Proofs.CallSite.Redirect
import ModuleBundler.Proofs.Module.Loops
import Mathlib

/-!
Redirected lines hold no call site and are fixed points.

One pass of `redirectLine` over the bindings of a module's imports leaves no call site of any
of them (`callFree_redirectLine`), and on a text without call sites every pass is the identity,
so a second pass changes nothing (`redirectLine_idem`). This needs bindings whose redirection
makes no call site (`Binding.Redirectable`): a `(` in a specifier, a namespace named like the
registry, or a member with a character that is no name character each put a call site into
the text that replaces one.

In the textual mode, the function bodies and the statements of a parsed module are redirected
lines, so each is a fixed point (`parse_redirected_lines_fixed`). Parameter lists and class
fields are kept as written and may still hold call sites.
-/

namespace ModuleBundler

open ModuleBundler.Text ModuleBundler.Syntax

namespace Binding

/-- A binding whose redirection makes no call site of any such binding: its name is not empty
and, like its member, made of name characters, its specifier has no `(`, and it is no
namespace named like the registry. -/
structure Redirectable (b : Binding) : Prop where
  nonempty : b.localName ≠ ""
  name : ∀ c ∈ b.localName.toList, isNameChar c = true
  member : ∀ c ∈ b.member.toList, isNameChar c = true
  source : '(' ∉ b.source.toList
  notRegistry : b.wholeModule = true → b.localName ≠ registryName

theorem redirectable_iff (b : Binding) : b.Redirectable ↔
    b.localName ≠ "" ∧ (∀ c ∈ b.localName.toList, isNameChar c = true) ∧
      (∀ c ∈ b.member.toList, isNameChar c = true) ∧ '(' ∉ b.source.toList ∧
      (b.wholeModule = true → b.localName ≠ registryName) :=
  ⟨fun ⟨h₀, h₁, h₂, h₃, h₄⟩ => ⟨h₀, h₁, h₂, h₃, h₄⟩,
    fun ⟨h₀, h₁, h₂, h₃, h₄⟩ => ⟨h₀, h₁, h₂, h₃, h₄⟩⟩

instance (b : Binding) : Decidable b.Redirectable :=
  decidable_of_iff _ (redirectable_iff b).symm

variable {b b' : Binding}

theorem Redirectable.name_ne (hb : b.Redirectable) :
    b.wholeModule = true → b.localName.toList ≠ registryName.toList :=
  fun hw he => hb.notRegistry hw (String.toList_inj.1 he)

/-- A redirection leaves no call site of its own binding. -/
theorem not_calls_redirect (hb : b.Redirectable) (t : List Char) :
    ¬ b.Calls b.localName.toList none (b.redirect t) := fun h =>
  not_callsBeyond_self (calls_redirectFrom hb.name hb.member hb.source hb.name hb.name_ne h)

/-- A redirection makes no call site of another binding. -/
theorem calls_of_calls_redirect (hb : b.Redirectable) (hb' : b'.Redirectable) {t : List Char}
    (h : b'.Calls b'.localName.toList none (b.redirect t)) : b'.Calls b'.localName.toList none t :=
  (calls_redirectFrom hb.name hb.member hb.source hb'.name hb'.name_ne h).calls

theorem redirect_of_not_calls {t : List Char} (h : ¬ b.Calls b.localName.toList none t) :
    b.redirect t = t :=
  redirectFrom_of_not_calls h

end Binding

/-- A text holds no call site of any of the bindings. -/
def CallFree (bs : List Binding) (t : List Char) : Prop :=
  ∀ b ∈ bs, ¬ b.Calls b.localName.toList none t

variable {bs : List Binding}

@[simp] theorem redirectLine_cons_nil (b : Binding) (bs : List Binding) (t : List Char) :
    redirectLine (b :: bs) [] t = redirectLine bs [] (b.redirect t) := by
  simp [redirectLine]

/-- A pass over redirectable bindings makes no call site of a redirectable binding. -/
theorem calls_of_calls_redirectLine (hB : ∀ b ∈ bs, b.Redirectable) {b' : Binding}
    (hb' : b'.Redirectable) {t : List Char}
    (h : b'.Calls b'.localName.toList none (redirectLine bs [] t)) :
    b'.Calls b'.localName.toList none t := by
  induction bs generalizing t with
  | nil => exact h
  | cons b bs ih =>
    rw [redirectLine_cons_nil] at h
    have hrest := ih (fun c hc => hB c (List.mem_cons_of_mem _ hc)) h
    exact Binding.calls_of_calls_redirect (hB b List.mem_cons_self) hb' hrest

/-- A pass over redirectable bindings leaves no call site of any of them. -/
theorem callFree_redirectLine (hB : ∀ b ∈ bs, b.Redirectable) (t : List Char) :
    CallFree bs (redirectLine bs [] t) := by
  induction bs generalizing t with
  | nil => intro b hb; cases hb
  | cons b bs ih =>
    have hB' : ∀ c ∈ bs, c.Redirectable := fun c hc => hB c (List.mem_cons_of_mem _ hc)
    rw [redirectLine_cons_nil]
    intro c hc
    rcases List.mem_cons.1 hc with rfl | hc
    · -- the pass of `c` removes its call sites, and the passes after it make none
      exact fun h => Binding.not_calls_redirect (hB c List.mem_cons_self) t
        (calls_of_calls_redirectLine hB' (hB c List.mem_cons_self) h)
    · exact ih hB' _ c hc

/-- On a text without call sites, a pass changes nothing. -/
theorem redirectLine_of_callFree {t : List Char} (h : CallFree bs t) : redirectLine bs [] t = t := by
  induction bs with
  | nil => rfl
  | cons b bs ih =>
    rw [redirectLine_cons_nil, Binding.redirect_of_not_calls (h b List.mem_cons_self)]
    exact ih (fun c hc => h c (List.mem_cons_of_mem _ hc))

theorem redirectLine_idem (hB : ∀ b ∈ bs, b.Redirectable) (t : List Char) :
    redirectLine bs [] (redirectLine bs [] t) = redirectLine bs [] t :=
  redirectLine_of_callFree (callFree_redirectLine hB t)

example : redirectLine [⟨"a", "./a.js", "a", false⟩] [] "return a(x);".toList =
    "return mr.get('./a.js').a(x);".toList := by
  cbv

/-- A line written back from a pass holds no call site and is a fixed point. -/
theorem fixed_of_redirected (hB : ∀ b ∈ bs, b.Redirectable) {line l : String}
    (h : line = String.ofList (redirectLine bs [] l.toList)) :
    CallFree bs line.toList ∧ redirectLine bs [] line.toList = line.toList := by
  subst h
  rw [String.toList_ofList]
  exact ⟨callFree_redirectLine hB _, redirectLine_idem hB _⟩

/-! ### Parsed modules -/

theorem ClassDecl.functions_mapFunctions (g : FunctionDecl → FunctionDecl) (c : ClassDecl) :
    (c.mapFunctions g).functions = c.functions.map g := by
  simp [ClassDecl.functions, ClassDecl.mapFunctions, Option.toList_map]

theorem FunctionDecl.mem_body_redirectCalls {f : FunctionDecl} {line : String}
    (h : line ∈ (f.redirectCalls bs .textual).body) :
    ∃ l ∈ f.body, line = String.ofList (redirectLine bs [] l.toList) := by
  simpa [FunctionDecl.redirectCalls, eq_comm] using h

namespace Module

/-- The functions of a redirected module, class functions included, are the module's own with
their bodies redirected. -/
theorem redirectCalls_functions (mode : Scoping) (m : Module) :
    (m.redirectCalls mode).functions ++ ((m.redirectCalls mode).cls.map ClassDecl.functions).getD [] =
      (m.functions ++ (m.cls.map ClassDecl.functions).getD []).map
        (FunctionDecl.redirectCalls (Binding.ofImports m.imports) mode) := by
  rcases hc : m.cls with _ | c
  · simp [redirectCalls, hc]
  · simp [redirectCalls, hc, ClassDecl.functions_mapFunctions]

theorem parse_eq_ok {path source : String} {mode : Scoping} {m : Module}
    (h : parse path source mode = .ok m) : ∃ m₀, read path source = .ok m₀ ∧ m = m₀.redirectCalls mode := by
  unfold parse at h
  cases hr : read path source with
  | error e => rw [hr] at h; cases h
  | ok m₀ =>
    rw [hr] at h
    cases h
    exact ⟨m₀, rfl, rfl⟩

/-- In the textual mode, each line of a function body (functions, constructor, methods and the
functions after the class) and each statement of a parsed module holds no call site of the
bindings of its imports and is a fixed point of their redirection, when they are redirectable. -/
theorem parse_redirected_lines_fixed {path source : String} {m : Module}
    (h : parse path source .textual = .ok m)
    (hB : ∀ b ∈ Binding.ofImports m.imports, b.Redirectable) :
    (∀ f ∈ m.functions ++ (m.cls.map ClassDecl.functions).getD [], ∀ line ∈ f.body,
      CallFree (Binding.ofImports m.imports) line.toList ∧
        redirectLine (Binding.ofImports m.imports) [] line.toList = line.toList) ∧
    ∀ s ∈ m.statements, CallFree (Binding.ofImports m.imports) s.toList ∧
      redirectLine (Binding.ofImports m.imports) [] s.toList = s.toList := by
  obtain ⟨m₀, -, rfl⟩ := parse_eq_ok h
  constructor
  · intro f hf line hline
    rw [redirectCalls_functions, List.mem_map] at hf
    obtain ⟨f₀, -, rfl⟩ := hf
    obtain ⟨l, -, hl⟩ := FunctionDecl.mem_body_redirectCalls hline
    exact fixed_of_redirected hB hl
  · intro s hs
    obtain ⟨l, -, hl⟩ := List.mem_map.1 hs
    exact fixed_of_redirected hB hl.symm

/-- A module whose function, method and statement call an import, read item by item. -/
theorem read_calling_module :
    read "m.js"
      "import \x7ba\x7d from './a.js';\nfunction f() \x7b\n  return a(1);\n\x7d\nclass A \x7b\n  m() \x7b\n    return a(2);\n  \x7d\n\x7d\na(3);\n" =
      .ok { name := factoryName "m.js", path := "m.js", imports := [⟨.named, "./a.js", ["a"], [], 1⟩],
            cls := some { name := "A", exported := false, line := 5,
                          methods := [⟨"m", "()", false, false, 6, ["    return a(2);"]⟩] },
            functions := [⟨"f", "()", false, false, 2, ["  return a(1);"]⟩],
            statements := ["a(3);"] } := by
  have hlines : Line.ofSource
      "import \x7ba\x7d from './a.js';\nfunction f() \x7b\n  return a(1);\n\x7d\nclass A \x7b\n  m() \x7b\n    return a(2);\n  \x7d\n\x7d\na(3);\n".toList =
      [⟨1, "import \x7ba\x7d from './a.js';".toList⟩, ⟨2, "function f() \x7b".toList⟩,
        ⟨3, "  return a(1);".toList⟩, ⟨4, "\x7d".toList⟩, ⟨5, "class A \x7b".toList⟩,
        ⟨6, "  m() \x7b".toList⟩, ⟨7, "    return a(2);".toList⟩, ⟨8, "  \x7d".toList⟩,
        ⟨9, "\x7d".toList⟩, ⟨10, "a(3);".toList⟩] := by
    decide +kernel
  -- the class body: one method
  have hmeth : MethodRead ⟨6, "  m() \x7b".toList⟩ [⟨7, "    return a(2);".toList⟩, ⟨8, "  \x7d".toList⟩]
      ⟨"m", "()", false, false, 6, ["    return a(2);"]⟩ 2 :=
    ⟨⟨false, "m".toList, 1⟩, rfl, by decide +kernel⟩
  have hbody : members ⟨"A", false, 5, none, [], [], []⟩
      [⟨6, "  m() \x7b".toList⟩, ⟨7, "    return a(2);".toList⟩, ⟨8, "  \x7d".toList⟩] =
      .ok { name := "A", exported := false, line := 5,
            methods := [⟨"m", "()", false, false, 6, ["    return a(2);"]⟩] } := by
    rw [members_of_method (by unfold Skipped; decide +kernel) (by decide +kernel)
      (by decide +kernel) (by decide +kernel) hmeth (fun h => absurd h (by decide)),
      if_neg (by decide)]
    simp only [List.drop_succ_cons, List.drop_zero]
    rw [members]
    rfl
  have hhead : Header.class? (trim "class A \x7b".toList) =
      some ⟨false, false, "A".toList, "\x7b".toList, 8⟩ :=
    rfl
  have hspot : Line.braceSpot ⟨5, "class A \x7b".toList⟩ 8
      [⟨6, "  m() \x7b".toList⟩, ⟨7, "    return a(2);".toList⟩, ⟨8, "  \x7d".toList⟩,
        ⟨9, "\x7d".toList⟩, ⟨10, "a(3);".toList⟩] (.classDecl "A") =
      .ok ⟨0, ⟨5, "class A \x7b".toList⟩, 8,
        [⟨6, "  m() \x7b".toList⟩, ⟨7, "    return a(2);".toList⟩, ⟨8, "  \x7d".toList⟩,
          ⟨9, "\x7d".toList⟩, ⟨10, "a(3);".toList⟩]⟩ := by
    decide +kernel
  have hcls : Line.body ⟨5, "class A \x7b".toList⟩ 8
      [⟨6, "  m() \x7b".toList⟩, ⟨7, "    return a(2);".toList⟩, ⟨8, "  \x7d".toList⟩,
        ⟨9, "\x7d".toList⟩, ⟨10, "a(3);".toList⟩] =
      .ok ⟨[⟨6, "  m() \x7b".toList⟩, ⟨7, "    return a(2);".toList⟩, ⟨8, "  \x7d".toList⟩], 4⟩ := by
    decide +kernel
  -- the items: the import, the function, the class and the statement
  have h₁ : item {} ⟨1, "import \x7ba\x7d from './a.js';".toList⟩
      [⟨2, "function f() \x7b".toList⟩, ⟨3, "  return a(1);".toList⟩, ⟨4, "\x7d".toList⟩,
        ⟨5, "class A \x7b".toList⟩, ⟨6, "  m() \x7b".toList⟩, ⟨7, "    return a(2);".toList⟩,
        ⟨8, "  \x7d".toList⟩, ⟨9, "\x7d".toList⟩, ⟨10, "a(3);".toList⟩] =
      .ok ({ imports := [⟨.named, "./a.js", ["a"], [], 1⟩] }, 0) := by
    decide +kernel
  have h₂ : item { imports := [⟨.named, "./a.js", ["a"], [], 1⟩] } ⟨2, "function f() \x7b".toList⟩
      [⟨3, "  return a(1);".toList⟩, ⟨4, "\x7d".toList⟩, ⟨5, "class A \x7b".toList⟩,
        ⟨6, "  m() \x7b".toList⟩, ⟨7, "    return a(2);".toList⟩, ⟨8, "  \x7d".toList⟩,
        ⟨9, "\x7d".toList⟩, ⟨10, "a(3);".toList⟩] =
      .ok ({ imports := [⟨.named, "./a.js", ["a"], [], 1⟩],
             functions := [⟨"f", "()", false, false, 2, ["  return a(1);"]⟩] }, 2) := by
    decide +kernel
  have h₃ : item { imports := [⟨.named, "./a.js", ["a"], [], 1⟩],
                   functions := [⟨"f", "()", false, false, 2, ["  return a(1);"]⟩] }
      ⟨5, "class A \x7b".toList⟩
      [⟨6, "  m() \x7b".toList⟩, ⟨7, "    return a(2);".toList⟩, ⟨8, "  \x7d".toList⟩,
        ⟨9, "\x7d".toList⟩, ⟨10, "a(3);".toList⟩] =
      .ok ({ imports := [⟨.named, "./a.js", ["a"], [], 1⟩],
             functions := [⟨"f", "()", false, false, 2, ["  return a(1);"]⟩],
             cls := some { name := "A", exported := false, line := 5,
                           methods := [⟨"m", "()", false, false, 6, ["    return a(2);"]⟩] } },
        4) := by
    rw [item_of_class (by decide +kernel) (by decide +kernel) rfl hhead,
      classItem_of_members rfl (by decide +kernel) hspot hcls hbody]
    rfl
  have h₄ : item { imports := [⟨.named, "./a.js", ["a"], [], 1⟩],
                   functions := [⟨"f", "()", false, false, 2, ["  return a(1);"]⟩],
                   cls := some { name := "A", exported := false, line := 5,
                                 methods := [⟨"m", "()", false, false, 6, ["    return a(2);"]⟩] } }
      ⟨10, "a(3);".toList⟩ [] =
      .ok ({ imports := [⟨.named, "./a.js", ["a"], [], 1⟩],
             functions := [⟨"f", "()", false, false, 2, ["  return a(1);"]⟩],
             cls := some { name := "A", exported := false, line := 5,
                           methods := [⟨"m", "()", false, false, 6, ["    return a(2);"]⟩] },
             statements := ["a(3);"] }, 0) := by
    decide +kernel
  unfold read
  rw [hlines, items_of_item (by unfold Skipped; decide +kernel) (by decide +kernel) h₁]
  simp only [List.drop_succ_cons, List.drop_zero]
  rw [items_of_item (by unfold Skipped; decide +kernel) (by decide +kernel) h₂]
  simp only [List.drop_succ_cons, List.drop_zero]
  rw [items_of_item (by unfold Skipped; decide +kernel) (by decide +kernel) h₃]
  simp only [List.drop_succ_cons, List.drop_zero]
  rw [items_of_item (by unfold Skipped; decide +kernel) (by decide +kernel) h₄]
  simp only [List.drop_succ_cons, List.drop_zero]
  rw [items]

theorem parse_calling_module : parse "m.js"
    "import \x7ba\x7d from './a.js';\nfunction f() \x7b\n  return a(1);\n\x7d\nclass A \x7b\n  m() \x7b\n    return a(2);\n  \x7d\n\x7d\na(3);\n"
    .textual = .ok (redirectCalls .textual
      { name := factoryName "m.js", path := "m.js", imports := [⟨.named, "./a.js", ["a"], [], 1⟩],
        cls := some { name := "A", exported := false, line := 5,
                      methods := [⟨"m", "()", false, false, 6, ["    return a(2);"]⟩] },
        functions := [⟨"f", "()", false, false, 2, ["  return a(1);"]⟩],
        statements := ["a(3);"] }) := by
  rw [parse, read_calling_module]
  rfl

/-- A module whose function, method and statement call an import: its redirected lines hold no
call site and are fixed points. -/
theorem calling_lines_fixed :
    ∃ m, parse "m.js"
        "import \x7ba\x7d from './a.js';\nfunction f() \x7b\n  return a(1);\n\x7d\nclass A \x7b\n  m() \x7b\n    return a(2);\n  \x7d\n\x7d\na(3);\n"
        .textual = .ok m ∧
      (∀ b ∈ Binding.ofImports m.imports, b.Redirectable) ∧
      (m.functions ++ (m.cls.map ClassDecl.functions).getD []).map FunctionDecl.body =
        [["  return mr.get('./a.js').a(1);"], ["    return mr.get('./a.js').a(2);"]] ∧
      m.statements = ["mr.get('./a.js').a(3);"] ∧
      (∀ f ∈ m.functions ++ (m.cls.map ClassDecl.functions).getD [], ∀ line ∈ f.body,
        CallFree (Binding.ofImports m.imports) line.toList ∧
          redirectLine (Binding.ofImports m.imports) [] line.toList = line.toList) ∧
      ∀ s ∈ m.statements, CallFree (Binding.ofImports m.imports) s.toList ∧
        redirectLine (Binding.ofImports m.imports) [] s.toList = s.toList := by
  have hparse := parse_calling_module
  have hB : ∀ b ∈ Binding.ofImports [⟨.named, "./a.js", ["a"], [], 1⟩], b.Redirectable := by
    simp [Binding.ofImports, Import.memberFor, Binding.redirectable_iff, registryName]
    decide
  exact ⟨_, hparse, hB, by decide +kernel, by decide +kernel, parse_redirected_lines_fixed hparse hB⟩

end Module

end ModuleBundler
