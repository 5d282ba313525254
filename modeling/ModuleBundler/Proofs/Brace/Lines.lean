import ModuleBundler.Syntax.Brace
import Mathlib

/-!
The brace tracker fed a whole text, line by line.

The tracker does the same at every depth: started one level deeper, it gives the same events
one level deeper (`scan_lift`). Characters that are no quote, brace, slash or line break pass
unseen (`scan_plain`). A `Span d d'` is a list of lines that, fed from code at depth `d`, ends
in code at depth `d'` and never leaves the depth below the lower of the two; spans chain
(`Span.append`), move to any depth (`Span.lift`) and keep a plain prefix (`Span.prepend`).
-/

namespace ModuleBundler

namespace Text

theorem splitOn_append_newline (a b : List Char) :
    (a ++ '\n' :: b).splitOn '\n' = a.splitOn '\n' ++ b.splitOn '\n' := by
  induction a with
  | nil => simp [List.splitOn, List.splitOnP_cons_eq_if_modifyHead]
  | cons c a ih =>
    simp only [List.splitOn] at ih ⊢
    rw [List.cons_append, List.splitOnP_cons_eq_if_modifyHead, ih,
      List.splitOnP_cons_eq_if_modifyHead]
    split
    · simp
    · obtain ⟨x, xs, hx⟩ := List.exists_cons_of_ne_nil (List.splitOnP_ne_nil (· == '\n') a)
      rw [hx]
      rfl

theorem lines_append_newline (a b : List Char) :
    lines (a ++ '\n' :: b) = lines (a ++ ['\n']) ++ lines b := by
  have hb : b.splitOn '\n' ≠ [] := List.splitOnP_ne_nil _ b
  have hn : ([] : List Char).splitOn '\n' = [[]] := rfl
  simp only [lines, splitOn_append_newline, hn, List.dropLast_append_of_ne_nil hb,
    List.getLast?_append_of_ne_nil _ hb]
  simp

/-- A text that ends a line splits into its own lines and those of what follows. -/
theorem lines_append_of_newline {a b : List Char} (h : a.getLast? = some '\n') :
    lines (a ++ b) = lines a ++ lines b := by
  obtain ⟨a', rfl⟩ := List.getLast?_eq_some_iff.1 h
  rw [List.append_assoc, List.singleton_append, lines_append_newline]

theorem lines_flatten {ts : List (List Char)} (h : ∀ t ∈ ts, t.getLast? = some '\n') :
    lines ts.flatten = ts.flatMap lines := by
  induction ts with
  | nil => rfl
  | cons t ts ih =>
    rw [List.flatten_cons, lines_append_of_newline (h t List.mem_cons_self),
      ih (fun x hx => h x (List.mem_cons_of_mem _ hx)), List.flatMap_cons]

theorem lines_endLine {l : List Char} (hn : '\n' ∉ l) : lines (l ++ ['\n']) = [dropFinalReturn l] := by
  have hs : l.splitOn '\n' = [l] :=
    List.splitOnP_eq_singleton (fun c hc => by
      simp only [beq_eq_false_iff_ne, ne_eq]
      rintro rfl
      exact hn hc)
  have hsplit : (l ++ ['\n']).splitOn '\n' = [l, []] := by
    rw [splitOn_append_newline, hs]
    rfl
  simp [lines, hsplit]

theorem lines_line {l : List Char} (hn : '\n' ∉ l) (hr : l.getLast? ≠ some '\r') :
    lines (l ++ ['\n']) = [l] := by
  rw [lines_endLine hn, dropFinalReturn, if_neg hr]

theorem dropFinalReturn_cons {c : Char} (hc : c ≠ '\r') (x : List Char) :
    dropFinalReturn (c :: x) = c :: dropFinalReturn x := by
  cases x with
  | nil => simp [dropFinalReturn, hc]
  | cons y ys =>
    unfold dropFinalReturn
    simp only [List.getLast?_cons_cons]
    split <;> simp

theorem lines_cons {c : Char} (hn : c ≠ '\n') (hr : c ≠ '\r') {s : List Char} (hs : s ≠ []) :
    lines (c :: s) = (lines s).modifyHead (c :: ·) := by
  have hsplit : (c :: s).splitOn '\n' = (s.splitOn '\n').modifyHead (c :: ·) := by
    simp [List.splitOn, List.splitOnP_cons_eq_if_modifyHead, hn]
  unfold lines
  rw [hsplit]
  obtain ⟨x, xs, hx⟩ := List.exists_cons_of_ne_nil (List.splitOnP_ne_nil (· == '\n') s)
  simp only [List.splitOn] at hx ⊢
  rw [hx]
  cases xs with
  | nil =>
    -- a single piece is the whole text, which is not empty
    have hxs : x = s := by
      have h := @List.intercalate_splitOn Char s _ _ '\n'
      simp only [List.splitOn, hx] at h
      simpa using h
    subst hxs
    simp [hs]
  | cons y ys =>
    simp [List.getLast?_cons_cons, dropFinalReturn_cons hr]

end Text

namespace Brace

open Text

/-- A character the tracker passes over in code, and that neither ends a line nor is dropped
at its end. -/
def plain (c : Char) : Bool :=
  !(['/', '\'', '"', '`', '\x7b', '\x7d', '\n', '\r'].contains c)

theorem lines_prepend {p t : List Char} (hp : ∀ c ∈ p, plain c) (ht : t ≠ []) :
    lines (p ++ t) = (lines t).modifyHead (p ++ ·) := by
  induction p with
  | nil =>
    rw [List.nil_append]
    cases lines t <;> rfl
  | cons c p ih =>
    have hc := hp c List.mem_cons_self
    simp only [plain, List.contains_cons, List.contains_nil] at hc
    have hn : c ≠ '\n' := by rintro rfl; simp at hc
    have hr : c ≠ '\r' := by rintro rfl; simp at hc
    rw [List.cons_append, lines_cons hn hr (by simp [ht]),
      ih (fun x hx => hp x (List.mem_cons_of_mem _ hx))]
    cases lines t <;> simp

/-- Code at depth `d`: no block comment and no template literal open. -/
def State.code (d : Int) : State := { depth := d }

/-- The state `d` levels deeper. -/
def State.lift (d : Int) (s : State) : State := { s with depth := s.depth + d }

/-- An event `k` characters further on and `d` levels deeper. -/
def Event.shift (k : Nat) (d : Int) (e : Event) : Event := ⟨e.offset + k, e.opens, e.depth + d⟩

/-- A move `k` characters further on and `d` levels deeper. -/
def State.Move.shift (k : Nat) (d : Int) (m : State.Move) : State.Move :=
  { m with state := m.state.lift d, event := m.event.map (Event.shift k d) }

namespace State

@[simp] theorem inComment_lift (s : State) (d : Int) : (s.lift d).inComment = s.inComment := rfl
@[simp] theorem layers_lift (s : State) (d : Int) : (s.lift d).layers = s.layers := rfl
@[simp] theorem lift_zero (s : State) : s.lift 0 = s := by simp [lift]
@[simp] theorem code_lift (a d : Int) : (code a).lift d = code (a + d) := rfl
@[simp] theorem shift_zero_zero (e : Event) : e.shift 0 0 = e := by simp [Event.shift]
@[simp] theorem depth_shift (e : Event) (k : Nat) (d : Int) : (e.shift k d).depth = e.depth + d :=
  rfl

theorem openBrace_lift (s : State) (d : Int) (pos k : Nat) :
    (s.lift d).openBrace (pos + k) =
      ((s.openBrace pos).1.lift d, (s.openBrace pos).2.map (Event.shift k d)) := by
  unfold openBrace lift
  split <;> simp_all [Event.shift]; omega

theorem closeBrace_lift (s : State) (d : Int) (pos k : Nat) :
    (s.lift d).closeBrace (pos + k) =
      ((s.closeBrace pos).1.lift d, (s.closeBrace pos).2.map (Event.shift k d)) := by
  unfold closeBrace lift
  split <;> simp_all [Event.shift]; omega

theorem step_lift (s : State) (d : Int) (q : Option Char) (pos k : Nat) (c : Char)
    (next : Option Char) :
    (s.lift d).step q (pos + k) c next = (s.step q pos c next).shift k d := by
  unfold step
  simp only [inComment_lift, layers_lift]
  by_cases hc : s.inComment
  · simp only [hc, if_true]
    split_ifs <;> rfl
  · simp only [hc, Bool.false_eq_true, if_false]
    cases q with
    | some q => simp only; split_ifs <;> rfl
    | none =>
      simp only
      split
      · split_ifs <;> rfl
      · split_ifs <;> simp [openBrace_lift, closeBrace_lift, Move.shift] <;> rfl

/-- Scanning from a deeper state, further on in the line, gives the same run shifted. -/
theorem scan_lift (d : Int) (k : Nat) (s : State) (q : Option Char) (pos : Nat)
    (cs : List Char) :
    (s.lift d).scan q (pos + k) cs =
      ((s.scan q pos cs).1.lift d, (s.scan q pos cs).2.map (Event.shift k d)) := by
  fun_induction s.scan q pos cs with
  | case1 s q pos => simp [scan]
  | case2 s q pos c rest m hstop =>
    rw [scan, step_lift]
    simp [Move.shift, m, hstop]
  | case3 s q pos c rest m hstop s' evs heq ih =>
    simp only [m, dite_eq_ite] at hstop ih heq
    rw [scan, step_lift]
    simp only [Move.shift, hstop, Bool.false_eq_true, if_false]
    rw [Nat.add_right_comm pos k, ih, heq]
    simp [Option.toList_map, m]

theorem feed_lift (s : State) (d : Int) (l : List Char) :
    (s.lift d).feed l = ((s.feed l).1.lift d, (s.feed l).2.map (Event.shift 0 d)) :=
  scan_lift d 0 s none 0 l

theorem step_plain {c : Char} (hc : plain c) (d : Int) (pos : Nat) (next : Option Char) :
    (code d).step none pos c next = { state := code d, quote := none } := by
  simp only [plain, List.contains_cons, List.contains_nil] at hc
  simp at hc
  obtain ⟨h1, h2, h3, h4, h5, h6, -, -⟩ := hc
  simp [step, code, h1, h2, h3, h4, h5, h6]

/-- Plain characters leave code as it is. -/
theorem scan_plain (d : Int) :
    ∀ (p : List Char) (pos : Nat) (cs : List Char), (∀ c ∈ p, plain c) →
      (code d).scan none pos (p ++ cs) = (code d).scan none (pos + p.length) cs
  | [], pos, cs, _ => rfl
  | c :: p, pos, cs, hp => by
    rw [List.cons_append, scan, step_plain (hp c List.mem_cons_self)]
    simp only [Bool.false_eq_true, if_false, Option.toList_none, List.nil_append]
    rw [scan_plain d p (pos + 1) cs (fun x hx => hp x (List.mem_cons_of_mem _ hx))]
    rw [List.length_cons, Nat.add_right_comm, Nat.add_assoc]

theorem feed_plain {d : Int} {p : List Char} (hp : ∀ c ∈ p, plain c) :
    (code d).feed p = (code d, []) := by
  have h := scan_plain d p 0 [] hp
  rw [List.append_nil] at h
  rw [feed, h, scan]

theorem feed_open {d : Int} {p : List Char} (hp : ∀ c ∈ p, plain c) :
    (code d).feed (p ++ ['\x7b']) = (code (d + 1), [⟨p.length, true, d + 1⟩]) := by
  rw [feed, scan_plain d p 0 _ hp, scan]
  simp [step, openBrace, code, scan]

theorem feed_close {d : Int} {p q : List Char} (hp : ∀ c ∈ p, plain c) (hq : ∀ c ∈ q, plain c) :
    (code (d + 1)).feed (p ++ '\x7d' :: q) = (code d, [⟨p.length, false, d⟩]) := by
  have hstep : (code (d + 1)).step none (0 + p.length) '\x7d' q.head? =
      { state := code d, quote := none, event := some ⟨p.length, false, d⟩ } := by
    simp [step, closeBrace, code]
  have hrest : (code d).scan none (p.length + 1) q = (code d, []) := by
    rw [← List.append_nil q, scan_plain d q _ [] hq, scan]
  rw [feed, scan_plain _ p 0 _ hp, scan, hstep]
  simp [hrest]

/-- Feeds lines one after another: each line with the events it gave, and the state after
the last. -/
def feedLines (s : State) : List (List Char) → List (List Char × List Event) × State
  | [] => ([], s)
  | l :: ls =>
    let r := (s.feed l).1.feedLines ls
    ((l, (s.feed l).2) :: r.1, r.2)

theorem feedLines_append (s : State) (ls ls' : List (List Char)) :
    s.feedLines (ls ++ ls') =
      ((s.feedLines ls).1 ++ ((s.feedLines ls).2.feedLines ls').1,
        ((s.feedLines ls).2.feedLines ls').2) := by
  induction ls generalizing s with
  | nil => rfl
  | cons l ls ih => simp [feedLines, ih]

theorem feedLines_lift (s : State) (d : Int) (ls : List (List Char)) :
    (s.lift d).feedLines ls =
      ((s.feedLines ls).1.map (fun p => (p.1, p.2.map (Event.shift 0 d))),
        (s.feedLines ls).2.lift d) := by
  induction ls generalizing s with
  | nil => rfl
  | cons l ls ih => simp [feedLines, feed_lift, ih]

end State

open State

/-- No event of a trace leaves the depth below `d`. -/
def Above (d : Int) (tr : List (List Char × List Event)) : Prop :=
  ∀ p ∈ tr, ∀ e ∈ p.2, d ≤ e.depth

theorem Above.mono {d d' : Int} {tr : List (List Char × List Event)} (h : Above d tr)
    (hle : d' ≤ d) : Above d' tr :=
  fun p hp e he => hle.trans (h p hp e he)

theorem above_append {d : Int} {tr tr' : List (List Char × List Event)} :
    Above d (tr ++ tr') ↔ Above d tr ∧ Above d tr' := by
  simp only [Above, List.mem_append]
  constructor
  · intro h
    exact ⟨fun p hp => h p (.inl hp), fun p hp => h p (.inr hp)⟩
  · rintro ⟨h, h'⟩ p (hp | hp)
    · exact h p hp
    · exact h' p hp

/-- Lines that, fed from code at depth `d`, end in code at depth `d'` and never leave the
depth below the lower of the two. -/
def Span (d d' : Int) (ls : List (List Char)) : Prop :=
  ((code d).feedLines ls).2 = code d' ∧ Above (min d d') ((code d).feedLines ls).1

namespace Span

/-- `Span` as a computation: feed the lines and look at the end state and every event. -/
def check (d d' : Int) (ls : List (List Char)) : Bool :=
  ((code d).feedLines ls).2 == code d' &&
    ((code d).feedLines ls).1.all fun p => p.2.all fun e => decide (min d d' ≤ e.depth)

theorem check_iff {d d' : Int} {ls : List (List Char)} : check d d' ls = true ↔ Span d d' ls := by
  simp only [check, Bool.and_eq_true, beq_iff_eq, List.all_eq_true, decide_eq_true_eq]
  rfl

theorem nil (d : Int) : Span d d [] :=
  ⟨rfl, fun _ h => by simp [feedLines] at h⟩

theorem append {a b c : Int} {ls ls' : List (List Char)} (h : Span a b ls) (h' : Span b c ls')
    (hb : min a c ≤ b) : Span a c (ls ++ ls') := by
  obtain ⟨hend, habove⟩ := h
  obtain ⟨hend', habove'⟩ := h'
  refine ⟨by rw [feedLines_append, hend, hend'], ?_⟩
  rw [feedLines_append, hend, above_append]
  exact ⟨habove.mono (le_min (min_le_left a c) hb), habove'.mono (le_min hb (min_le_right a c))⟩

/-- A span keeps its shape at any depth. -/
theorem lift {a b : Int} {ls : List (List Char)} (h : Span a b ls) (d : Int) :
    Span (a + d) (b + d) ls := by
  obtain ⟨hend, habove⟩ := h
  have hcode : code (a + d) = (code a).lift d := rfl
  refine ⟨by rw [hcode, feedLines_lift, hend]; rfl, ?_⟩
  rw [hcode, feedLines_lift, min_add_add_right]
  intro p hp e he
  obtain ⟨⟨l, evs⟩, hq, rfl⟩ := List.mem_map.1 hp
  obtain ⟨e', he', rfl⟩ := List.mem_map.1 he
  simpa using habove _ hq e' he'

/-- A plain prefix on the first line changes no depth. -/
theorem prepend {a b : Int} {ls : List (List Char)} {p : List Char} (hp : ∀ c ∈ p, plain c)
    (h : Span a b ls) : Span a b (ls.modifyHead (p ++ ·)) := by
  cases ls with
  | nil => exact h
  | cons l ls =>
    have hfeed : (code a).feed (p ++ l) =
        (((code a).feed l).1, ((code a).feed l).2.map (Event.shift p.length 0)) := by
      rw [feed, scan_plain a p 0 l hp, ← lift_zero (code a), scan_lift 0 p.length]
      simp [feed]
    obtain ⟨hend, habove⟩ := h
    simp only [feedLines] at hend habove
    refine ⟨by simpa [feedLines, hfeed] using hend, ?_⟩
    intro q hq e he
    simp only [List.modifyHead_cons, feedLines, hfeed, List.mem_cons] at hq
    rcases hq with rfl | hq
    · obtain ⟨e', he', rfl⟩ := List.mem_map.1 he
      simpa using habove _ List.mem_cons_self e' he'
    · exact habove q (List.mem_cons_of_mem _ hq) e he

theorem plainLine {d : Int} {l : List Char} (hl : ∀ c ∈ l, plain c) : Span d d [l] := by
  refine ⟨by simp [feedLines, feed_plain hl], ?_⟩
  simp [Above, feedLines, feed_plain hl]

theorem openLine {d : Int} {p : List Char} (hp : ∀ c ∈ p, plain c) :
    Span d (d + 1) [p ++ ['\x7b']] := by
  refine ⟨by simp [feedLines, feed_open hp], ?_⟩
  simp [Above, feedLines, feed_open hp]

theorem closeLine {d : Int} {p q : List Char} (hp : ∀ c ∈ p, plain c) (hq : ∀ c ∈ q, plain c) :
    Span (d + 1) d [p ++ '\x7d' :: q] := by
  refine ⟨by simp [feedLines, feed_close hp hq], ?_⟩
  simp [Above, feedLines, feed_close hp hq]

end Span

end Brace

end ModuleBundler
