import ModuleBundler.Proofs.Brace.Lines

/-!
What the brace tracker keeps true, character after character and line after line.

A character can change the template layers in few ways (`LayerMove`): a backtick opens a
template literal where none is innermost or ends the innermost one, `${` opens a hole in it,
and a brace in a hole opens or closes one of the hole's own braces, or ends the hole when none
is open. Every move keeps the layers alternating, a template literal outermost
(`Alternating`), so every run from a fresh tracker does (`feedLines_alternating`) and the
tracker is mid-token exactly when a block comment or a template literal is open.

A counted brace is read only in code at the top, with no layer, no comment and no string open
(`step_event`). The depths of the events of a line run from the depth before it, one up for an
open and one down for a close, and the depth after the line is the last of them (`Counted`,
`scan_counted`).

`State.reads` lists the characters a scan reads with the state each is read in; the events of
the scan are the events of these reads (`scan_events`).
-/

namespace ModuleBundler.Brace

namespace Layer

/-- A hole, as against the text of a template literal. -/
def isHole : Layer → Bool
  | .template => false
  | .hole _ => true

end Layer

/-- Layers, innermost first, that alternate between holes and template literals, the outermost
a template literal: a hole opens only in the text of a literal, and a literal other than the
outermost only in a hole. -/
def Alternating : List Layer → Prop
  | [] => True
  | [l] => l = .template
  | l :: l' :: rest => l.isHole ≠ l'.isHole ∧ Alternating (l' :: rest)

instance decidableAlternating : DecidablePred Alternating
  | [] => inferInstanceAs (Decidable True)
  | [l] => inferInstanceAs (Decidable (l = .template))
  | l :: l' :: rest =>
    have := decidableAlternating (l' :: rest)
    inferInstanceAs (Decidable (l.isHole ≠ l'.isHole ∧ Alternating (l' :: rest)))

namespace Alternating

theorem tail {l : Layer} {ls : List Layer} (h : Alternating (l :: ls)) : Alternating ls := by
  cases ls with
  | nil => trivial
  | cons l' rest => exact h.2

/-- The count of the innermost hole does not matter. -/
theorem hole {n m : Nat} {ls : List Layer} (h : Alternating (.hole n :: ls)) :
    Alternating (.hole m :: ls) := by
  cases ls with
  | nil => cases h
  | cons l' rest => exact h

theorem template_mem {ls : List Layer} (h : Alternating ls) (hne : ls ≠ []) :
    Layer.template ∈ ls := by
  induction ls with
  | nil => exact absurd rfl hne
  | cons l ls ih =>
    cases ls with
    | nil =>
      rw [show l = .template from h]
      exact List.mem_singleton_self _
    | cons l' rest => exact List.mem_cons_of_mem _ (ih h.2 (List.cons_ne_nil _ _))

end Alternating

/-- How one character can change the layers. -/
inductive LayerMove : List Layer → List Layer → Prop
  /-- The layers stay as they are. -/
  | stay (ls : List Layer) : LayerMove ls ls
  /-- A backtick in code opens a template literal, at the top or in a hole. -/
  | openTemplate {ls : List Layer} : (∀ r, ls ≠ .template :: r) → LayerMove ls (.template :: ls)
  /-- A backtick in the text of a template literal ends it. -/
  | closeTemplate (ls : List Layer) : LayerMove (.template :: ls) ls
  /-- `${` in the text of a template literal opens a hole in it. -/
  | openHole (ls : List Layer) : LayerMove (.template :: ls) (.hole 0 :: .template :: ls)
  /-- A `{` in a hole opens one more of the hole's own braces. -/
  | enter (n : Nat) (ls : List Layer) : LayerMove (.hole n :: ls) (.hole (n + 1) :: ls)
  /-- A `}` in a hole closes one of the hole's own braces, when one is open. -/
  | leave (n : Nat) (ls : List Layer) : LayerMove (.hole (n + 1) :: ls) (.hole n :: ls)
  /-- A `}` in a hole with none of its own braces open ends the hole. -/
  | closeHole (ls : List Layer) : LayerMove (.hole 0 :: ls) ls

theorem LayerMove.alternating {ls ls' : List Layer} (h : LayerMove ls ls')
    (ha : Alternating ls) : Alternating ls' := by
  cases h with
  | stay => exact ha
  | openTemplate hne =>
    cases ls with
    | nil => rfl
    | cons l rest =>
      -- a literal opens on top of a hole, never directly in another literal
      cases l with
      | template => exact absurd rfl (hne rest)
      | hole n => exact ⟨by simp [Layer.isHole], ha⟩
  | closeTemplate => exact ha.tail
  | openHole => exact ⟨by simp [Layer.isHole], ha⟩
  | enter => exact ha.hole
  | leave => exact ha.hole
  | closeHole => exact ha.tail

/-- One up for an event that opens, one down for one that closes. -/
def Event.delta (e : Event) : Int := if e.opens then 1 else -1

/-- Events whose depths run from `d`: each is the depth before it, one up if it opens and one
down if it closes. -/
def Counted : Int → List Event → Prop
  | _, [] => True
  | d, e :: evs => e.depth = d + e.delta ∧ Counted e.depth evs

namespace Counted

theorem append {d : Int} {a b : List Event} :
    Counted d (a ++ b) ↔ Counted d a ∧ Counted (d + (a.map Event.delta).sum) b := by
  induction a generalizing d with
  | nil => simp [Counted]
  | cons e a ih =>
    simp only [List.cons_append, Counted, ih, List.map_cons, List.sum_cons]
    constructor
    · rintro ⟨he, ha, hb⟩
      exact ⟨⟨he, ha⟩, by rwa [he, add_assoc] at hb⟩
    · rintro ⟨⟨he, ha⟩, hb⟩
      exact ⟨he, ha, by rwa [he, add_assoc]⟩

/-- The running count, read off by position: the `i`-th event is the depth before the events
plus the opens less the closes among the first `i + 1` of them. -/
theorem depth_getElem {d : Int} {evs : List Event} (h : Counted d evs) (i : Nat)
    (hi : i < evs.length) : evs[i].depth = d + ((evs.take (i + 1)).map Event.delta).sum := by
  induction evs generalizing d i with
  | nil => cases hi
  | cons e evs ih =>
    obtain ⟨he, hrest⟩ := h
    cases i with
    | zero => simpa using he
    | succ i =>
      rw [List.getElem_cons_succ, ih hrest i (by simpa using hi), he]
      simp [add_assoc]

/-- The depth of the last event is the depth before them all plus their opens less their
closes; without events it is the depth before. -/
theorem last_depth {d : Int} {evs : List Event} (h : Counted d evs) :
    (evs.getLast?.map Event.depth).getD d = d + (evs.map Event.delta).sum := by
  induction evs generalizing d with
  | nil => simp
  | cons e evs ih =>
    obtain ⟨he, hrest⟩ := h
    have hlast := ih hrest
    rw [List.getLast?_cons, List.map_cons, List.sum_cons, ← add_assoc, ← he, ← hlast]
    cases evs.getLast? <;> rfl

end Counted

namespace State

theorem openBrace_layerMove (s : State) (pos : Nat) :
    LayerMove s.layers (s.openBrace pos).1.layers := by
  unfold openBrace
  split
  · rename_i n rest hl
    rw [hl]
    exact .enter n rest
  · exact .stay _

theorem closeBrace_layerMove (s : State) (pos : Nat) :
    LayerMove s.layers (s.closeBrace pos).1.layers := by
  unfold closeBrace
  split
  · rename_i rest hl
    rw [hl]
    exact .closeHole rest
  · rename_i n rest hl
    rw [hl]
    exact .leave n rest
  · exact .stay _

/-- Where a brace counts: no block comment and no string open, and no template literal's text
innermost. -/
def InCode (s : State) (q : Option Char) : Prop :=
  s.inComment = false ∧ q = none ∧ ∀ r, s.layers ≠ .template :: r

theorem step_open {s : State} {q : Option Char} (h : s.InCode q) (pos : Nat)
    (next : Option Char) :
    s.step q pos '\x7b' next =
      { state := (s.openBrace pos).1, quote := none, event := (s.openBrace pos).2 } := by
  obtain ⟨hc, rfl, hl⟩ := h
  -- the innermost layer, if any, is a hole
  rcases hls : s.layers with _ | ⟨_ | n, r⟩
  · simp [step, hc, hls]
  · exact absurd hls (hl r)
  · simp [step, hc, hls]

theorem step_close {s : State} {q : Option Char} (h : s.InCode q) (pos : Nat)
    (next : Option Char) :
    s.step q pos '\x7d' next =
      { state := (s.closeBrace pos).1, quote := none, event := (s.closeBrace pos).2 } := by
  obtain ⟨hc, rfl, hl⟩ := h
  -- the innermost layer, if any, is a hole
  rcases hls : s.layers with _ | ⟨_ | n, r⟩
  · simp [step, hc, hls]
  · exact absurd hls (hl r)
  · simp [step, hc, hls]

/-- Every character but a brace in code gives no event, keeps the depth and moves the layers
by a `LayerMove`. -/
theorem step_other {s : State} {q : Option Char} {c : Char}
    (h : ¬(s.InCode q ∧ (c = '\x7b' ∨ c = '\x7d'))) (pos : Nat) (next : Option Char) :
    (s.step q pos c next).event = none ∧ (s.step q pos c next).state.depth = s.depth ∧
      LayerMove s.layers (s.step q pos c next).state.layers := by
  unfold step
  by_cases hc : s.inComment
  · simp only [hc, if_true]
    split_ifs <;> exact ⟨rfl, rfl, .stay _⟩
  · simp only [hc, Bool.false_eq_true, if_false]
    cases q with
    | some q =>
      simp only
      split_ifs <;> exact ⟨rfl, rfl, .stay _⟩
    | none =>
      simp only
      split
      · -- in the text of a template literal
        rename_i outer hl
        split_ifs
        · exact ⟨rfl, rfl, .stay _⟩
        · exact ⟨rfl, rfl, hl ▸ .closeTemplate outer⟩
        · exact ⟨rfl, rfl, hl ▸ .openHole outer⟩
        · exact ⟨rfl, rfl, .stay _⟩
      · -- in code, where only the two braces are left out
        rename_i hl
        have hin : s.InCode none := ⟨by simpa using hc, rfl, hl⟩
        split_ifs with h₁ h₂ h₃ h₄ h₅ h₆
        · exact ⟨rfl, rfl, .stay _⟩
        · exact ⟨rfl, rfl, .stay _⟩
        · exact ⟨rfl, rfl, .stay _⟩
        · exact ⟨rfl, rfl, .openTemplate hl⟩
        · exact absurd ⟨hin, .inl h₅⟩ h
        · exact absurd ⟨hin, .inr h₆⟩ h
        · exact ⟨rfl, rfl, .stay _⟩

/-- What one character can do: a brace in code goes through `openBrace` or `closeBrace`, and
any other character gives no event, keeps the depth and moves the layers by a `LayerMove`. -/
theorem step_cases (s : State) (q : Option Char) (pos : Nat) (c : Char) (next : Option Char) :
    (s.InCode q ∧ c = '\x7b' ∧ s.step q pos c next =
        { state := (s.openBrace pos).1, quote := none, event := (s.openBrace pos).2 }) ∨
    (s.InCode q ∧ c = '\x7d' ∧ s.step q pos c next =
        { state := (s.closeBrace pos).1, quote := none, event := (s.closeBrace pos).2 }) ∨
    ((s.step q pos c next).event = none ∧ (s.step q pos c next).state.depth = s.depth ∧
      LayerMove s.layers (s.step q pos c next).state.layers) := by
  by_cases hb : s.InCode q ∧ (c = '\x7b' ∨ c = '\x7d')
  · obtain ⟨hin, rfl | rfl⟩ := hb
    · exact .inl ⟨hin, rfl, step_open hin pos next⟩
    · exact .inr (.inl ⟨hin, rfl, step_close hin pos next⟩)
  · exact .inr (.inr (step_other hb pos next))

theorem step_layerMove (s : State) (q : Option Char) (pos : Nat) (c : Char)
    (next : Option Char) : LayerMove s.layers (s.step q pos c next).state.layers := by
  rcases step_cases s q pos c next with ⟨-, -, hstep⟩ | ⟨-, -, hstep⟩ | ⟨-, -, hmove⟩
  · rw [hstep]
    exact openBrace_layerMove s pos
  · rw [hstep]
    exact closeBrace_layerMove s pos
  · exact hmove

theorem openBrace_event {s : State} {pos : Nat} {e : Event} (h : (s.openBrace pos).2 = some e) :
    (∀ n r, s.layers ≠ .hole n :: r) ∧ e.opens = true := by
  unfold openBrace at h
  split at h
  · cases h
  · rename_i hl
    cases h
    exact ⟨hl, rfl⟩

theorem closeBrace_event {s : State} {pos : Nat} {e : Event}
    (h : (s.closeBrace pos).2 = some e) : (∀ n r, s.layers ≠ .hole n :: r) ∧ e.opens = false := by
  unfold closeBrace at h
  split at h
  · cases h
  · cases h
  · rename_i hl₀ hl
    cases h
    refine ⟨fun n r => ?_, rfl⟩
    cases n with
    | zero => exact hl₀ r
    | succ n => exact hl n r

/-- The layers left to a brace in code: with no template text innermost and no hole either,
there is no layer at all. -/
theorem layers_eq_nil {ls : List Layer} (ht : ∀ r, ls ≠ .template :: r)
    (hh : ∀ n r, ls ≠ .hole n :: r) : ls = [] := by
  cases ls with
  | nil => rfl
  | cons l r =>
    cases l with
    | template => exact absurd rfl (ht r)
    | hole n => exact absurd rfl (hh n r)

/-- A counted brace is read in code at the top: no block comment, no string and no layer open.
The brace is a `{` when the event opens and a `}` when it closes. -/
theorem step_event {s : State} {q : Option Char} {pos : Nat} {c : Char} {next : Option Char}
    {e : Event} (h : (s.step q pos c next).event = some e) :
    s.layers = [] ∧ s.inComment = false ∧ q = none ∧ c = if e.opens then '\x7b' else '\x7d' := by
  rcases step_cases s q pos c next with ⟨hin, rfl, hstep⟩ | ⟨hin, rfl, hstep⟩ | ⟨hev, -, -⟩
  · rw [hstep] at h
    obtain ⟨hh, ho⟩ := openBrace_event h
    exact ⟨layers_eq_nil hin.2.2 hh, hin.1, hin.2.1, by simp [ho]⟩
  · rw [hstep] at h
    obtain ⟨hh, ho⟩ := closeBrace_event h
    exact ⟨layers_eq_nil hin.2.2 hh, hin.1, hin.2.1, by simp [ho]⟩
  · rw [hev] at h
    cases h

/-- A character that ends the line's reading (`//`) counts no brace. -/
theorem step_stops {s : State} {q : Option Char} {pos : Nat} {c : Char} {next : Option Char}
    (h : (s.step q pos c next).stops = true) : (s.step q pos c next).event = none := by
  rcases step_cases s q pos c next with ⟨-, -, hstep⟩ | ⟨-, -, hstep⟩ | ⟨hev, -, -⟩
  · rw [hstep] at h
    cases h
  · rw [hstep] at h
    cases h
  · exact hev

/-- A `}` read in code in a hole ends the hole when none of the hole's own braces is open, and
otherwise closes one of them: a hole's count is never lowered at zero. -/
theorem step_close_in_hole {s : State} {n : Nat} {rest : List Layer}
    (hl : s.layers = .hole n :: rest) (hc : s.inComment = false) (pos : Nat)
    (next : Option Char) :
    (s.step none pos '\x7d' next).state.layers = if n = 0 then rest else .hole (n - 1) :: rest := by
  have hin : s.InCode none := ⟨hc, rfl, fun r h => by rw [hl] at h; cases h⟩
  rw [step_close hin]
  unfold closeBrace
  rw [hl]
  cases n <;> rfl

theorem openBrace_counted (s : State) (pos : Nat) :
    Counted s.depth (s.openBrace pos).2.toList ∧
      (s.openBrace pos).1.depth = s.depth + ((s.openBrace pos).2.toList.map Event.delta).sum := by
  unfold openBrace
  split <;> simp [Counted, Event.delta]

theorem closeBrace_counted (s : State) (pos : Nat) :
    Counted s.depth (s.closeBrace pos).2.toList ∧
      (s.closeBrace pos).1.depth = s.depth + ((s.closeBrace pos).2.toList.map Event.delta).sum := by
  unfold closeBrace
  split <;> simp [Counted, Event.delta, sub_eq_add_neg]

/-- The event of a character, if any, is counted from the depth before it, and the depth after
it takes that event into account. -/
theorem step_counted (s : State) (q : Option Char) (pos : Nat) (c : Char) (next : Option Char) :
    Counted s.depth (s.step q pos c next).event.toList ∧
      (s.step q pos c next).state.depth =
        s.depth + ((s.step q pos c next).event.toList.map Event.delta).sum := by
  rcases step_cases s q pos c next with ⟨-, -, hstep⟩ | ⟨-, -, hstep⟩ | ⟨hev, hdepth, -⟩
  · rw [hstep]
    exact openBrace_counted s pos
  · rw [hstep]
    exact closeBrace_counted s pos
  · rw [hev, hdepth]
    simp [Counted]

end State

/-- A character as a scan reads it: the state and the open quote it is read in, its position,
the character and the one after it. -/
structure Read where
  state : State
  quote : Option Char
  pos : Nat
  char : Char
  next : Option Char

def Read.move (r : Read) : State.Move :=
  r.state.step r.quote r.pos r.char r.next

namespace State

/-- The characters a scan reads, in order, each with the state and the quote it is read in. The
second character of a pair and the rest of a line after `//` are not read. -/
def reads (s : State) (q : Option Char) (pos : Nat) : List Char → List Read
  | [] => []
  | c :: rest =>
    let m := step s q pos c rest.head?
    ⟨s, q, pos, c, rest.head?⟩ ::
      if m.stops then []
      else
        reads m.state m.quote (pos + if m.pairs then 2 else 1)
          (if m.pairs then rest.tail else rest)
termination_by cs => cs.length
decreasing_by split <;> simp only [List.length_tail, List.length_cons] <;> omega

theorem scan_events (s : State) (q : Option Char) (pos : Nat) (cs : List Char) :
    (s.scan q pos cs).2 = (s.reads q pos cs).filterMap fun r => r.move.event := by
  fun_induction s.scan q pos cs with
  | case1 s q pos => simp [reads]
  | case2 s q pos c rest m hstop =>
    simp only [m] at hstop
    rw [reads]
    simp [hstop, Read.move, step_stops hstop]
  | case3 s q pos c rest m hstop s' evs heq ih =>
    simp only [m, dite_eq_ite] at hstop ih heq ⊢
    rw [heq] at ih
    rw [reads]
    simp only [hstop, Bool.false_eq_true, if_false, List.filterMap_cons]
    rw [← ih]
    cases hev : (s.step q pos c rest.head?).event <;> simp [Read.move, hev]

/-- The layers alternate in every state a scan reads a character in, and after it, when they
do before it. -/
theorem scan_alternating {s : State} (h : Alternating s.layers) (q : Option Char) (pos : Nat)
    (cs : List Char) :
    (∀ r ∈ s.reads q pos cs, Alternating r.state.layers) ∧
      Alternating (s.scan q pos cs).1.layers := by
  fun_induction s.scan q pos cs with
  | case1 s q pos => simp [reads, h]
  | case2 s q pos c rest m hstop =>
    rw [reads]
    simp only [m] at hstop ⊢
    simp [hstop, h, (step_layerMove s q pos c rest.head?).alternating h]
  | case3 s q pos c rest m hstop s' evs heq ih =>
    simp only [m, dite_eq_ite] at hstop ih heq
    rw [heq] at ih
    obtain ⟨hreads, hend⟩ := ih ((step_layerMove s q pos c rest.head?).alternating h)
    rw [reads]
    simp only [hstop] at hreads ⊢
    simp only [Bool.false_eq_true, if_false, List.mem_cons, forall_eq_or_imp]
    exact ⟨⟨h, hreads⟩, hend⟩

/-- The events of a scan run from the depth before it, and the depth after it is the depth
before plus their opens less their closes. -/
theorem scan_counted (s : State) (q : Option Char) (pos : Nat) (cs : List Char) :
    Counted s.depth (s.scan q pos cs).2 ∧
      (s.scan q pos cs).1.depth = s.depth + ((s.scan q pos cs).2.map Event.delta).sum := by
  fun_induction s.scan q pos cs with
  | case1 s q pos => simp [Counted]
  | case2 s q pos c rest m hstop =>
    have hdepth := (step_counted s q pos c rest.head?).2
    rw [step_stops hstop] at hdepth
    simpa [Counted] using hdepth
  | case3 s q pos c rest m hstop s' evs heq ih =>
    simp only [m, dite_eq_ite] at hstop ih heq
    rw [heq] at ih
    obtain ⟨hstep, hdepth⟩ := step_counted s q pos c rest.head?
    obtain ⟨hrest, hend⟩ := ih
    rw [hdepth] at hrest hend
    refine ⟨Counted.append.2 ⟨hstep, hrest⟩, ?_⟩
    rw [hend, List.map_append, List.sum_append, add_assoc]

theorem feedLines_alternating {s : State} (h : Alternating s.layers) (ls : List (List Char)) :
    Alternating (s.feedLines ls).2.layers := by
  induction ls generalizing s with
  | nil => exact h
  | cons l ls ih => exact ih (scan_alternating h none 0 l).2

/-- Template literals and holes nested in one another, left open by a line. -/
example : Alternating (initial.feedLines ["`a $\x7b `b $\x7b x".toList]).2.layers := by
  decide +kernel

/-- A state a fresh tracker reaches when fed some lines. -/
def Reachable (s : State) : Prop :=
  ∃ ls, (initial.feedLines ls).2 = s

theorem Reachable.alternating {s : State} (h : s.Reachable) : Alternating s.layers := by
  obtain ⟨ls, rfl⟩ := h
  exact feedLines_alternating (s := initial) trivial ls

/-- With the layers alternating, the tracker is mid-token exactly when a block comment or a
template literal is open. -/
theorem midToken_iff {s : State} (h : Alternating s.layers) :
    s.midToken = true ↔ s.inComment = true ∨ Layer.template ∈ s.layers := by
  have hlayers : s.layers ≠ [] ↔ Layer.template ∈ s.layers :=
    ⟨h.template_mem, List.ne_nil_of_mem⟩
  simp [midToken, ← hlayers]

/-- The brace tracker over any run from a fresh tracker: `s` is the state after any lines and
`l` the next line. The layers of `s`, and of every state a character of `l` is read in,
alternate with a template literal outermost, so `s` is mid-token exactly when a block comment
or a template literal is open. Every character moves the layers by a `LayerMove`, and a `}`
read in code in a hole ends the hole when its count is zero and otherwise lowers the count by
one. The events of `l` are those of the characters it reads, and a character gives one only
when read with no layer and no block comment open. The `i`-th event's depth is the depth of `s`
plus the opens less the closes among the first `i + 1` events, and the depth after `l` is the
last event's depth, or that of `s` when there is none. -/
theorem reachable_invariants {s : State} (hs : s.Reachable) (l : List Char) :
    (Alternating s.layers ∧ ∀ r ∈ s.reads none 0 l, Alternating r.state.layers) ∧
    (s.midToken = true ↔ s.inComment = true ∨ Layer.template ∈ s.layers) ∧
    (∀ r ∈ s.reads none 0 l, LayerMove r.state.layers r.move.state.layers) ∧
    (∀ r ∈ s.reads none 0 l, ∀ n rest, r.state.layers = .hole n :: rest →
      r.state.inComment = false → r.quote = none → r.char = '\x7d' →
      r.move.state.layers = if n = 0 then rest else .hole (n - 1) :: rest) ∧
    ((s.feed l).2 = (s.reads none 0 l).filterMap (fun r => r.move.event) ∧
      ∀ r ∈ s.reads none 0 l, ∀ e, r.move.event = some e →
        r.state.layers = [] ∧ r.state.inComment = false) ∧
    (∀ i (h : i < (s.feed l).2.length),
      (s.feed l).2[i].depth = s.depth + (((s.feed l).2.take (i + 1)).map Event.delta).sum) ∧
    (s.feed l).1.depth = ((s.feed l).2.getLast?.map Event.depth).getD s.depth := by
  have ha := hs.alternating
  obtain ⟨hcounted, hdepth⟩ := scan_counted s none 0 l
  refine ⟨⟨ha, (scan_alternating ha none 0 l).1⟩, midToken_iff ha,
    fun r _ => step_layerMove _ _ _ _ _, ?_, ?_, hcounted.depth_getElem, ?_⟩
  · intro r _ n rest hl hc hq hchar
    rw [Read.move, hq, hchar]
    exact step_close_in_hole hl hc r.pos r.next
  · refine ⟨scan_events s none 0 l, fun r _ e hev => ?_⟩
    obtain ⟨hl, hc, -⟩ := step_event hev
    exact ⟨hl, hc⟩
  · rw [feed, hcounted.last_depth]
    exact hdepth

/-- The invariants where a template literal left open by one line is read on the next. -/
theorem template_over_lines_invariants :
    let s := (initial.feedLines ["let html = `<div>".toList]).2
    let l := "\x7b not a brace \x7d`; \x7b".toList
    s.Reachable ∧
    (Alternating s.layers ∧ ∀ r ∈ s.reads none 0 l, Alternating r.state.layers) ∧
    (s.midToken = true ↔ s.inComment = true ∨ Layer.template ∈ s.layers) ∧
    (∀ r ∈ s.reads none 0 l, LayerMove r.state.layers r.move.state.layers) ∧
    (∀ r ∈ s.reads none 0 l, ∀ n rest, r.state.layers = .hole n :: rest →
      r.state.inComment = false → r.quote = none → r.char = '\x7d' →
      r.move.state.layers = if n = 0 then rest else .hole (n - 1) :: rest) ∧
    ((s.feed l).2 = (s.reads none 0 l).filterMap (fun r => r.move.event) ∧
      ∀ r ∈ s.reads none 0 l, ∀ e, r.move.event = some e →
        r.state.layers = [] ∧ r.state.inComment = false) ∧
    (∀ i (h : i < (s.feed l).2.length),
      (s.feed l).2[i].depth = s.depth + (((s.feed l).2.take (i + 1)).map Event.delta).sum) ∧
    (s.feed l).1.depth = ((s.feed l).2.getLast?.map Event.depth).getD s.depth :=
  ⟨⟨_, rfl⟩, reachable_invariants ⟨_, rfl⟩ _⟩

/-- A template literal over two lines: the braces of its text do not count, the one after it
does. -/
example : (initial.feedLines
    ["let html = `<div>".toList, "\x7b not a brace \x7d`; \x7b".toList]).2.depth = 1 := by
  decide +kernel

end State

end ModuleBundler.Brace
