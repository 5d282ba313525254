import ModuleBundler.Text.Basic

/-!
Brace depth of script text, fed one line at a time.

Only braces in code count. Quoted strings end with their line; block comments and template
literals, with their `${ … }` holes, may span lines, so that much is kept in `Brace.State`
between lines. Feeding a line returns the new state and, for every counted brace, an event
with its position and the depth after it.
-/

namespace ModuleBundler.Brace

/-- A layer of template nesting: the text of a template literal, or a `${ … }` hole in one
with the number of its own braces still open. -/
inductive Layer where
  | template
  | hole (inner : Nat)
  deriving DecidableEq, Repr

/-- What carries over from one line to the next. -/
structure State where
  depth : Int := 0
  inComment : Bool := false
  layers : List Layer := []
  deriving DecidableEq, Repr

/-- A counted brace: its position in the line, whether it opens, and the depth after it. -/
structure Event where
  offset : Nat
  opens : Bool
  depth : Int
  deriving DecidableEq, Repr

namespace State

/-- The state before any text. -/
def initial : State := {}

/-- Inside a block comment or a template literal: the text so far ends mid-token. -/
def midToken (s : State) : Bool :=
  s.inComment || !s.layers.isEmpty

/-- An opening brace in code: counted inside a hole, otherwise a new level. -/
def openBrace (s : State) (pos : Nat) : State × Option Event :=
  match s.layers with
  | .hole n :: rest => ({ s with layers := .hole (n + 1) :: rest }, none)
  | _ => ({ s with depth := s.depth + 1 }, some ⟨pos, true, s.depth + 1⟩)

/-- A closing brace in code: it ends or unwinds a hole, otherwise closes a level. -/
def closeBrace (s : State) (pos : Nat) : State × Option Event :=
  match s.layers with
  | .hole 0 :: rest => ({ s with layers := rest }, none)
  | .hole (n + 1) :: rest => ({ s with layers := .hole n :: rest }, none)
  | _ => ({ s with depth := s.depth - 1 }, some ⟨pos, false, s.depth - 1⟩)

/-- What one character does: the state and open quote after it, whether the next character
belongs to it (an escape, `*/`, `/*`, `${`), whether a line comment starts there, and the
event of a counted brace. -/
structure Move where
  state : State
  quote : Option Char
  pairs : Bool := false
  stops : Bool := false
  event : Option Event := none

/-- The move of character `c` at position `pos`, followed by `next`, with `quote` the quote
of an open string. -/
def step (s : State) (quote : Option Char) (pos : Nat) (c : Char) (next : Option Char) :
    Move :=
  if s.inComment then
    if c = '*' ∧ next = some '/' then { state := { s with inComment := false }, quote, pairs := true }
    else { state := s, quote }
  else
    match quote with
    | some q =>
      if c = '\\' then { state := s, quote, pairs := true }
      else if c = q then { state := s, quote := none }
      else { state := s, quote }
    | none =>
      match s.layers with
      | .template :: outer =>
        if c = '\\' then { state := s, quote := none, pairs := true }
        else if c = '`' then { state := { s with layers := outer }, quote := none }
        else if c = '$' ∧ next = some '\x7b' then
          { state := { s with layers := .hole 0 :: s.layers }, quote := none, pairs := true }
        else { state := s, quote := none }
      | _ =>
        if c = '/' ∧ next = some '/' then { state := s, quote := none, stops := true }
        else if c = '/' ∧ next = some '*' then
          { state := { s with inComment := true }, quote := none, pairs := true }
        else if c = '\'' ∨ c = '"' then { state := s, quote := some c }
        else if c = '`' then { state := { s with layers := .template :: s.layers }, quote := none }
        else if c = '\x7b' then
          let (s', ev) := s.openBrace pos
          { state := s', quote := none, event := ev }
        else if c = '\x7d' then
          let (s', ev) := s.closeBrace pos
          { state := s', quote := none, event := ev }
        else { state := s, quote := none }

/-- Runs through the rest of a line from position `pos`; `quote` is the quote of an open
string. -/
def scan (s : State) (quote : Option Char) (pos : Nat) : List Char → State × List Event
  | [] => (s, [])
  | c :: rest =>
    let m := step s quote pos c rest.head?
    if m.stops then (m.state, [])
    else
      let (s', evs) :=
        scan m.state m.quote (pos + if m.pairs then 2 else 1) (if m.pairs then rest.tail else rest)
      (s', m.event.toList ++ evs)
termination_by cs => cs.length
decreasing_by split <;> simp only [List.length_tail, List.length_cons] <;> omega

/-- Feeds one line: the state after it and the events of its counted braces. -/
def feed (s : State) (line : List Char) : State × List Event :=
  s.scan none 0 line

end State

end ModuleBundler.Brace
