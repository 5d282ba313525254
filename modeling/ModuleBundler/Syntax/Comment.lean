import ModuleBundler.Text.Basic

/-!
Comments at the end and at the start of a line.

A trailing comment is cut from an import line: `//` outside quotes cuts the rest, and a block
comment cuts the rest when nothing but blanks and further comments follows it. A comment
that opens an item is blanked out, one space for each byte it takes in UTF-8, so that the code
after it keeps its place.

Main statement: `trimStart_blankPrefix`, blanking keeps the text after the cut and nothing
else.
-/

namespace ModuleBundler.Syntax

open ModuleBundler.Text

/-- Scans `rest` for a trailing comment; `pre` holds the text before `rest`, reversed, and
`whole` the line, which is the answer when no comment is cut. -/
def cutComment (whole pre : List Char) (quote : Option Char) : List Char → List Char
  | [] => whole
  | c :: rest =>
    match quote with
    | some q =>
      if c = '\\' then
        match rest with
        | d :: rest' => cutComment whole (d :: c :: pre) quote rest'
        | [] => whole
      else cutComment whole (c :: pre) (if c = q then none else quote) rest
    | none =>
      if c = '\'' ∨ c = '"' ∨ c = '`' then cutComment whole (c :: pre) (some c) rest
      else if c = '/' ∧ rest.head? = some '/' then trimEnd pre.reverse
      else if c = '/' ∧ rest.head? = some '*' then
        match findSub "*/".toList rest.tail with
        | none => whole
        | some e =>
          let after := rest.tail.drop (e + 2)
          if IsBlankText (cutComment after [] none after) then trimEnd pre.reverse
          else cutComment whole (((c :: rest).take (e + 4)).reverse ++ pre) none after
      else cutComment whole (c :: pre) none rest
termination_by cs => cs.length
decreasing_by
  all_goals simp only [List.length_cons, List.length_drop, List.length_tail]
  all_goals omega

/-- A line without its trailing comment and the blanks before it. -/
def stripTrailingComment (cs : List Char) : List Char :=
  cutComment cs [] none cs

/-- Replaces the first `n` characters by one space for each of their UTF-8 bytes. -/
def blankPrefix (n : Nat) (cs : List Char) : List Char :=
  List.replicate (utf8Length (cs.take n)) ' ' ++ cs.drop n

theorem trimStart_replicate_space (k : Nat) (cs : List Char) :
    trimStart (List.replicate k ' ' ++ cs) = trimStart cs := by
  induction k with
  | zero => rfl
  | succ k ih =>
    rw [List.replicate_succ, List.cons_append]
    simp only [trimStart, List.dropWhile_cons] at ih ⊢
    simpa [isBlank] using ih

/-- Blanking a prefix leaves, after the blanks, the text after the prefix. -/
theorem trimStart_blankPrefix (n : Nat) (cs : List Char) :
    trimStart (blankPrefix n cs) = trimStart (cs.drop n) :=
  trimStart_replicate_space _ _

end ModuleBundler.Syntax
