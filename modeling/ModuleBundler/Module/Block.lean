import ModuleBundler.Syntax.Brace
import ModuleBundler.Syntax.Comment
import ModuleBundler.Error
import ModuleBundler.Declaration

/-!
Numbered source lines and the pieces that span them: leading comments, parameter lists and
brace-delimited blocks.

Each reader takes the current line and the lines after it, and says how many of the later lines
it used, so that the caller goes on with a shorter list. A leading comment is the exception: a
comment followed by code on its last line gives that line back with the comment blanked, and
`leadingComment_progress` shows that the text left to read still shrinks.
-/

namespace ModuleBundler

open ModuleBundler.Text ModuleBundler.Syntax

/-- A line of source text with its number, counted from 1. -/
structure Line where
  number : Nat
  text : List Char
  deriving DecidableEq, Repr

/-- A parse problem and the number of the line it is reported at. -/
structure ParseFailure where
  line : Nat
  problem : ParseProblem
  deriving Repr

namespace Line

/-- The lines of a source text, numbered from 1. -/
def ofSource (source : List Char) : List Line :=
  (lines source).zipIdx.map fun (text, i) => ⟨i + 1, text⟩

/-- Characters left to read on the first line, after its indentation. -/
def headRoom : List Line → Nat
  | l :: _ => (trimStart l.text).length
  | [] => 0

/-- Where reading goes on after a comment that ends at position `stop` of line `l`: after `l`
when only blanks follow, else at `l` with the comment blanked. -/
def resumeAt (l : Line) (stop : Nat) (later : List Line) : List Line :=
  if IsBlankText (l.text.drop stop) then later else ⟨l.number, blankPrefix stop l.text⟩ :: later

/-- The first line of `ls` that holds `*/`: the position just after it, the line, and the
lines after it. -/
def commentEnd : List Line → Option (Nat × Line × List Line)
  | [] => none
  | l :: ls =>
    match findSub "*/".toList l.text with
    | some e => some (e + 2, l, ls)
    | none => commentEnd ls

/-- If line `l` starts with a comment (after its indentation), the lines to read after the
comment; a block comment that never ends is a failure. -/
def leadingComment (l : Line) (later : List Line) : Except ParseFailure (Option (List Line)) :=
  let lead := indentation l.text
  match l.text.drop lead with
  | '/' :: '/' :: _ => .ok (some later)
  | '/' :: '*' :: body =>
    match findSub "*/".toList body with
    | some e => .ok (some (resumeAt l (lead + 2 + e + 2) later))
    | none =>
      match commentEnd later with
      | some (stop, m, rest) => .ok (some (resumeAt m stop rest))
      | none => .error ⟨l.number, .unterminatedComment⟩
  | _ => .ok none

theorem length_commentEnd {ls : List Line} {stop : Nat} {m : Line} {rest : List Line}
    (h : commentEnd ls = some (stop, m, rest)) : rest.length < ls.length := by
  induction ls with
  | nil => simp [commentEnd] at h
  | cons l ls ih =>
    simp only [commentEnd] at h
    split at h
    · simp only [Option.some.injEq, Prod.mk.injEq] at h
      obtain ⟨-, -, rfl⟩ := h
      simp
    · have := ih h
      simp only [List.length_cons]
      omega

theorem length_resumeAt_le (l : Line) (stop : Nat) (later : List Line) :
    (resumeAt l stop later).length ≤ later.length + 1 := by
  unfold resumeAt
  split <;> simp

theorem length_trimStart (cs : List Char) :
    (trimStart cs).length + indentation cs = cs.length := by
  have h := congrArg List.length (List.takeWhile_append_dropWhile (p := isBlank) (l := cs))
  simp only [List.length_append] at h
  simp only [trimStart, indentation]
  omega

theorem trimStart_eq_drop (cs : List Char) : trimStart cs = cs.drop (indentation cs) := by
  induction cs with
  | nil => rfl
  | cons c cs ih =>
    by_cases h : isBlank c
    · simpa [trimStart, indentation, List.dropWhile_cons, List.takeWhile_cons, h] using ih
    · simp [trimStart, indentation, h]

/-- Skipping a leading comment leaves less to read: fewer lines, or the same lines with a
shorter first line. -/
theorem leadingComment_progress {l : Line} {later ls : List Line}
    (h : leadingComment l later = .ok (some ls)) :
    ls.length < later.length + 1 ∨
      (ls.length = later.length + 1 ∧ headRoom ls < (trimStart l.text).length) := by
  unfold leadingComment at h
  dsimp only at h
  split at h
  · simp only [Except.ok.injEq, Option.some.injEq] at h
    subst h
    omega
  · rename_i body hbody
    split at h
    · rename_i e he
      simp only [Except.ok.injEq, Option.some.injEq] at h
      subst h
      unfold resumeAt
      split
      · omega
      · right
        refine ⟨rfl, ?_⟩
        simp only [headRoom, trimStart_blankPrefix]
        have h1 := length_trimStart l.text
        have h2 : (trimStart l.text).length = body.length + 2 := by
          rw [trimStart_eq_drop, hbody]
          simp
        have h3 := length_trimStart (l.text.drop (indentation l.text + 2 + e + 2))
        simp only [List.length_drop] at h3
        omega
    · split at h
      · rename_i stop m rest hend
        simp only [Except.ok.injEq, Option.some.injEq] at h
        subst h
        have := length_commentEnd hend
        have := length_resumeAt_le m stop rest
        omega
      · simp at h
  · simp at h

/-! The reading loops measure what is left by the number of lines, then by the room left on the
first of them. -/

theorem lex_tail (l : Line) (later : List Line) :
    Prod.Lex (· < ·) (· < ·) (later.length, headRoom later)
      ((l :: later).length, headRoom (l :: later)) :=
  Prod.Lex.left _ _ (by simp)

theorem lex_drop (l : Line) (later : List Line) (n : Nat) :
    Prod.Lex (· < ·) (· < ·)
      (((l :: later).drop (n + 1)).length, headRoom ((l :: later).drop (n + 1)))
      ((l :: later).length, headRoom (l :: later)) :=
  Prod.Lex.left _ _ (by simp only [List.length_drop, List.length_cons]; omega)

theorem lex_leadingComment {l : Line} {later ls : List Line}
    (h : leadingComment l later = .ok (some ls)) :
    Prod.Lex (· < ·) (· < ·) (ls.length, headRoom ls)
      ((l :: later).length, headRoom (l :: later)) := by
  rcases leadingComment_progress h with hlt | ⟨heq, hroom⟩
  · exact Prod.Lex.left _ _ (by simpa using hlt)
  · simp only [List.length_cons, heq]
    exact Prod.Lex.right _ (by simpa [headRoom] using hroom)

/-- Where a parenthesised list that starts at `(` ends: the position just after its `)`.
Parentheses inside quotes, with `\` escapes, do not count. -/
def closeParen (depth : Int) (quote : Option Char) (escaped : Bool) (pos : Nat) :
    List Char → Option Nat
  | [] => none
  | c :: rest =>
    match quote with
    | some q =>
      if escaped then closeParen depth quote false (pos + 1) rest
      else if c = '\\' then closeParen depth quote true (pos + 1) rest
      else if c = q then closeParen depth none false (pos + 1) rest
      else closeParen depth quote false (pos + 1) rest
    | none =>
      if c = '\'' ∨ c = '"' ∨ c = '`' then closeParen depth (some c) escaped (pos + 1) rest
      else if c = '(' then closeParen (depth + 1) none escaped (pos + 1) rest
      else if c = ')' then
        if depth - 1 = 0 then some (pos + 1) else closeParen (depth - 1) none escaped (pos + 1) rest
      else closeParen depth none escaped (pos + 1) rest

/-- A parameter list that may run over several lines. -/
structure ParamSpan where
  /-- The list as written, from `(` to `)`, lines joined by `\n`. -/
  params : List Char
  /-- How many lines after the first it takes. -/
  extra : Nat
  /-- Its last line, the position after `)` there, and the lines after it. -/
  last : Line
  after : Nat
  more : List Line

/-- Reads on from `joined`, the list so far, whose last line `cur` starts at `start` of
`joined` and at `base` of `cur`'s own text. -/
def paramSpan (joined : List Char) (extra start base : Nat) (cur : Line) :
    List Line → Option ParamSpan
  | [] => (closeParen 0 none false 0 joined).map fun e =>
    ⟨joined.take e, extra, cur, base + (e - start), []⟩
  | m :: ms =>
    match closeParen 0 none false 0 joined with
    | some e => some ⟨joined.take e, extra, cur, base + (e - start), m :: ms⟩
    | none => paramSpan (joined ++ '\n' :: m.text) (extra + 1) (joined.length + 1) 0 m ms

/-- Where the `{` of a body is: how many lines after `l` it stands, its line and position, and
the lines after that. -/
structure BraceSpot where
  extra : Nat
  line : Line
  pos : Nat
  more : List Line

/-- Finds the `{` that opens a body: after position `after` of line `l`, or first on the next
line that is not blank. -/
def braceSpot (l : Line) (after : Nat) (later : List Line) (owner : BodyOwner) :
    Except ParseFailure BraceSpot :=
  let rest := l.text.drop after
  let t := trimStart rest
  let missing : Except ParseFailure BraceSpot := .error ⟨l.number, .missingBrace owner⟩
  if t.head? = some '\x7b' then .ok ⟨0, l, after + (rest.length - t.length), later⟩
  else if t.isEmpty then
    match (later.zipIdx.dropWhile fun (m, _) => IsBlankText m.text) with
    | (m, j) :: _ =>
      if (trimStart m.text).head? = some '\x7b' then
        .ok ⟨j + 1, m, indentation m.text, later.drop (j + 1)⟩
      else missing
    | [] => missing
  else missing

/-- The lines of a body, and how many lines after its first it takes. -/
structure Body where
  lines : List Line
  extra : Nat

/-- Adds a piece of a line to a body unless it is blank. -/
def keepPiece (body : List Line) (number : Nat) (piece : List Char) : List Line :=
  if IsBlankText piece then body else body ++ [⟨number, piece⟩]

/-- The first brace that closes the outermost level. -/
def closesBlock (e : Brace.Event) : Bool :=
  !e.opens && e.depth == 0

/-- Reads the lines after the first line of a body until the brace that closes it. -/
def bodyRest (opener : Line) (st : Brace.State) (body : List Line) (extra : Nat) :
    List Line → Except ParseFailure Body
  | [] => .error ⟨opener.number, .unterminatedBlock⟩
  | m :: ms =>
    let (st', events) := st.feed m.text
    match events.find? closesBlock with
    | some close => .ok ⟨keepPiece body m.number (m.text.take close.offset), extra + 1⟩
    | none => bodyRest opener st' (body ++ [m]) (extra + 1) ms

/-- The body whose `{` is at position `pos` of line `l`: the text between the braces, the first
and last pieces only when they are not blank. -/
def body (l : Line) (pos : Nat) (later : List Line) : Except ParseFailure Body :=
  let segment := l.text.drop pos
  let (st, events) := Brace.State.initial.feed segment
  match events.find? closesBlock with
  | some close => .ok ⟨keepPiece [] l.number ((segment.drop 1).take (close.offset - 1)), 0⟩
  | none => bodyRest l st (keepPiece [] l.number (segment.drop 1)) 0 later

/-- A function whose parameter list opens at position `paren` of line `l`, and how many lines
after `l` it takes. -/
def functionAt (l : Line) (later : List Line) (paren : Nat) (name : String)
    (exported isAsync : Bool) : Except ParseFailure (FunctionDecl × Nat) :=
  match paramSpan (l.text.drop paren) 0 0 paren l later with
  | none => .error ⟨l.number, .unterminatedParameters name⟩
  | some span =>
    match braceSpot span.last span.after span.more (.function name) with
    | .error e => .error e
    | .ok spot =>
      match body spot.line spot.pos spot.more with
      | .error e => .error e
      | .ok b =>
        .ok (⟨name, String.ofList span.params, exported, isAsync, l.number,
          b.lines.map fun m => String.ofList m.text⟩, span.extra + spot.extra + b.extra)

end Line

end ModuleBundler
