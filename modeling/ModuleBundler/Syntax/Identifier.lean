import ModuleBundler.Text.Basic
import ModuleBundler.Text.Alphanumeric
import ModuleBundler.Text.WordChar

/-!
Identifiers and keywords of script text.

A declared name starts with an ASCII letter, `_` or `$` and goes on with word characters or
`$`. Call sites are found with a wider class, `isNameChar`: alphanumeric characters, `_` and
`$`. Keywords are matched as a word followed by blanks.
-/

namespace ModuleBundler.Syntax

open ModuleBundler.Text

/-- A character that may start a declared name. -/
def isIdentStart (c : Char) : Bool :=
  ('A' ≤ c && c ≤ 'Z') || ('a' ≤ c && c ≤ 'z') || c = '_' || c = '$'

/-- A character that may continue a declared name. -/
def isIdentPart (c : Char) : Bool :=
  isWordChar c || c = '$'

/-- A character that belongs to a name around a call site. -/
def isNameChar (c : Char) : Bool :=
  isAlphanumeric c || c = '_' || c = '$'

/-- The length of the declared name at the start of a text, `0` when none starts there. -/
def identLength : List Char → Nat
  | c :: rest => if isIdentStart c then (rest.takeWhile isIdentPart).length + 1 else 0
  | [] => 0

/-- The whole text is one declared name. -/
def isIdentifier (cs : List Char) : Bool :=
  identLength cs ≠ 0 && identLength cs = cs.length

/-- The length of the name at the start of a text as call sites see it: name characters, the
first of them not an ASCII digit. -/
def nameLength : List Char → Nat
  | c :: rest => if isNameChar c && !c.isDigit then (rest.takeWhile isNameChar).length + 1 else 0
  | [] => 0

/-- The text after keyword `kw` and the blanks that must follow it. -/
def afterKeyword (kw cs : List Char) : Option (List Char) :=
  if kw.isPrefixOf cs then
    match cs.drop kw.length with
    | c :: rest => if isBlank c then some (trimStart rest) else none
    | [] => none
  else none

theorem length_afterKeyword {kw cs r : List Char} (h : afterKeyword kw cs = some r) :
    r.length + kw.length < cs.length := by
  unfold afterKeyword at h
  split at h
  · split at h
    · rename_i c rest hdrop
      split at h
      · simp only [Option.some.injEq] at h
        subst h
        have h1 : (trimStart rest).length ≤ rest.length := (List.dropWhile_suffix _).length_le
        have h2 := congrArg List.length hdrop
        simp only [List.length_drop, List.length_cons] at h2
        omega
      · simp at h
    · simp at h
  · simp at h

/-- The text after the literal `w`. -/
def afterWord (w cs : List Char) : Option (List Char) :=
  if w.isPrefixOf cs then some (cs.drop w.length) else none

/-- Nothing but blanks and at most one `;` after them. -/
def isStatementEnd (cs : List Char) : Bool :=
  match trimStart cs with
  | [] => true
  | [';'] => true
  | _ => false

end ModuleBundler.Syntax
