/-!
JSON documents with members in a chosen order, and their indented text.

The text puts each element and member on a line of its own, indented by two spaces per level,
with `": "` after a key; an empty array is `[]` and an empty object is `{}`. Strings escape
the quote, the backslash and every control character below U+0020, the common ones by letter
and the rest as `\u00` and two lowercase hexadecimal digits; all else is written as it is.
-/

namespace ModuleBundler.Report

/-- A JSON value; an object keeps its members in the order given. -/
inductive Value where
  | null
  | bool (b : Bool)
  | num (n : Nat)
  | str (s : String)
  | arr (items : List Value)
  | obj (members : List (String × Value))

namespace Value

/-- A string value, or `null`. -/
def optStr : Option String → Value
  | some s => .str s
  | none => .null

/-- An array of strings. -/
def strs (ss : List String) : Value :=
  .arr (ss.map .str)

end Value

/-- The lowercase hexadecimal digit of a number below 16. -/
def hexDigit (n : Nat) : Char :=
  if n < 10 then Char.ofNat (48 + n) else Char.ofNat (87 + n)

/-- The escaped form of one character inside a string. -/
def escapeChar (c : Char) : List Char :=
  if c = '"' then ['\\', '"']
  else if c = '\\' then ['\\', '\\']
  else if c = '\n' then ['\\', 'n']
  else if c = '\r' then ['\\', 'r']
  else if c = '\t' then ['\\', 't']
  else if c = '\x08' then ['\\', 'b']
  else if c = '\x0c' then ['\\', 'f']
  else if c.toNat < 32 then ['\\', 'u', '0', '0', hexDigit (c.toNat / 16), hexDigit (c.toNat % 16)]
  else [c]

/-- A string in double quotes, escaped. -/
def quote (s : String) : String :=
  "\"" ++ String.ofList (s.toList.flatMap escapeChar) ++ "\""

/-- The blanks that indent a line at the given depth. -/
def pad (depth : Nat) : String :=
  String.ofList (List.replicate (2 * depth) ' ')

mutual

/-- The text of a value that starts at indentation depth `depth`. -/
def render (depth : Nat) : Value → String
  | .null => "null"
  | .bool b => if b then "true" else "false"
  | .num n => Nat.repr n
  | .str s => quote s
  | .arr [] => "[]"
  | .arr (v :: vs) => "[\n" ++ renderItems (depth + 1) (v :: vs) ++ "\n" ++ pad depth ++ "]"
  | .obj [] => "\x7b\x7d"
  | .obj (m :: ms) =>
    "\x7b\n" ++ renderMembers (depth + 1) (m :: ms) ++ "\n" ++ pad depth ++ "\x7d"

/-- The elements of an array, one a line. -/
def renderItems (depth : Nat) : List Value → String
  | [] => ""
  | [v] => pad depth ++ render depth v
  | v :: vs => pad depth ++ render depth v ++ ",\n" ++ renderItems depth vs

/-- The members of an object, one a line. -/
def renderMembers (depth : Nat) : List (String × Value) → String
  | [] => ""
  | [(k, v)] => pad depth ++ quote k ++ ": " ++ render depth v
  | (k, v) :: ms => pad depth ++ quote k ++ ": " ++ render depth v ++ ",\n" ++ renderMembers depth ms

end

/-- The indented text of a document. -/
def Value.pretty (v : Value) : String :=
  render 0 v

end ModuleBundler.Report
