import ModuleBundler.Text.Blank

/-!
Text as lists of characters: trimming, splitting into lines and words, and searching.

Source text is handled as `List Char`, so that positions are character counts and every cut
is a `take` or a `drop`. Trimming and word splitting use the blank class of
`ModuleBundler.Text.Blank`.
-/

namespace ModuleBundler.Text

/-- Drops the leading blanks. -/
def trimStart (cs : List Char) : List Char :=
  cs.dropWhile isBlank

/-- Drops the trailing blanks. -/
def trimEnd (cs : List Char) : List Char :=
  (cs.reverse.dropWhile isBlank).reverse

/-- Drops the blanks at both ends. -/
def trim (cs : List Char) : List Char :=
  trimEnd (trimStart cs)

/-- A text is blank when it holds nothing but blank characters. -/
def IsBlankText (cs : List Char) : Bool :=
  cs.all isBlank

/-- The number of leading blank characters. -/
def indentation (cs : List Char) : Nat :=
  (cs.takeWhile isBlank).length

/-- Removes one final carriage return. -/
def dropFinalReturn (cs : List Char) : List Char :=
  if cs.getLast? = some '\r' then cs.dropLast else cs

/-- Lines of a text: each `\n` ends a line and is dropped together with one carriage return
just before it. A last line without `\n` keeps its carriage return, and text after the last
`\n` forms a line only when it is not empty. -/
def lines (cs : List Char) : List (List Char) :=
  let pieces := cs.splitOn '\n'
  pieces.dropLast.map dropFinalReturn ++
    (match pieces.getLast? with
     | some last => if last.isEmpty then [] else [last]
     | none => [])

/-- The words of a text: the maximal runs of non-blank characters. -/
def words (cs : List Char) : List (List Char) :=
  (cs.splitOnP isBlank).filter (fun w => !w.isEmpty)

/-- The pieces of a text between commas, trimmed, with empty pieces left out. -/
def commaItems (cs : List Char) : List (List Char) :=
  ((cs.splitOn ',').map trim).filter (fun w => !w.isEmpty)

/-- Position of the first occurrence of `pat` in `cs`. -/
def findSub (pat : List Char) : List Char → Option Nat
  | [] => if pat.isEmpty then some 0 else none
  | c :: rest =>
    if pat.isPrefixOf (c :: rest) then some 0 else (findSub pat rest).map (· + 1)

/-- Whether `pat` occurs in `cs`. -/
def containsSub (pat cs : List Char) : Bool :=
  (findSub pat cs).isSome

/-- The number of bytes of the UTF-8 encoding of a text. -/
def utf8Length (cs : List Char) : Nat :=
  cs.foldl (fun n c => n + c.utf8Size) 0

end ModuleBundler.Text
