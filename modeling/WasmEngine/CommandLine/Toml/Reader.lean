import WasmEngine.CommandLine.ConfigValue

/-!
# Readers of TOML texts

A `Reader` takes what it reads from the front of a text, or fails. Here are the parts without meaning: blanks,
comments, and the ends of lines.
-/

namespace WasmEngine.CommandLine.Toml

/-- A reader takes what it reads from the front of a text, or fails. -/
abbrev Reader (α : Type) := StateT (List Char) Option α

/-- Blanks within a line. -/
def isBlank (c : Char) : Bool := c = ' ' || c = '\t'

/-- Characters that stand for themselves within a line. -/
def isPlain (c : Char) : Bool := c = '\t' || (0x20 ≤ c.toNat && c.toNat ≠ 0x7F)

namespace Reader

/-- The next character, which is not taken. -/
def peek : Reader (Option Char) := fun cs => some (cs.head?, cs)

/-- Take the next character. -/
def next : Reader Char
  | c :: rest => some (c, rest)
  | [] => none

/-- Take a mark if it comes next. -/
def skip (mark : String) : Reader Bool := fun cs =>
  let mark := mark.toList
  if mark.isPrefixOf cs then some (true, cs.drop mark.length) else some (false, cs)

/-- Take a mark, which has to come next. -/
def expect (mark : String) : Reader Unit := do
  if ← skip mark then return () else failure

/-- Take the characters of a class up to the first that is not in it. -/
def takeWhile (p : Char → Bool) : Reader (List Char) := fun cs =>
  some (cs.takeWhile p, cs.dropWhile p)

/-- More than the number of characters that are left: enough for every loop that takes one each time. -/
def room : Reader Nat := fun cs => some (cs.length + 1, cs)

/-- Take blanks. -/
def blanks : Reader Unit := do
  let _ ← takeWhile isBlank

/-- Take the end of a line if it comes next. -/
def newline : Reader Bool := do
  if ← skip "\n" then return true else skip "\r\n"

/-- Take the rest of a line that has nothing more on it than blanks and a comment. -/
def restOfLine : Reader Unit := do
  blanks
  if (← peek) = some '#' then
    let _ ← takeWhile isPlain
  if (← newline) || (← peek).isNone then return () else failure

/-- Take blanks, ends of lines and comments. A comment goes on to the end of its line. -/
def gap : Reader Unit := fun cs => (go false cs).map fun rest => ((), rest)
where
  /-- What follows the gap, if the text begins inside or outside of a comment. -/
  go (comment : Bool) : List Char → Option (List Char)
    | '\n' :: rest => go false rest
    | '\r' :: '\n' :: rest => go false rest
    | c :: rest =>
      if comment then if isPlain c then go true rest else none
      else if c = '#' then go true rest
      else if isBlank c then go false rest
      else some (c :: rest)
    | [] => if comment then none else some []

end Reader

end WasmEngine.CommandLine.Toml
