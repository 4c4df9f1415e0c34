import WasmEngine.CommandLine.Toml.Reader
import WasmEngine.Text.Hexadecimal

/-!
# Strings and keys of TOML

A string stands between quotation marks, in which a backslash begins an escape, or between apostrophes, in which
all characters stand for themselves. A short string ends in the line it begins in. A long one stands between three
marks at each end and may have several lines.

A key is a name of letters, digits, underscores and hyphens, or a short string; with points between them, keys
lead through tables.
-/

namespace WasmEngine.CommandLine.Toml

namespace Reader

/-- The character of a code point that is written with a number of hexadecimal digits. -/
def codePoint (digits : Nat) : Reader Char := fun cs =>
  let shown := cs.take digits
  if shown.length < digits then none
  else (ofHexDigits? shown).bind fun n =>
    if n.isValidChar then some (Char.ofNat n, cs.drop digits) else none

/-- What an escape stands for, behind its backslash. -/
def escape : Reader Char := do
  match ← next with
  | '"' => return '"'
  | '\\' => return '\\'
  | 'b' => return '\x08'
  | 'f' => return '\x0C'
  | 'n' => return '\n'
  | 'r' => return '\r'
  | 't' => return '\t'
  | 'u' => codePoint 4
  | 'U' => codePoint 8
  | _ => failure

/-- The text of a short string behind its first mark. -/
def shortString (mark : Char) (escapes : Bool) : (room : Nat) → Reader (List Char)
  | 0 => failure
  | room + 1 => do
    let c ← next
    if c = mark then return []
    else if escapes && c = '\\' then
      return (← escape) :: (← shortString mark escapes room)
    else if isPlain c then return c :: (← shortString mark escapes room)
    else failure

/-- The end of a line behind a backslash, which takes it out of the string. -/
def hiddenNewline : Reader Unit := do
  blanks
  if ← newline then return () else failure

/-- Take a long string behind its first three marks. Up to two marks may stand anywhere in it, also before
the three that end it. No setting is a text, so what the string says is passed over. -/
def longString (mark : Char) (escapes : Bool) : (room : Nat) → Reader Unit
  | 0 => failure
  | room + 1 => do
    let marks ← takeWhile (· = mark)
    if 3 ≤ marks.length then
      if marks.length ≤ 5 then return () else failure
    else if escapes && (← peek) = some '\\' then
      expect "\\"
      hiddenNewline <|> discard escape
      longString mark escapes room
    else if ← newline then longString mark escapes room
    else if isPlain (← next) then longString mark escapes room
    else failure

/-- Characters that a key can be made of without quotes. -/
def isBare (c : Char) : Bool := c.isAlphanum || c = '_' || c = '-'

/-- One part of a key. -/
def keyPart : Reader String := do
  let text ← match ← peek with
    | some '"' => do
      expect "\""
      shortString '"' true (← room)
    | some '\'' => do
      expect "'"
      shortString '\'' false (← room)
    | _ => do
      let name ← takeWhile isBare
      if name.isEmpty then failure else pure name
  return String.ofList text

/-- A key of at most so many parts, with the blanks around it. -/
def key : (parts : Nat) → Reader (List String)
  | 0 => failure
  | parts + 1 => do
    blanks
    let first ← keyPart
    blanks
    if ← skip "." then return first :: (← key parts) else return [first]

end Reader

end WasmEngine.CommandLine.Toml
