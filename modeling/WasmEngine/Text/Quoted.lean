import WasmEngine.Text.Unprintable

/-!
# Quoted texts

A text between double quotes, as it stands in messages. The quote and the backslash are written with
a backslash in front, and so are NUL, the tab and the two line ends, each by one sign of its own. Every other
character that shows no glyph is written by its code point in braces.
-/

namespace WasmEngine.Text.Quoted

/-- A character that cannot stand for itself, by its code point. -/
def codePoint (c : Char) : List Char :=
  ['\\', 'u', '\x7b'] ++ Nat.toDigits 16 c.toNat ++ ['\x7d']

/-- How one character is written between double quotes. -/
def encodeChar (c : Char) : List Char :=
  if c = '\x00' then ['\\', '0']
  else if c = '\t' then ['\\', 't']
  else if c = '\n' then ['\\', 'n']
  else if c = '\r' then ['\\', 'r']
  else if c = '\\' then ['\\', '\\']
  else if c = '"' then ['\\', '"']
  else if c.toNat < 0x20 then codePoint c
  else if c.toNat < 0x7F then [c]
  else if Unprintable.contains c then codePoint c
  else [c]

/-- A text between double quotes. -/
def encode (s : String) : String :=
  String.ofList ('"' :: s.toList.flatMap encodeChar ++ ['"'])

/-- A text that may be absent. -/
def encodeOption : Option String → String
  | none => "None"
  | some s => "Some(" ++ encode s ++ ")"

end WasmEngine.Text.Quoted
