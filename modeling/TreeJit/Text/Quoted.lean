import TreeJit.Text.Printable

/-! # Quoted texts

A text between double quotes.  Backslash, double quote and the common control
characters have short escapes; whatever else is not shown as itself is written
by its code point.
-/

namespace TreeJit.Text

/-- The escape of a character by its code point, in lower-case hexadecimal. -/
def codePointEscape (c : Char) : List Char :=
  "\\u\x7b".toList ++ Nat.toDigits 16 c.toNat ++ "\x7d".toList

/-- A character as it stands between double quotes. -/
def quotedChar (c : Char) : List Char :=
  if c.toNat = 0 then "\\0".toList
  else if c = '\t' then "\\t".toList
  else if c = '\r' then "\\r".toList
  else if c = '\n' then "\\n".toList
  else if c = '"' then "\\\"".toList
  else if c = '\\' then "\\\\".toList
  else if isShown c then [c]
  else codePointEscape c

/-- A text between double quotes. -/
def quoted (cs : List Char) : List Char := '"' :: (cs.flatMap quotedChar ++ ['"'])

end TreeJit.Text
