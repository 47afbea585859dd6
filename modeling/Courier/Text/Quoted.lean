import Courier.Text.Shown

/-!
# Quoted — a text as it is shown inside a message

A quoted text stands between double quotes.  Quotes, backslashes and the usual control characters have short
escapes; every other character that would not show as itself is written as its code point.
-/

namespace Courier
namespace Quoted

/-- The lower-case hexadecimal numeral of a code point. -/
def hexadecimal (n : Nat) : String :=
  String.ofList (Nat.toDigits 16 n)

/-- The form of one character between the quotes. -/
def quoteChar (c : Char) : String :=
  if c = '"' then "\\\""
  else if c = '\\' then "\\\\"
  else if c = '\t' then "\\t"
  else if c = '\n' then "\\n"
  else if c = '\r' then "\\r"
  else if c = '\x00' then "\\0"
  else if Text.isShown c.toNat then c.toString
  else "\\u\x7b" ++ hexadecimal c.toNat ++ "\x7d"

/-- A text between quotes. -/
def quote (s : String) : String :=
  "\"" ++ String.join (s.toList.map quoteChar) ++ "\""

end Quoted
end Courier
