import Mailout.Text.Printable

/-!
# Quoted text

Text between double quotes for people who read a message. The quote, the backslash and the usual
control characters are written with a backslash, every other character that cannot be shown on its
own by its number.
-/

namespace Mailout.Text

/-- The digits of a number to the base sixteen, in small letters. -/
def hexDigits (n : Nat) : Text := Nat.toDigits 16 n

/-- The characters that stand for a character between quotes. -/
def quoteChar : Char → Text
  | '\x00' => ['\\', '0']
  | '\t' => ['\\', 't']
  | '\r' => ['\\', 'r']
  | '\n' => ['\\', 'n']
  | '"' => ['\\', '"']
  | '\\' => ['\\', '\\']
  | c => if isPrintable c then [c] else '\\' :: 'u' :: '{' :: hexDigits c.toNat ++ ['}']

/-- The text between double quotes. -/
def quoted (s : Text) : Text := '"' :: s.flatMap quoteChar ++ ['"']

end Mailout.Text
