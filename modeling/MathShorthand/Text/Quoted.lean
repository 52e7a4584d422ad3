import MathShorthand.Text.GraphemeExtend
import MathShorthand.Text.Ignorable
import MathShorthand.Text.Printable

/-!
# Quoted text

`quote` writes any text so that every character of it shows. What has no shape of its own is
written by its number.
-/

namespace MathShorthand.Text

/-- A character by its number, as in `\u{301}` for the acute accent. -/
def numbered (c : Char) : List Char :=
  '\\' :: 'u' :: '\x7b' :: (Nat.toDigits 16 c.toNat ++ ['\x7d'])

/-- A character that would not show by itself. -/
def isHidden (c : Char) : Bool := isGraphemeExtender c || isIgnorable c || !isPrintable c

/-- A character as it stands inside double quotes. -/
def quoteChar (c : Char) : List Char :=
  match c with
  | '\x00' => ['\\', '0']
  | '\t' => ['\\', 't']
  | '\n' => ['\\', 'n']
  | '\r' => ['\\', 'r']
  | '"' => ['\\', '"']
  | '\\' => ['\\', '\\']
  | c => if isHidden c then numbered c else [c]

def quote (text : String) : String :=
  String.ofList ('"' :: (text.toList.flatMap quoteChar ++ ['"']))

end MathShorthand.Text
