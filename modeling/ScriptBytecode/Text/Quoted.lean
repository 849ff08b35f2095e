import ScriptBytecode.Text.Unprintable

/-!
# Quoted text

How a listing writes a string constant: between double quotes, with a backslash before a quote or a
backslash, the usual letters for line feed, carriage return, tab and the null character, and the
code point in hexadecimal for every other character without a shape of its own. All other characters
stand for themselves.
-/

namespace ScriptBytecode.Quoted

/-- A character as it stands between the quotes. -/
def encodeChar (c : Char) : List Char :=
  match c with
  | '"' => ['\\', '"']
  | '\\' => ['\\', '\\']
  | '\n' => ['\\', 'n']
  | '\r' => ['\\', 'r']
  | '\t' => ['\\', 't']
  | '\x00' => ['\\', '0']
  | c =>
    if isUnprintable c then ['\\', 'u', '\x7b'] ++ Nat.toDigits 16 c.toNat ++ ['\x7d'] else [c]

/-- A text between quotes. -/
def encode (text : String) : String :=
  String.ofList ('"' :: text.toList.flatMap encodeChar ++ ['"'])

end ScriptBytecode.Quoted
