import BlockThreads.Text.Unmarked

/-!
# Quoted texts in messages

Messages show a text between double quotes. The quote and the backslash are escaped,
the common controls have escapes of one letter, and every other character without a
mark of its own is shown by its number in braces.
-/

namespace BlockThreads.Text

/-- How a character is shown between quotes. -/
def quotedChar (c : Char) : String :=
  match c with
  | '"' => "\\\""
  | '\\' => "\\\\"
  | '\t' => "\\t"
  | '\n' => "\\n"
  | '\r' => "\\r"
  | c =>
    if c.toNat = 0 then "\\0"
    else if isUnmarked c then
      "\\u\x7b" ++ String.ofList (Nat.toDigits 16 c.toNat) ++ "\x7d"
    else c.toString

/-- A text between quotes. -/
def quoted (text : String) : String :=
  "\"" ++ String.join (text.toList.map quotedChar) ++ "\""

end BlockThreads.Text
