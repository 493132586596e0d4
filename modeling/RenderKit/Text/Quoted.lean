import RenderKit.Text.Unprintable

/-!
# Quoted text

Text as it is shown inside a diagnostic: between double quotes, with a backslash before a quote or
a backslash, short escapes for four controls, and the code point in braces for every other
unprintable character or mark that would join its neighbour.
-/

namespace RenderKit.Text

/-- Digits of a number in base sixteen, in lower case. -/
def hex (n : Nat) : String :=
  String.ofList (Nat.toDigits 16 n)

/-- One character as it is shown inside quotes. -/
def shown (c : Char) : String :=
  match c with
  | '"' => "\\\""
  | '\\' => "\\\\"
  | '\n' => "\\n"
  | '\r' => "\\r"
  | '\t' => "\\t"
  | '\x00' => "\\0"
  | c => if isUnprintable c then "\\u\x7b" ++ hex c.toNat ++ "\x7d" else String.singleton c

/-- Text between double quotes, with its special characters escaped. -/
def quoted (s : String) : String :=
  "\"" ++ String.join (s.toList.map shown) ++ "\""

/-- A letter or digit of ASCII is shown as it is. -/
example : quoted "Pass 1" = "\"Pass 1\"" := by decide +kernel

/-- Quotes and controls are escaped, and a mark that extends its neighbour shows its code point. -/
example : quoted "a\"\n\u0301\x01" = "\"a\\\"\\n\\u\x7b301\x7d\\u\x7b1\x7d\"" := by
  decide +kernel

/-- A filler has no shape and shows its code point; a halfwidth sound sign has one. -/
example : quoted "\u3164\uff9e" = "\"\\u\x7b3164\x7d\uff9e\"" := by
  decide +kernel

end RenderKit.Text
