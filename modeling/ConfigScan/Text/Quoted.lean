/-
Module: ConfigScan.Text.Quoted
Purpose: Texts in double quotes, as they are shown in messages.
Main exports: escaped, quoted
-/
import ConfigScan.Text.Visible

namespace ConfigScan.Text

/-- A character inside quotes. What does not show on its own is written by its number. -/
def escaped (c : Char) : List Char :=
  match c with
  | '\x00' => ['\\', '0']
  | '\t' => ['\\', 't']
  | '\r' => ['\\', 'r']
  | '\n' => ['\\', 'n']
  | '\\' => ['\\', '\\']
  | '"' => ['\\', '"']
  | c =>
      if isVisible c then [c]
      else ['\\', 'u', '{'] ++ Nat.toDigits 16 c.toNat ++ ['}']

/-- A text in quotes. -/
def quoted (text : List Char) : List Char :=
  '"' :: text.flatMap escaped ++ ['"']

end ConfigScan.Text
