/-
Module: ConfigScan.Json.Printer
Purpose: Writing texts as JSON.
Main exports: quoted
-/

namespace ConfigScan.Json

/-- A character inside quotes. Control characters are escaped, by a letter if there is one. -/
def escaped (c : Char) : List Char :=
  match c with
  | '"' => ['\\', '"']
  | '\\' => ['\\', '\\']
  | '\x08' => ['\\', 'b']
  | '\x0c' => ['\\', 'f']
  | '\n' => ['\\', 'n']
  | '\r' => ['\\', 'r']
  | '\t' => ['\\', 't']
  | c =>
      if c.toNat < 32 then
        ['\\', 'u', '0', '0', Nat.digitChar (c.toNat / 16), Nat.digitChar (c.toNat % 16)]
      else [c]

/-- A text in quotes. -/
def quoted (text : List Char) : List Char := '"' :: text.flatMap escaped ++ ['"']

end ConfigScan.Json
