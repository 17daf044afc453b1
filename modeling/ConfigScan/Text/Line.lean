/-
Module: ConfigScan.Text.Line
Purpose: Cutting a text into its lines.
Main exports: lines
-/

namespace ConfigScan.Text

/-- The lines of a text. A line ends before a line feed, or before a carriage return that stands
    directly before one; what follows the last line feed is a line only when it is not empty. -/
def lines : List Char → List (List Char)
  | [] => []
  | '\n' :: rest => [] :: lines rest
  | '\r' :: '\n' :: rest => [] :: lines rest
  | c :: rest =>
      match lines rest with
      | [] => [[c]]
      | line :: others => (c :: line) :: others

end ConfigScan.Text
