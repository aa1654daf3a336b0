/-
The lines of a text.

A line feed ends a line, and a carriage return just before it belongs
to the end. What stands behind the last line feed is a line too, unless
it is empty.
-/

namespace ControlLoop.Text

/-- A line less the carriage return at its end. -/
def withoutReturn (line : List Char) : List Char :=
  if line.getLast? = some '\r' then line.dropLast else line

/-- The lines of characters, behind what was read of the first line, last character first. -/
def linesBehind (read : List Char) : List Char → List (List Char)
  | [] => if read.isEmpty then [] else [read.reverse]
  | '\n' :: rest => withoutReturn read.reverse :: linesBehind [] rest
  | c :: rest => linesBehind (c :: read) rest

/-- The lines of a text, without their ends. -/
def lines (s : String) : List String := (linesBehind [] s.toList).map String.ofList

end ControlLoop.Text
