/-!
# Lines

A line ends with a line feed, and a carriage return right before it belongs to the ending. Text
after the last line feed is a line too, unless it is empty.
-/

namespace PlanarDynamics.Text

/-- A line without the carriage return of its ending. -/
def dropReturn (line : List Char) : List Char :=
  if line.getLast? = some '\r' then line.dropLast else line

/-- The lines of a text, without their endings. -/
def lines (cs : List Char) : List (List Char) :=
  match (cs.splitOn '\n').reverse with
  | [] => []
  | last :: ended =>
    (ended.map dropReturn).reverse ++ if last.isEmpty then [] else [last]

end PlanarDynamics.Text
