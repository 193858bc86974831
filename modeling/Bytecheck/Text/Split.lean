/-!
# Cutting Texts

Cutting a text at the first, at the last, or at every occurrence of a character, and into lines.
-/

namespace Bytecheck.Text

/-- What stands before and after the first occurrence of a character. -/
def splitFirst (c : Char) : List Char → Option (List Char × List Char)
  | [] => none
  | d :: ds => if d = c then some ([], ds) else (splitFirst c ds).map fun p => (d :: p.1, p.2)

/-- What stands before and after the last occurrence of a character. -/
def splitLast (c : Char) (cs : List Char) : Option (List Char × List Char) :=
  (splitFirst c cs.reverse).map fun p => (p.2.reverse, p.1.reverse)

/-- The parts between the occurrences of a character. -/
def splitAll (c : Char) (cs : List Char) : List (List Char) :=
  cs.foldr (fun d parts =>
    if d = c then [] :: parts
    else
      match parts with
      | [] => [[d]]
      | p :: ps => (d :: p) :: ps) [[]]

def dropReturn (cs : List Char) : List Char := if cs.getLast? = some '\r' then cs.dropLast else cs

/-- The lines of a text. A line ends with a line feed, or with a carriage return and a line feed; the
last one may lack its end. -/
def lines (s : String) : List String :=
  let parts := splitAll '\n' s.toList
  (parts.dropLast.map dropReturn ++ parts.getLast?.toList.filter (!·.isEmpty)).map String.ofList

def firstLine (s : String) : String := (lines s).headD ""

end Bytecheck.Text
