/-!
# Type names

A full type name is text with module paths in front of every type, such as `graph::Edge<graph::node::Id>`. The
short name drops the paths: `Edge<Id>`. Delimiters (angle, round and square brackets, comma, blank, semicolon,
ampersand) cut a name into segments; each segment keeps what follows its last `::`, and the delimiters stay.
-/

namespace Memberwise.TypeName

/-- The characters that stand between segments. -/
def isDelimiter (c : Char) : Bool :=
  c = '<' || c = '>' || c = ',' || c = ' ' || c = '(' || c = ')' || c = '[' || c = ']' || c = ';' || c = '&'

/-- The part of a segment before its first `::`, which for a reversed segment is what follows the last one. -/
def untilPath : List Char → List Char
  | [] => []
  | ':' :: ':' :: _ => []
  | c :: rest => c :: untilPath rest

/-- Cuts at the delimiters; `pending` holds the segment being read, last character first. -/
def strip (pending : List Char) : List Char → List Char
  | [] => (untilPath pending).reverse
  | c :: rest =>
    if isDelimiter c then (untilPath pending).reverse ++ c :: strip [] rest else strip (c :: pending) rest

/-- The name without module paths. -/
def short (name : String) : String := String.ofList (strip [] name.toList)

/-- The name as it appears in debug text. -/
def debug (name : String) : String := "ValueType(" ++ name ++ ")"

end Memberwise.TypeName
