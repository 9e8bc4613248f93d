import Memberwise.Text.Visible

/-!
# Debug text

One-line text that shows the structure of a value: a record as `Name { field: text, … }`, a list in square
brackets, an optional value as `None` or `Some(…)`, and text in double quotes with everything escaped that would
not be visible as itself.
-/

namespace Memberwise.Text.Debug

/-- A character inside double quotes. -/
def escape (c : Char) : List Char :=
  match c with
  | '\x00' => ['\\', '0']
  | '\t' => ['\\', 't']
  | '\r' => ['\\', 'r']
  | '\n' => ['\\', 'n']
  | '"' => ['\\', '"']
  | '\\' => ['\\', '\\']
  | c => if isVisible c then [c] else ['\\', 'u', '\x7b'] ++ Nat.toDigits 16 c.toNat ++ ['\x7d']

/-- Text in double quotes. -/
def quote (s : String) : String := String.ofList ('"' :: (s.toList.flatMap escape ++ ['"']))

/-- A list of texts. -/
def list (items : List String) : String := "[" ++ ", ".intercalate items ++ "]"

/-- An optional text. -/
def option : Option String → String
  | none => "None"
  | some s => "Some(" ++ s ++ ")"

/-- A truth value. -/
def bool (b : Bool) : String := if b then "true" else "false"

/-- A record with named fields, of which there is at least one. -/
def record (name : String) (fields : List (String × String)) : String :=
  name ++ " \x7b " ++ ", ".intercalate (fields.map fun (field, text) => field ++ ": " ++ text) ++ " \x7d"

end Memberwise.Text.Debug
