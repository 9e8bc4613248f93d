/-!
# JSON text

Compact JSON, built from the text of its parts: strings, arrays, and objects whose fields keep their order.
-/

namespace Memberwise.Text.Json

/-- A character inside a string. -/
def escape (c : Char) : List Char :=
  match c with
  | '"' => ['\\', '"']
  | '\\' => ['\\', '\\']
  | '\x08' => ['\\', 'b']
  | '\x0c' => ['\\', 'f']
  | '\n' => ['\\', 'n']
  | '\r' => ['\\', 'r']
  | '\t' => ['\\', 't']
  | c =>
    if c.toNat < 0x20 then ['\\', 'u', '0', '0', Nat.digitChar (c.toNat / 16), Nat.digitChar (c.toNat % 16)]
    else [c]

/-- A string. -/
def string (s : String) : String := String.ofList ('"' :: (s.toList.flatMap escape ++ ['"']))

/-- A number without sign. -/
def number (n : Nat) : String := toString n

/-- A truth value. -/
def bool (b : Bool) : String := if b then "true" else "false"

/-- An array of the given parts. -/
def array (items : List String) : String := "[" ++ ",".intercalate items ++ "]"

/-- An object of the given fields, in order. -/
def object (fields : List (String × String)) : String :=
  "\x7b" ++ ",".intercalate (fields.map fun (name, text) => string name ++ ":" ++ text) ++ "\x7d"

end Memberwise.Text.Json
