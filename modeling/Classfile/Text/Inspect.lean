import Classfile.Text.Visible

/-!
# Inspection text

Diagnostics show values by their constructors: `Base(Int)`, a record with named fields, a list in
brackets, a text in double quotes. The functions here build such text from the parts' own.
-/

namespace Classfile.Inspect

/-- One character inside quotes. What cannot be shown is written by its code point. -/
def escape (c : Char) : String :=
  match c with
  | '"' => "\\\""
  | '\\' => "\\\\"
  | '\n' => "\\n"
  | '\r' => "\\r"
  | '\t' => "\\t"
  | '\x00' => "\\0"
  | c =>
    if Text.isVisible c then c.toString
    else "\\u\x7b" ++ String.ofList (Nat.toDigits 16 c.toNat) ++ "\x7d"

def quoted (text : String) : String :=
  text.foldl (fun shown c => shown ++ escape c) "\"" ++ "\""

def listed (items : List String) : String :=
  "[" ++ ", ".intercalate items ++ "]"

/-- A constructor with its arguments, or alone if it has none. -/
def applied (name : String) (arguments : List String) : String :=
  if arguments.isEmpty then name else name ++ "(" ++ ", ".intercalate arguments ++ ")"

def record (name : String) (fields : List (String × String)) : String :=
  name ++ " \x7b " ++ ", ".intercalate (fields.map fun (label, value) => label ++ ": " ++ value)
    ++ " \x7d"

end Classfile.Inspect
