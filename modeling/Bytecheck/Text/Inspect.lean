import Bytecheck.Text.Printable

/-!
# Inspection Text

How a value is shown to a reader of a listing or a log. A constructor is shown by
its name, with positional parts in parentheses and named parts in braces; lists are bracketed and
strings are quoted.
-/

namespace Bytecheck

/-- Types whose values have an inspection text. -/
class Inspect (α : Type) where
  inspect : α → String

export Inspect (inspect)

namespace Text

/-- The parts separated by a comma and a blank. -/
def commas (parts : List String) : String := ", ".intercalate parts

/-- A constructor with positional parts: `Name(a, b)`. -/
def applied (name : String) (parts : List String) : String :=
  name ++ "(" ++ commas parts ++ ")"

/-- A constructor with named parts: the name, then `field: value` pairs in braces. -/
def braced (name : String) (fields : List (String × String)) : String :=
  name ++ " \x7b " ++ commas (fields.map fun f => f.1 ++ ": " ++ f.2) ++ " \x7d"

def bracketed (parts : List String) : String := "[" ++ commas parts ++ "]"

def hex (n : Nat) : String := String.ofList (Nat.toDigits 16 n)

/-- A byte as two hexadecimal digits. -/
def hexByte (n : Nat) : String := if n < 16 then "0" ++ hex n else hex n

/-- How a character is written inside a quoted string. -/
def escape (c : Char) : String :=
  if c = '"' then "\\\""
  else if c = '\\' then "\\\\"
  else if c = '\n' then "\\n"
  else if c = '\r' then "\\r"
  else if c = '\t' then "\\t"
  else if c.toNat = 0 then "\\0"
  else if isPrintable c then c.toString
  else "\\u\x7b" ++ hex c.toNat ++ "\x7d"

/-- A string in double quotes, with quotes, backslashes and unprintable characters escaped. -/
def quote (s : String) : String :=
  "\"" ++ String.join (s.toList.map escape) ++ "\""

/-- The text, followed by blanks up to the given number of characters. -/
def padRight (width : Nat) (s : String) : String :=
  s ++ String.ofList (List.replicate (width - s.length) ' ')

/-- The text, preceded by blanks up to the given number of characters. -/
def padLeft (width : Nat) (s : String) : String :=
  String.ofList (List.replicate (width - s.length) ' ') ++ s

end Text

instance : Inspect Nat := ⟨fun n => toString n⟩

instance : Inspect Int := ⟨fun n => toString n⟩

instance : Inspect Bool := ⟨fun b => if b then "true" else "false"⟩

instance : Inspect String := ⟨Text.quote⟩

instance {α : Type} [Inspect α] : Inspect (List α) := ⟨fun xs => Text.bracketed (xs.map inspect)⟩

instance {α : Type} [Inspect α] : Inspect (Option α) where
  inspect
    | none => "None"
    | some a => Text.applied "Some" [inspect a]

instance {α β : Type} [Inspect α] [Inspect β] : Inspect (α × β) :=
  ⟨fun p => Text.applied "" [inspect p.1, inspect p.2]⟩

end Bytecheck
