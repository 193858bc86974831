import Bytecheck.Constant
import Bytecheck.Decimal.Reader
import Bytecheck.Decode.Code
import Bytecheck.Descriptor.Reader
import Bytecheck.Text.Blank
import Bytecheck.Text.Split

/-!
# Command-Line Values

The values of command-line arguments: code as hexadecimal digits, and entries of the tables that
belong to a method.
-/

namespace Bytecheck.CommandLine

inductive ValueFault where
  | hexDigit (c : Char) (text : String)
  | oddHex (text : String)
  | number (text : String) (fault : Decimal.NumberFault)
  /-- The text is not of the form that is named. -/
  | form (expected text : String)
  | name (fault : NameFault)
  | descriptor (fault : DescriptorFault)
  /-- The owner of a field is an array. -/
  | fieldOwner (text : String)
  | constantKind (kind : String)
deriving DecidableEq, Repr

def ValueFault.message : ValueFault → String
  | .hexDigit c text => s!"Invalid hex digit '{c}' in '{text}'"
  | .oddHex text => s!"Odd number of hex digits in '{text}'"
  | .number text fault => s!"Invalid number '{text}': " ++ fault.message
  | .form expected text => s!"Expected {expected}, found '{text}'"
  | .name fault => fault.message
  | .descriptor fault => fault.message
  | .fieldOwner text => s!"Field owner of '{text}' is not a class"
  | .constantKind kind => s!"Unknown constant kind '{kind}'"

/-- A value, or why it is rejected. -/
abbrev Parsed (α : Type) := Except ValueFault α

/-- The value of a hexadecimal digit, in either case. -/
def hexDigit? (c : Char) : Option Nat :=
  if '0' ≤ c ∧ c ≤ '9' then some (c.toNat - '0'.toNat)
  else if 'a' ≤ c ∧ c ≤ 'f' then some (c.toNat - 'a'.toNat + 10)
  else if 'A' ≤ c ∧ c ≤ 'F' then some (c.toNat - 'A'.toNat + 10)
  else none

/-- Bytes from pairs of digits; none if a digit is left over. -/
def pairBytes : List Nat → Option (List UInt8)
  | [] => some []
  | [_] => none
  | a :: b :: rest => (pairBytes rest).map ((a * 16 + b).toUInt8 :: ·)

/-- Code as hexadecimal digits, with white space anywhere. -/
def hexBytes (text : String) : Parsed (List UInt8) := do
  let ds ← (text.toList.filter fun c => !Text.isBlank c).mapM fun c =>
    match hexDigit? c with
    | some d => .ok d
    | none => .error (.hexDigit c text)
  match pairBytes ds with
  | some bytes => .ok bytes
  | none => .error (.oddHex text)

def integer (b : Decimal.Bounds) (cs : List Char) : Parsed Int :=
  (Decimal.readInt b cs).mapError (.number (String.ofList cs))

def short (cs : List Char) : Parsed Nat := (integer .unsigned16 cs).map Int.toNat

def floating (f : Decimal.Format) (cs : List Char) : Parsed Nat :=
  (f.read cs).mapError (.number (String.ofList cs))

/-- The parts around the first occurrence of a character; without one the text has not the expected
form. -/
def cut (c : Char) (expected : String) (cs : List Char) : Parsed (List Char × List Char) :=
  match Text.splitFirst c cs with
  | some p => .ok p
  | none => .error (.form expected (String.ofList cs))

def line (text : String) : Parsed (Nat × Nat) := do
  let (pc, number) ← cut ':' "PC:LINE" text.toList
  return (← short pc, ← short number)

/-- An exception table entry; without a type it catches everything. -/
def handler (text : String) : Parsed RawHandler := do
  let of (start stop entry : List Char) (type : Nat) : Parsed RawHandler := do
    return ⟨← short start, ← short stop, ← short entry, type⟩
  match Text.splitAll ':' text.toList with
  | [start, stop, entry] => of start stop entry 0
  | [start, stop, entry, type] => of start stop entry (← short type)
  | _ => .error (.form "START:END:HANDLER[:TYPE]" text)

def binaryName (cs : List Char) : Parsed BinaryName :=
  (BinaryName.ofString (String.ofList cs)).mapError .name

def unqualifiedName (cs : List Char) : Parsed UnqualifiedName :=
  (UnqualifiedName.ofString (String.ofList cs)).mapError .name

def classPair (text : String) : Parsed (BinaryName × BinaryName) := do
  let (name, superclass) ← cut ':' "CLASS:SUPERCLASS" text.toList
  return (← binaryName name, ← binaryName superclass)

/-- A reference to a member, with the descriptor as it was written. -/
structure Member where
  owner : RefType
  name : UnqualifiedName
  descriptor : String
deriving DecidableEq

instance : Inspect Member where
  inspect m := Text.applied "" [inspect m.owner, inspect m.name, inspect m.descriptor]

def classConstant (cs : List Char) : Parsed RefType :=
  (RefType.ofConstant (String.ofList cs)).mapError .descriptor

/-- A member as its owner, its name and its descriptor. -/
def member (text : String) : Parsed Member := do
  let expected := "OWNER.NAME:DESCRIPTOR"
  let (front, descriptor) ← cut ':' expected text.toList
  match Text.splitLast '.' front with
  | none => .error (.form expected text)
  | some (owner, name) =>
    let owner ← classConstant owner
    return ⟨owner, ← unqualifiedName name, String.ofList descriptor⟩

def fieldConstant (text : String) : Parsed ConstantEntry := do
  let m ← member text
  match m.owner with
  | .object owner =>
    return .field ⟨owner, m.name, ← (FieldType.parse m.descriptor).mapError .descriptor⟩
  | _ => .error (.fieldOwner text)

def methodConstant (onInterface : Bool) (text : String) : Parsed ConstantEntry := do
  let m ← member text
  return .method
    ⟨m.owner, m.name, ← (MethodDescriptor.parse m.descriptor).mapError .descriptor, onInterface⟩

def entry (kind : String) (value : List Char) : Parsed ConstantEntry :=
  match kind with
  | "class" => return .cls (← classConstant value)
  | "string" => return .loadable (.string (String.ofList value))
  | "int" => return .loadable (.int (← integer .signed32 value))
  | "long" => return .loadable (.long (← integer .signed64 value))
  | "float" => return .loadable (.float (← floating Decimal.single value).toUInt32)
  | "double" => return .loadable (.double (← floating Decimal.double value).toUInt64)
  | "field" => fieldConstant (String.ofList value)
  | "method" => methodConstant false (String.ofList value)
  | "imethod" => methodConstant true (String.ofList value)
  | other => .error (.constantKind other)

/-- A constant with its index. -/
def constant (text : String) : Parsed (Nat × ConstantEntry) := do
  let (index, rest) ← cut '=' "INDEX=KIND:VALUE" text.toList
  let (kind, value) ← cut ':' "KIND:VALUE" rest
  let e ← entry (String.ofList kind) value
  return (← short index, e)

end Bytecheck.CommandLine
