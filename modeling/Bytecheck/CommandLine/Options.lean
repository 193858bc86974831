import Bytecheck.CommandLine.Value
import Bytecheck.Text.Split
import Bytecheck.Text.Terminal

/-!
# Command-Line Options

The arguments of the command line as options. Values are read in the order of the arguments; what is
required is looked for at the end.
-/

namespace Bytecheck.CommandLine

structure Options where
  owner : String
  name : String
  descriptor : String
  isStatic : Bool
  maxStack : Nat
  maxLocals : Nat
  constants : List (Nat × ConstantEntry)
  handlers : List RawHandler
  lines : List (Nat × Nat)
  classes : List (BinaryName × BinaryName)
  code : List UInt8

inductive Key where
  | owner | name | descriptor | maxStack | maxLocals | constant | handler | line | type
deriving DecidableEq, Repr

namespace Key

def all : List Key :=
  [.owner, .name, .descriptor, .maxStack, .maxLocals, .constant, .handler, .line, .type]

def flag : Key → String
  | .owner => "--class"
  | .name => "--name"
  | .descriptor => "--descriptor"
  | .maxStack => "--max-stack"
  | .maxLocals => "--max-locals"
  | .constant => "--constant"
  | .handler => "--handler"
  | .line => "--line"
  | .type => "--type"

/-- What the value stands for. -/
def placeholder : Key → String
  | .owner => "<CLASS_NAME>"
  | .name => "<METHOD_NAME>"
  | .descriptor => "<DESCRIPTOR>"
  | .maxStack | .maxLocals => "<SLOTS>"
  | .constant => "<INDEX=KIND:VALUE>"
  | .handler => "<START:END:HANDLER[:TYPE]>"
  | .line => "<PC:LINE>"
  | .type => "<CLASS:SUPERCLASS>"

def usage (k : Key) : String := k.flag ++ " " ++ k.placeholder

end Key

inductive UsageFault where
  | invalidValue (value argument message : String)
  | unexpected (argument : String)
  | missingValue (argument : String)
  | repeated (argument : String)
  | missingRequired
deriving DecidableEq, Repr

namespace UsageFault

def wrong : String → String := Text.Terminal.styled "33"

def literal : String → String := Text.Terminal.styled "1"

/-- What is wrong, in the styles of a terminal. -/
def cause : UsageFault → String
  | .invalidValue value argument message =>
    "invalid value '" ++ wrong value ++ "' for '" ++ literal argument ++ "': " ++ message
  | .unexpected argument => "unexpected argument '" ++ wrong argument ++ "' found"
  | .missingValue argument =>
    "a value is required for '" ++ literal argument ++ "' but none was supplied"
  | .repeated argument =>
    "the argument '" ++ wrong argument ++ "' cannot be used multiple times"
  | .missingRequired => "the following required arguments were not provided:"

def message (f : UsageFault) : String :=
  Text.Terminal.styled "1;31" "error:" ++ " " ++ f.cause ++ "\n\nFor more information, try '" ++
    literal "--help" ++ "'.\n"

/-- The first line of the message as plain text. -/
def line (f : UsageFault) : String := Text.firstLine (Text.Terminal.strip f.message)

end UsageFault

/-- Options as far as the arguments have been read. -/
structure Draft where
  owner : Option String := none
  name : Option String := none
  descriptor : Option String := none
  isStatic : Bool := false
  maxStack : Option Nat := none
  maxLocals : Option Nat := none
  constants : List (Nat × ConstantEntry) := []
  handlers : List RawHandler := []
  lines : List (Nat × Nat) := []
  classes : List (BinaryName × BinaryName) := []
  code : Option (List UInt8) := none

def slots (text : String) : Except String Nat :=
  match Decimal.readInt .signed64 text.toList with
  | .error f => .error f.message
  | .ok n => if 0 ≤ n ∧ n ≤ 65535 then .ok n.toNat else .error s!"{n} is not in 0..=65535"

namespace Draft

/-- Set what may be set once. -/
def once {α : Type} (argument : String) (old : Option α) (new : α) : Except UsageFault (Option α) :=
  if old.isSome then .error (.repeated argument) else .ok (some new)

def take (d : Draft) (k : Key) (value : String) : Except UsageFault Draft :=
  let rejected {α : Type} (x : Parsed α) : Except UsageFault α :=
    x.mapError fun f => .invalidValue value k.usage f.message
  let count : Except UsageFault Nat := (slots value).mapError (.invalidValue value k.usage)
  match k with
  | .owner => return { d with owner := ← once k.usage d.owner value }
  | .name => return { d with name := ← once k.usage d.name value }
  | .descriptor => return { d with descriptor := ← once k.usage d.descriptor value }
  | .maxStack => do
    let n ← count
    return { d with maxStack := ← once k.usage d.maxStack n }
  | .maxLocals => do
    let n ← count
    return { d with maxLocals := ← once k.usage d.maxLocals n }
  | .constant => return { d with constants := d.constants ++ [← rejected (constant value)] }
  | .handler => return { d with handlers := d.handlers ++ [← rejected (handler value)] }
  | .line => return { d with lines := d.lines ++ [← rejected (line value)] }
  | .type => return { d with classes := d.classes ++ [← rejected (classPair value)] }

def takeCode (d : Draft) (value : String) : Except UsageFault Draft :=
  if d.code.isSome then .error (.unexpected value)
  else
    match hexBytes value with
    | .ok bytes => .ok { d with code := some bytes }
    | .error f => .error (.invalidValue value "<CODE>" f.message)

/-- The options, if nothing that is required is missing. -/
def finish (d : Draft) : Except UsageFault Options :=
  match d.descriptor, d.maxStack, d.maxLocals, d.code with
  | some descriptor, some maxStack, some maxLocals, some code =>
    .ok ⟨d.owner.getD "Main", d.name.getD "method", descriptor, d.isStatic, maxStack, maxLocals,
      d.constants, d.handlers, d.lines, d.classes, code⟩
  | _, _, _, _ => .error .missingRequired

end Draft

/-- An argument that stands for an option and not for a value. -/
def isOption (arg : String) : Bool :=
  match arg.toList with
  | '-' :: _ :: _ => true
  | _ => false

/-- The option of a long argument, and the value after an equals sign. -/
def splitLong (arg : String) : String × Option String :=
  match Text.splitFirst '=' arg.toList with
  | some (flag, value) => (String.ofList flag, some (String.ofList value))
  | none => (arg, none)

def read (d : Draft) : List String → Except UsageFault Draft
  | [] => .ok d
  | arg :: rest =>
    if arg = "--" then rest.foldlM Draft.takeCode d
    else if isOption arg then
      let (flag, attached) := splitLong arg
      match Key.all.find? fun k => k.flag = flag with
      | some k =>
        match attached with
        | some value => do
          let d ← d.take k value
          read d rest
        | none =>
          match rest with
          | [] => .error (.missingValue k.usage)
          | value :: rest =>
            if isOption value then .error (.missingValue k.usage)
            else do
              let d ← d.take k value
              read d rest
      | none =>
        if flag = "--static" ∧ attached.isNone then
          if d.isStatic then .error (.repeated "--static")
          else read { d with isStatic := true } rest
        else .error (.unexpected flag)
    else do
      let d ← d.takeCode arg
      read d rest

def Options.ofArguments (args : List String) : Except UsageFault Options := do
  let d ← read {} args
  d.finish

end Bytecheck.CommandLine
