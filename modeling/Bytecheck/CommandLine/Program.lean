import Bytecheck.ClassTable.Library
import Bytecheck.CommandLine.Options
import Bytecheck.Verify

/-!
# The Program

The program behind the command line: verify one method and list the frame before each instruction.
-/

namespace Bytecheck.CommandLine

inductive Outcome where
  | usage (line : String)
  /-- The method is rejected, or is none. -/
  | rejected (text : String)
  /-- The method is verified; there is an entry for each instruction. -/
  | listing (entries : List String)
deriving DecidableEq, Repr

def Outcome.exitCode : Outcome → Nat
  | .usage _ => 2
  | .rejected _ => 1
  | .listing _ => 0

/-- The lines on standard output. An entry takes more than one if a name in it has a line end. -/
def Outcome.lines : Outcome → List String
  | .usage _ | .rejected _ => []
  | .listing entries => entries.flatMap fun e => Text.lines (e ++ "\n")

/-- The library classes, then the ones that the options name. -/
def Options.table (o : Options) : ClassTable :=
  ClassTable.library.addAll (o.classes.map fun p => ⟨p.1, some p.2, [], ⟨0x0001⟩⟩)

def Options.pool (o : Options) : ConstantPool :=
  (o.constants.foldl (fun t e => t.insert e.1 e.2) ConstantTable.empty).pool

/-- The method that the options name; its class is checked first, its descriptor last. -/
def Options.method (o : Options) : Except String Method := do
  let owner ← (BinaryName.ofString o.owner).mapError NameFault.message
  let name ← (UnqualifiedName.ofString o.name).mapError NameFault.message
  let descriptor ← (MethodDescriptor.parse o.descriptor).mapError DescriptorFault.message
  return ⟨owner, name, descriptor, ⟨if o.isStatic then 0x0009 else 0x0001⟩⟩

/-- An entry of the listing: the offset, the instruction, and the frame before it. -/
def listingEntry (offset : Nat) (i : Instruction Nat) (f : Option Frame) : String :=
  Text.padLeft 5 (inspect offset) ++ ": " ++ Text.padRight 40 (inspect i) ++ " " ++
    f.elim "(dead code)" Frame.listing

def listing (d : DecodedCode) (v : Verified) : List String :=
  (d.offsets.zip d.instructions).zipIdx.map fun p => listingEntry p.1.1 p.1.2 (v.frame? p.2)

def verify (o : Options) : Outcome :=
  match o.method with
  | .error message => .rejected ("Error: " ++ inspect message ++ "\n")
  | .ok m =>
    let raw : RawCode := ⟨o.code, o.maxStack, o.maxLocals, o.handlers, o.lines⟩
    match (Verify.bytes o.table.hierarchy .standard m raw o.pool).outcome with
    | .error failure => .rejected (failure.message ++ "\n")
    | .ok v =>
      match DecodedCode.ofBytes o.pool o.code with
      | .error fault => .rejected ("Error: " ++ inspect fault.message ++ "\n")
      | .ok d => .listing (listing d v)

def run (args : List String) : Outcome :=
  match Options.ofArguments args with
  | .error f => .usage f.line
  | .ok o => verify o

end Bytecheck.CommandLine
