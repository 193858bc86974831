import Bytecheck.VType

/-!
# Faults

Everything that can be wrong with a method, as causes, with one text for each. Code faults make an
analysis meaningless; type faults are found in one instruction or where paths meet; internal faults
blame the analysis itself. A failure is a cause with the source line it was traced to.
-/

namespace Bytecheck

/-- Faults in the shape of the code. Offsets are in bytes; instructions and targets are indices. -/
inductive CodeFault where
  | emptyCode
  /-- The code ends within an instruction. -/
  | truncatedCode (offset : Nat)
  | unknownOpcode (offset opcode : Nat)
  /-- The opcode cannot follow `wide`. -/
  | invalidWideOpcode (offset opcode : Nat)
  /-- The operand of `newarray` is no element type. -/
  | invalidArrayType (offset code : Nat)
  /-- A switch with an empty range or a negative number of cases. -/
  | malformedSwitch (offset : Nat)
  /-- A branch to a byte that starts no instruction. -/
  | invalidOffset (offset : Nat) (target : Int)
  /-- The operands of `invokeinterface` disagree with the descriptor. -/
  | invalidInterfaceCall (offset count expected : Nat)
  /-- An exception table entry with a byte offset that bounds no instruction. -/
  | invalidExceptionOffset (entry pc : Nat)
  /-- A constant that is missing or of another kind. -/
  | missingConstant (offset index : Nat) (expected : String)
  | invalidJumpTarget (index target : Nat)
  /-- An exception range that is empty or leaves the code. -/
  | invalidExceptionRange (entry start stop : Nat)
  | invalidHandlerTarget (entry handler : Nat)
  /-- A local variable, or the second half of one, beyond the limit. -/
  | localOutOfRange (index slot maxLocals : Nat)
  | argumentsExceedLocals (required maxLocals : Nat)
  /-- The last instruction may go on past the end. -/
  | fallsOffEnd (index : Nat)
  | subroutine (index : Nat)
deriving DecidableEq, Repr

namespace CodeFault

def instruction : CodeFault → Option Nat
  | .invalidJumpTarget index _ => some index
  | .localOutOfRange index _ _ => some index
  | .fallsOffEnd index => some index
  | .subroutine index => some index
  | .invalidExceptionRange _ start _ => some start
  | _ => none

def name : CodeFault → String
  | .emptyCode => "EmptyCode"
  | .truncatedCode _ => "TruncatedCode"
  | .unknownOpcode _ _ => "UnknownOpcode"
  | .invalidWideOpcode _ _ => "InvalidWideOpcode"
  | .invalidArrayType _ _ => "InvalidArrayType"
  | .malformedSwitch _ => "MalformedSwitch"
  | .invalidOffset _ _ => "InvalidOffset"
  | .invalidInterfaceCall _ _ _ => "InvalidInterfaceCall"
  | .invalidExceptionOffset _ _ => "InvalidExceptionOffset"
  | .missingConstant _ _ _ => "MissingConstant"
  | .invalidJumpTarget _ _ => "InvalidJumpTarget"
  | .invalidExceptionRange _ _ _ => "InvalidExceptionRange"
  | .invalidHandlerTarget _ _ => "InvalidHandlerTarget"
  | .localOutOfRange _ _ _ => "LocalOutOfRange"
  | .argumentsExceedLocals _ _ => "ArgumentsExceedLocals"
  | .fallsOffEnd _ => "FallsOffEnd"
  | .subroutine _ => "Subroutine"

def fields : CodeFault → List (String × String)
  | .emptyCode => []
  | .truncatedCode offset => [("offset", inspect offset)]
  | .unknownOpcode offset opcode => [("offset", inspect offset), ("opcode", inspect opcode)]
  | .invalidWideOpcode offset opcode => [("offset", inspect offset), ("opcode", inspect opcode)]
  | .invalidArrayType offset code => [("offset", inspect offset), ("atype", inspect code)]
  | .malformedSwitch offset => [("offset", inspect offset)]
  | .invalidOffset offset target => [("offset", inspect offset), ("target", inspect target)]
  | .invalidInterfaceCall offset count expected =>
    [("offset", inspect offset), ("count", inspect count), ("expected", inspect expected)]
  | .invalidExceptionOffset entry pc => [("entry", inspect entry), ("pc", inspect pc)]
  | .missingConstant offset index expected =>
    [("offset", inspect offset), ("index", inspect index), ("expected", inspect expected)]
  | .invalidJumpTarget index target => [("index", inspect index), ("target", inspect target)]
  | .invalidExceptionRange entry start stop =>
    [("entry", inspect entry), ("start", inspect start), ("end", inspect stop)]
  | .invalidHandlerTarget entry handler =>
    [("entry", inspect entry), ("handler", inspect handler)]
  | .localOutOfRange index slot maxLocals =>
    [("index", inspect index), ("local", inspect slot), ("max_locals", inspect maxLocals)]
  | .argumentsExceedLocals required maxLocals =>
    [("required", inspect required), ("max_locals", inspect maxLocals)]
  | .fallsOffEnd index => [("index", inspect index)]
  | .subroutine index => [("index", inspect index)]

instance : Inspect CodeFault where
  inspect f := if f.fields.isEmpty then f.name else Text.braced f.name f.fields

def message : CodeFault → String
  | .emptyCode => "Method has no instructions"
  | .truncatedCode offset => s!"Code ends in the middle of the instruction at offset {offset}"
  | .unknownOpcode offset opcode =>
    "Unknown opcode 0x" ++ Text.hexByte opcode ++ s!" at offset {offset}"
  | .invalidWideOpcode offset opcode =>
    "Opcode 0x" ++ Text.hexByte opcode ++ s!" at offset {offset} cannot be widened"
  | .invalidArrayType offset code => s!"Invalid `newarray` type {code} at offset {offset}"
  | .malformedSwitch offset => s!"Malformed switch at offset {offset}"
  | .invalidOffset offset target =>
    s!"Offset {target} (referenced at offset {offset}) is not the start of an instruction"
  | .invalidInterfaceCall offset count expected =>
    s!"`invokeinterface` at offset {offset} has count {count} but its arguments need {expected}"
  | .invalidExceptionOffset entry pc =>
    s!"Exception handler #{entry} refers to offset {pc}, which is not the start of an instruction"
  | .missingConstant offset index expected =>
    s!"Constant #{index} (referenced at offset {offset}) is not a {expected}"
  | .invalidJumpTarget index target =>
    s!"Instruction {index} jumps to nonexistent instruction {target}"
  | .invalidExceptionRange entry start stop =>
    s!"Exception handler #{entry} has an invalid range [{start}, {stop})"
  | .invalidHandlerTarget entry handler =>
    s!"Exception handler #{entry} starts at nonexistent instruction {handler}"
  | .localOutOfRange index slot maxLocals =>
    s!"Instruction {index} uses local {slot} but max locals is {maxLocals}"
  | .argumentsExceedLocals required maxLocals =>
    s!"Arguments need {required} locals but max locals is {maxLocals}"
  | .fallsOffEnd index => s!"Execution falls off the end of the code after instruction {index}"
  | .subroutine index => s!"Instruction {index} is a subroutine (`jsr`/`ret`)"

end CodeFault

/-- Faults in the types of values. -/
inductive TypeFault where
  | emptyStack
  | stackOverflow (maxStack : Nat)
  | invalidWidth (width : Nat)
  | notArray (found : VType)
  | notReference (found : VType)
  | notThrowable (found : VType)
  | unsetLocal (slot : Nat)
  | incompatible (found expected : VType)
  /-- Stack values of different paths that have no common type. -/
  | incompatibleMerge (slot : Nat) (left right : VType)
  /-- Stacks of different paths that differ in height. -/
  | mismatchedHeights (left right : Nat)
  /-- A constructor called on what it cannot initialise. -/
  | wrongConstructor (owner : RefType) (found : VType)
  /-- A `new` met again while its last result is uninitialized. -/
  | staleUninitialized (origin : Nat)
  /-- A `new` of an array type. -/
  | notClass (r : RefType)
  | invalidDimensions (dims : Nat)
  /-- An interface call of a class method, or the other way round. -/
  | interfaceMismatch
  | returnMismatch (expected : Option FieldType)
  /-- A constructor that returns before it called another one. -/
  | returnBeforeInit
deriving DecidableEq

namespace TypeFault

def name : TypeFault → String
  | .emptyStack => "EmptyStack"
  | .stackOverflow _ => "StackOverflow"
  | .invalidWidth _ => "InvalidWidth"
  | .notArray _ => "NotArrayType"
  | .notReference _ => "NotReferenceType"
  | .notThrowable _ => "NotThrowable"
  | .unsetLocal _ => "UnsetLocal"
  | .incompatible _ _ => "IncompatibleTypes"
  | .incompatibleMerge _ _ _ => "IncompatibleMerge"
  | .mismatchedHeights _ _ => "MismatchedStackHeights"
  | .wrongConstructor _ _ => "WrongConstructor"
  | .staleUninitialized _ => "StaleUninitialized"
  | .notClass _ => "NotClassType"
  | .invalidDimensions _ => "InvalidDimensions"
  | .interfaceMismatch => "InterfaceMismatch"
  | .returnMismatch _ => "ReturnTypeMismatch"
  | .returnBeforeInit => "ReturnBeforeSuperInit"

instance : Inspect TypeFault where
  inspect f :=
    match f with
    | .emptyStack | .interfaceMismatch | .returnBeforeInit => f.name
    | .stackOverflow maxStack => Text.braced f.name [("max_stack", inspect maxStack)]
    | .invalidWidth width => Text.applied f.name [inspect width]
    | .notArray found | .notReference found | .notThrowable found =>
      Text.applied f.name [inspect found]
    | .unsetLocal slot => Text.applied f.name [inspect slot]
    | .incompatible found expected =>
      Text.braced f.name [("found", inspect found), ("expected", inspect expected)]
    | .incompatibleMerge slot left right =>
      Text.braced f.name
        [("slot", inspect slot), ("left", inspect left), ("right", inspect right)]
    | .mismatchedHeights left right =>
      Text.braced f.name [("left", inspect left), ("right", inspect right)]
    | .wrongConstructor owner found =>
      Text.braced f.name [("owner", inspect owner), ("found", inspect found)]
    | .staleUninitialized origin => Text.applied f.name [inspect origin]
    | .notClass r => Text.applied f.name [inspect r]
    | .invalidDimensions dims => Text.applied f.name [inspect dims]
    | .returnMismatch expected => Text.braced f.name [("expected", inspect expected)]

def message : TypeFault → String
  | .emptyStack => "Cannot pop from an empty stack"
  | .stackOverflow maxStack => s!"Stack exceeds max stack of {maxStack}"
  | .invalidWidth width => s!"Unexpected value of width {width}"
  | .notArray found => "Expected an array but found " ++ found.render
  | .notReference found => "Expected a reference but found " ++ found.render
  | .notThrowable found => "Expected a throwable but found " ++ found.render
  | .unsetLocal slot => s!"Local {slot} is not set"
  | .incompatible found expected => "Expected " ++ expected.render ++ " but found " ++ found.render
  | .incompatibleMerge slot left right =>
    "Cannot merge " ++ left.render ++ " with " ++ right.render ++ s!" in stack slot {slot}"
  | .mismatchedHeights left right =>
    s!"Cannot merge stacks of different heights ({left} and {right})"
  | .wrongConstructor owner found =>
    "Cannot call " ++ owner.render ++ ".<init> on " ++ found.render
  | .staleUninitialized origin => s!"Value created by `new` at {origin} is still uninitialized"
  | .notClass r => "Cannot use `new` on " ++ r.render
  | .invalidDimensions dims => s!"Invalid number of array dimensions {dims}"
  | .interfaceMismatch => "Invoke instruction does not match interface-ness of the method"
  | .returnMismatch none => "Method returns void"
  | .returnMismatch (some expected) => "Method returns " ++ expected.render
  | .returnBeforeInit => "Constructor returns before `this` is initialized"

end TypeFault

/-- A block by its number, as texts show it. -/
def blockText (block : Nat) : String := Text.applied "BlockId" [inspect block]

/-- Faults of the analysis itself. -/
inductive InternalFault where
  /-- A block was queued without a frame. -/
  | unvisitedBlock (block : Nat)
  /-- No fixed point within the ceiling. -/
  | iterationLimit (limit : Nat)
  /-- A local variable outside the frame. -/
  | localOutOfRange (slot maxLocals : Nat)
  | emptyBlock (block : Nat)
  /-- A subroutine instruction was to be interpreted. -/
  | unexpectedSubroutine
deriving DecidableEq, Repr

namespace InternalFault

def name : InternalFault → String
  | .unvisitedBlock _ => "UnvisitedBlockQueued"
  | .iterationLimit _ => "IterationLimit"
  | .localOutOfRange _ _ => "LocalOutOfRange"
  | .emptyBlock _ => "EmptyBlock"
  | .unexpectedSubroutine => "UnexpectedSubroutine"

instance : Inspect InternalFault where
  inspect f :=
    match f with
    | .unvisitedBlock block | .emptyBlock block => Text.applied f.name [blockText block]
    | .iterationLimit limit => Text.braced f.name [("limit", inspect limit)]
    | .localOutOfRange slot maxLocals =>
      Text.braced f.name [("local", inspect slot), ("max_locals", inspect maxLocals)]
    | .unexpectedSubroutine => f.name

def message : InternalFault → String
  | .unvisitedBlock block => "Block " ++ blockText block ++ " was queued without a frame"
  | .iterationLimit limit => s!"No fixed point after {limit} iterations"
  | .localOutOfRange slot maxLocals =>
    s!"Local {slot} is outside of the {maxLocals} locals of the frame"
  | .emptyBlock block => "Block " ++ blockText block ++ " is empty"
  | .unexpectedSubroutine => "Cannot interpret a subroutine"

end InternalFault

inductive StepFault where
  | type (f : TypeFault)
  | internal (f : InternalFault)
deriving DecidableEq

inductive AnalysisFault where
  | structural (f : CodeFault)
  | type (index : Nat) (f : TypeFault)
  | internal (index : Option Nat) (f : InternalFault)
deriving DecidableEq

namespace AnalysisFault

def kind : AnalysisFault → String
  | .structural _ => "Structural"
  | .type _ _ => "Type"
  | .internal _ _ => "Internal"

def causeName : AnalysisFault → String
  | .structural f => f.name
  | .type _ f => f.name
  | .internal _ f => f.name

/-- The text of the cause, without a position. -/
def causeMessage : AnalysisFault → String
  | .structural f => f.message
  | .type _ f => f.message
  | .internal _ f => f.message

def instruction : AnalysisFault → Option Nat
  | .structural f => f.instruction
  | .type index _ => some index
  | .internal index _ => index

def message : AnalysisFault → String
  | .type index f => s!"Instruction {index}: " ++ f.message
  | .internal (some index) f => s!"Instruction {index}: " ++ f.message
  | .internal none f => f.message
  | .structural f => f.message

def ofStep (index : Nat) : StepFault → AnalysisFault
  | .type f => .type index f
  | .internal f => .internal (some index) f

instance : Inspect AnalysisFault where
  inspect
    | .structural f => Text.applied "Structural" [inspect f]
    | .type index f => Text.braced "Type" [("index", inspect index), ("kind", inspect f)]
    | .internal index f =>
      Text.braced "Internal" [("index", inspect index), ("fault", inspect f)]

end AnalysisFault

/-- Why a method is rejected, with the source line of the instruction at fault. -/
structure Failure where
  cause : AnalysisFault
  line : Option Nat
deriving DecidableEq

namespace Failure

def instruction (f : Failure) : Option Nat := f.cause.instruction

/-- The text for the user. A fault of the method gives the line, or else the instruction, and then
the cause; a fault of the analysis says so. -/
def message (f : Failure) : String :=
  match f.cause with
  | .internal _ fault => "Verifier crashed: (" ++ fault.name ++ ") " ++ fault.message
  | cause =>
    let place :=
      match f.line, cause.instruction with
      | some line, _ => s!" on line: {line}"
      | none, some index => s!" at instruction: {index}"
      | none, none => ""
    "Verification failed" ++ place ++ "\n" ++ cause.causeMessage

end Failure

end Bytecheck
