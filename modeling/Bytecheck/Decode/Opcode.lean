import Bytecheck.Decode.Reader
import Bytecheck.Fault
import Bytecheck.Instruction.Basic

/-!
# Opcodes and Operands

Instructions as bytes: an opcode and its operands. Branch labels are distances from the opcode.
Switches are padded, so a reader has to know how many bytes to skip.
-/

namespace Bytecheck.Decode

inductive OpcodeFault where
  | truncated
  | unknown (opcode : Nat)
  | invalidWide (opcode : Nat)
  | invalidArrayType (code : Nat)
  | malformedSwitch
  | invalidInterfaceCall (count expected : Nat)
  | missingConstant (index : Nat) (expected : String)
deriving DecidableEq, Repr

def OpcodeFault.at (offset : Nat) : OpcodeFault → CodeFault
  | .truncated => .truncatedCode offset
  | .unknown opcode => .unknownOpcode offset opcode
  | .invalidWide opcode => .invalidWideOpcode offset opcode
  | .invalidArrayType code => .invalidArrayType offset code
  | .malformedSwitch => .malformedSwitch offset
  | .invalidInterfaceCall count expected => .invalidInterfaceCall offset count expected
  | .missingConstant index expected => .missingConstant offset index expected

/-- Instructions whose labels are distances in bytes. -/
abbrev Relative := Instruction Int

abbrev Operand (α : Type) := Reader OpcodeFault α

/-- The kinds in the order of the opcodes. -/
def kinds : List Kind := [.num .int, .num .long, .num .float, .num .double, .ref]

def kindAt (n : Nat) : Kind := (kinds[n]?).getD .ref

/-- Operations without operands, by opcode. -/
def plainOps : List (Nat × Op) := [
  (0x00, .nop), (0x01, .aconstNull),
  (0x02, .calc (.iconst 0)), (0x03, .calc (.iconst 1)), (0x04, .calc (.iconst 2)),
  (0x05, .calc (.iconst 3)), (0x06, .calc (.iconst 4)), (0x07, .calc (.iconst 5)),
  (0x08, .calc (.iconst 6)), (0x09, .calc (.lconst 0)), (0x0a, .calc (.lconst 1)),
  (0x0b, .calc (.fconst 0)), (0x0c, .calc (.fconst 1)), (0x0d, .calc (.fconst 2)),
  (0x0e, .calc (.dconst 0)), (0x0f, .calc (.dconst 1)),
  (0x2e, .arrayLoad .int), (0x2f, .arrayLoad .long), (0x30, .arrayLoad .float),
  (0x31, .arrayLoad .double), (0x32, .arrayLoad .ref), (0x33, .arrayLoad .byte),
  (0x34, .arrayLoad .char), (0x35, .arrayLoad .short),
  (0x4f, .arrayStore .int), (0x50, .arrayStore .long), (0x51, .arrayStore .float),
  (0x52, .arrayStore .double), (0x53, .arrayStore .ref), (0x54, .arrayStore .byte),
  (0x55, .arrayStore .char), (0x56, .arrayStore .short),
  (0x57, .stack .pop), (0x58, .stack .pop2), (0x59, .stack .dup), (0x5a, .stack .dupX1),
  (0x5b, .stack .dupX2), (0x5c, .stack .dup2), (0x5d, .stack .dup2X1), (0x5e, .stack .dup2X2),
  (0x5f, .stack .swap),
  (0x60, .calc (.arith .add .int)), (0x61, .calc (.arith .add .long)),
  (0x62, .calc (.arith .add .float)), (0x63, .calc (.arith .add .double)),
  (0x64, .calc (.arith .sub .int)), (0x65, .calc (.arith .sub .long)),
  (0x66, .calc (.arith .sub .float)), (0x67, .calc (.arith .sub .double)),
  (0x68, .calc (.arith .mul .int)), (0x69, .calc (.arith .mul .long)),
  (0x6a, .calc (.arith .mul .float)), (0x6b, .calc (.arith .mul .double)),
  (0x6c, .calc (.arith .div .int)), (0x6d, .calc (.arith .div .long)),
  (0x6e, .calc (.arith .div .float)), (0x6f, .calc (.arith .div .double)),
  (0x70, .calc (.arith .rem .int)), (0x71, .calc (.arith .rem .long)),
  (0x72, .calc (.arith .rem .float)), (0x73, .calc (.arith .rem .double)),
  (0x74, .calc (.neg .int)), (0x75, .calc (.neg .long)), (0x76, .calc (.neg .float)),
  (0x77, .calc (.neg .double)),
  (0x78, .calc (.ishift .left)), (0x79, .calc (.lshift .left)),
  (0x7a, .calc (.ishift .arithmeticRight)), (0x7b, .calc (.lshift .arithmeticRight)),
  (0x7c, .calc (.ishift .logicalRight)), (0x7d, .calc (.lshift .logicalRight)),
  (0x7e, .calc (.ibits .and)), (0x7f, .calc (.lbits .and)), (0x80, .calc (.ibits .or)),
  (0x81, .calc (.lbits .or)), (0x82, .calc (.ibits .xor)), (0x83, .calc (.lbits .xor)),
  (0x85, .calc (.convert .i2l)), (0x86, .calc (.convert .i2f)), (0x87, .calc (.convert .i2d)),
  (0x88, .calc (.convert .l2i)), (0x89, .calc (.convert .l2f)), (0x8a, .calc (.convert .l2d)),
  (0x8b, .calc (.convert .f2i)), (0x8c, .calc (.convert .f2l)), (0x8d, .calc (.convert .f2d)),
  (0x8e, .calc (.convert .d2i)), (0x8f, .calc (.convert .d2l)), (0x90, .calc (.convert .d2f)),
  (0x91, .calc (.convert .i2b)), (0x92, .calc (.convert .i2c)), (0x93, .calc (.convert .i2s)),
  (0x94, .calc .lcmp), (0x95, .calc (.fcmp .less)), (0x96, .calc (.fcmp .greater)),
  (0x97, .calc (.dcmp .less)), (0x98, .calc (.dcmp .greater)),
  (0xbe, .arrayLength), (0xc2, .monitorEnter), (0xc3, .monitorExit)]

def plainBranches : List (Nat × Branch Int) := [
  (0xac, .leave (some (.num .int))), (0xad, .leave (some (.num .long))),
  (0xae, .leave (some (.num .float))), (0xaf, .leave (some (.num .double))),
  (0xb0, .leave (some .ref)), (0xb1, .leave none), (0xbf, .athrow)]

/-- The comparisons of `if` instructions in the order of the opcodes. -/
def orders : List Order := [.eq, .ne, .lt, .ge, .gt, .le]

def orderAt (n : Nat) : Order := (orders[n]?).getD .le

section Operands

variable (pool : ConstantPool)

def cls : Operand RefType := do
  let index ← Reader.u2
  .orFail (.missingConstant index "class") (pool.cls? index)

def loadable (index : Nat) : Operand Constant :=
  .orFail (.missingConstant index "loadable constant") (pool.loadable? index)

def field : Operand FieldRef := do
  let index ← Reader.u2
  .orFail (.missingConstant index "field reference") (pool.field? index)

def method : Operand MethodRef := do
  let index ← Reader.u2
  .orFail (.missingConstant index "method reference") (pool.method? index)

/-- An interface method, the number of its argument slots, and a zero. -/
def interfaceCall : Operand Op := do
  let m ← method pool
  let count ← Reader.u1
  let padding ← Reader.u1
  let expected := m.descriptor.argumentSlots true
  if count ≠ expected ∨ padding ≠ 0 then .fail (.invalidInterfaceCall count expected)
  else return .invoke (.interface count) m

/-- A call site and two bytes that say nothing. -/
def dynamicCall : Operand Op := do
  let index ← Reader.u2
  .skip 2
  let d ← .orFail (.missingConstant index "invokedynamic") (pool.dynamic? index)
  return .invokeDynamic d

/-- A fallback, the bounds of the range, and a label for each number in it. -/
def tableSwitch (padding : Nat) : Operand (Branch Int) := do
  .skip padding
  let fallback ← Reader.s4
  let low ← Reader.s4
  let high ← Reader.s4
  if high < low then .fail .malformedSwitch
  else
    let targets ← Reader.times Reader.s4 (high - low + 1).toNat
    return .tableSwitch fallback low targets

def switchCase : Operand (Int × Int) := do
  let key ← Reader.s4
  let target ← Reader.s4
  return (key, target)

/-- A fallback, a number of cases, and the cases. -/
def lookupSwitch (padding : Nat) : Operand (Branch Int) := do
  .skip padding
  let fallback ← Reader.s4
  let count ← Reader.s4
  if count < 0 then .fail .malformedSwitch
  else
    let cases ← Reader.times switchCase count.toNat
    return .lookupSwitch fallback cases

/-- An operation on locals with two-byte operands. -/
def wide : Operand Relative := do
  let opcode ← Reader.u1
  if 0x15 ≤ opcode ∧ opcode ≤ 0x19 then
    return .op (.load (kindAt (opcode - 0x15)) (← Reader.u2))
  else if 0x36 ≤ opcode ∧ opcode ≤ 0x3a then
    return .op (.store (kindAt (opcode - 0x36)) (← Reader.u2))
  else if opcode = 0x84 then
    let slot ← Reader.u2
    return .op (.iinc slot (← Reader.s2))
  else if opcode = 0xa9 then return .branch (.ret (← Reader.u2))
  else .fail (.invalidWide opcode)

/-- What follows an opcode that has operands. -/
def operands (padding opcode : Nat) : Operand Relative :=
  match opcode with
  | 0x10 => return .op (.calc (.bipush (← Reader.s1)))
  | 0x11 => return .op (.calc (.sipush (← Reader.s2)))
  | 0x12 => return .op (.ldc (← loadable pool (← Reader.u1)))
  | 0x13 => return .op (.ldc (← loadable pool (← Reader.u2)))
  | 0x14 => return .op (.ldc2 (← loadable pool (← Reader.u2)))
  | 0x84 => do
    let slot ← Reader.u1
    return .op (.iinc slot (← Reader.s1))
  | 0xa5 => return .branch (.ifRef .eq (← Reader.s2))
  | 0xa6 => return .branch (.ifRef .ne (← Reader.s2))
  | 0xa7 => return .branch (.goto (← Reader.s2))
  | 0xa8 => return .branch (.jsr (← Reader.s2))
  | 0xa9 => return .branch (.ret (← Reader.u1))
  | 0xaa => return .branch (← tableSwitch padding)
  | 0xab => return .branch (← lookupSwitch padding)
  | 0xb2 => return .op (.getStatic (← field pool))
  | 0xb3 => return .op (.putStatic (← field pool))
  | 0xb4 => return .op (.getField (← field pool))
  | 0xb5 => return .op (.putField (← field pool))
  | 0xb6 => return .op (.invoke .virtual (← method pool))
  | 0xb7 => return .op (.invoke .special (← method pool))
  | 0xb8 => return .op (.invoke .static (← method pool))
  | 0xb9 => return .op (← interfaceCall pool)
  | 0xba => return .op (← dynamicCall pool)
  | 0xbb => return .op (.new (← cls pool))
  | 0xbc => do
    let code ← Reader.u1
    return .op (.newArray (← .orFail (.invalidArrayType code) (BaseType.ofArrayCode? code)))
  | 0xbd => return .op (.anewArray (← cls pool))
  | 0xc0 => return .op (.checkCast (← cls pool))
  | 0xc1 => return .op (.instanceOf (← cls pool))
  | 0xc4 => wide
  | 0xc5 => do
    let r ← cls pool
    return .op (.multiANewArray r (← Reader.u1))
  | 0xc6 => return .branch (.ifNull .eq (← Reader.s2))
  | 0xc7 => return .branch (.ifNull .ne (← Reader.s2))
  | 0xc8 => return .branch (.goto (← Reader.s4))
  | 0xc9 => return .branch (.jsr (← Reader.s4))
  | _ => .fail (.unknown opcode)

/-- What follows an opcode. Loads and stores of the first locals have opcodes of their own. -/
def body (padding opcode : Nat) : Operand Relative :=
  match plainOps.lookup opcode, plainBranches.lookup opcode with
  | some o, _ => return .op o
  | none, some b => return .branch b
  | none, none =>
    if 0x15 ≤ opcode ∧ opcode ≤ 0x19 then
      return .op (.load (kindAt (opcode - 0x15)) (← Reader.u1))
    else if 0x1a ≤ opcode ∧ opcode ≤ 0x2d then
      return .op (.load (kindAt ((opcode - 0x1a) / 4)) ((opcode - 0x1a) % 4))
    else if 0x36 ≤ opcode ∧ opcode ≤ 0x3a then
      return .op (.store (kindAt (opcode - 0x36)) (← Reader.u1))
    else if 0x3b ≤ opcode ∧ opcode ≤ 0x4e then
      return .op (.store (kindAt ((opcode - 0x3b) / 4)) ((opcode - 0x3b) % 4))
    else if 0x99 ≤ opcode ∧ opcode ≤ 0x9e then
      return .branch (.ifZero (orderAt (opcode - 0x99)) (← Reader.s2))
    else if 0x9f ≤ opcode ∧ opcode ≤ 0xa4 then
      return .branch (.ifInt (orderAt (opcode - 0x9f)) (← Reader.s2))
    else operands pool padding opcode

end Operands

end Bytecheck.Decode
