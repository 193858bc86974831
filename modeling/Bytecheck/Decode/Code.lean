import Bytecheck.Decode.Opcode
import Bytecheck.Method

/-!
# Code Arrays

Instructions are read one after another, then each branch label is turned from a
distance in bytes into the index of the instruction that starts there. The exception table is
brought to indices the same way. Offsets are kept in 32 bits, so those of code arrays that are
longer start again at zero.
-/

namespace Bytecheck

/-- Instructions with the offsets they were read at. -/
structure DecodedCode where
  instructions : List (Instruction Nat)
  offsets : List Nat
  length : Nat
deriving DecidableEq

/-- An entry of an exception table, in byte offsets. Catch type 0 stands for all exceptions. -/
structure RawHandler where
  startPc : Nat
  endPc : Nat
  handlerPc : Nat
  catchType : Nat
deriving DecidableEq, Repr

instance : Inspect RawHandler where
  inspect h :=
    Text.braced "RawExceptionHandler"
      [("start_pc", inspect h.startPc), ("end_pc", inspect h.endPc),
        ("handler_pc", inspect h.handlerPc), ("catch_type", inspect h.catchType)]

namespace Decode

/-- A number of bytes as it is kept, in 32 bits. -/
def word (n : Nat) : Nat := n % 4294967296

/-- The bytes between an opcode at an offset and the next multiple of four. -/
def padding (offset : Nat) : Nat := 3 - offset % 4

def instruction (pool : ConstantPool) (offset opcode : Nat) (bytes : List UInt8) :
    Except OpcodeFault (Relative × List UInt8) :=
  (body pool (padding offset) opcode).run .truncated bytes

/-- The instructions of the bytes from an offset on, each with its offset. These are exact: padding
goes by them. -/
def instructions (pool : ConstantPool) (offset : Nat) (bytes : List UInt8) :
    Except CodeFault (List (Nat × Relative)) :=
  match bytes with
  | [] => .ok []
  | opcode :: bytes =>
    match h : instruction pool offset opcode.toNat bytes with
    | .error f => .error (f.at (word offset))
    | .ok (i, rest) =>
      have : rest.length ≤ bytes.length := (Reader.suffix_of_run h).length_le
      let size := bytes.length - rest.length + 1
      (instructions pool (offset + size) rest).map ((offset, i) :: ·)
termination_by bytes.length

/-- Instructions with their offsets as these are kept. -/
def kept (read : List (Nat × Relative)) : List (Nat × Relative) :=
  read.map fun p => (word p.1, p.2)

/-- Where a binary search among `size` offsets from `base` on comes to rest. -/
def search (offsets : List Nat) (offset base size : Nat) : Nat :=
  if size ≤ 1 then base
  else
    let mid := base + size / 2
    if offset < offsets.getD mid 0 then search offsets offset base (size - size / 2)
    else search offsets offset mid (size - size / 2)
termination_by size

def indexOf? (offsets : List Nat) (offset : Nat) : Option Nat :=
  let index := search offsets offset 0 offsets.length
  if offsets[index]? = some offset then some index else none

/-- The index of the instruction that a distance from an offset leads to. -/
def resolve (offsets : List Nat) (offset : Nat) (distance : Int) : Except CodeFault Nat :=
  let target := (offset : Int) + distance
  match if target < 0 then none else indexOf? offsets target.toNat with
  | some index => .ok index
  | none => .error (.invalidOffset offset target)

def relabel (offsets : List Nat) (offset : Nat) : Relative → Except CodeFault (Instruction Nat)
  | .op o => .ok (.op o)
  | .branch b => (b.mapLabels (resolve offsets offset)).map .branch

end Decode

namespace DecodedCode

def ofBytes (pool : ConstantPool) (bytes : List UInt8) : Except CodeFault DecodedCode := do
  let read ← Decode.kept <$> Decode.instructions pool 0 bytes
  let offsets := read.map Prod.fst
  let instructions ← read.mapM fun p => Decode.relabel offsets p.1 p.2
  return ⟨instructions, offsets, Decode.word bytes.length⟩

def indexOf? (d : DecodedCode) (offset : Nat) : Option Nat := Decode.indexOf? d.offsets offset

/-- The index of the instruction at an offset, or the number of instructions for the end. -/
def boundaryOf? (d : DecodedCode) (offset : Nat) : Option Nat :=
  if offset = d.length then some d.instructions.length else d.indexOf? offset

def boundary (d : DecodedCode) (entry pc : Nat) : Except CodeFault Nat :=
  match d.boundaryOf? pc with
  | some index => .ok index
  | none => .error (.invalidExceptionOffset entry pc)

/-- The class that a catch type stands for; none catches everything. -/
def catchClass (pool : ConstantPool) (r : RawHandler) : Except CodeFault (Option BinaryName) :=
  if r.catchType = 0 then .ok none
  else
    match pool.cls? r.catchType with
    | some (.object c) => .ok (some c)
    | _ => .error (.missingConstant r.handlerPc r.catchType "class")

/-- An entry of the exception table in instruction indices; `entry` is its place in the table. -/
def handler (d : DecodedCode) (pool : ConstantPool) (entry : Nat) (r : RawHandler) :
    Except CodeFault Handler := do
  let catches ← catchClass pool r
  let start ← d.boundary entry r.startPc
  let stop ← d.boundary entry r.endPc
  let target ← d.boundary entry r.handlerPc
  return ⟨start, stop, target, catches⟩

def toCode (d : DecodedCode) (pool : ConstantPool) (maxStack maxLocals : Nat)
    (table : List RawHandler) : Except CodeFault Code := do
  let handlers ← table.zipIdx.mapM fun p => d.handler pool p.2 p.1
  return ⟨d.instructions, maxStack, maxLocals, handlers⟩

end DecodedCode

end Bytecheck
