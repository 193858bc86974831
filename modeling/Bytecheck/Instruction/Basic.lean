import Bytecheck.Constant

/-!
# Instructions

Instructions with their operands resolved. Operations go on with the next instruction; branches may
go elsewhere. The label type of a branch is a distance in bytes while decoding and an instruction
index afterwards.
-/

namespace Bytecheck

/-- The numeric kinds that values are computed in. -/
inductive Num where
  | int | long | float | double
deriving DecidableEq, Repr

/-- The kinds of values that variables hold. -/
inductive Kind where
  | num (n : Num)
  | ref
deriving DecidableEq, Repr

/-- The kinds of array elements that array instructions tell apart; bytes stand for booleans too. -/
inductive ElementKind where
  | int | long | float | double | ref | byte | char | short
deriving DecidableEq, Repr

inductive Arith where
  | add | sub | mul | div | rem
deriving DecidableEq, Repr

inductive Bitwise where
  | and | or | xor
deriving DecidableEq, Repr

inductive Shift where
  | left | logicalRight | arithmeticRight
deriving DecidableEq, Repr

/-- The result of comparing with a value that is not a number: below or above. -/
inductive NanOrder where
  | less | greater
deriving DecidableEq, Repr

inductive Conversion where
  | i2l | i2f | i2d | l2i | l2f | l2d | f2i | f2l | f2d | d2i | d2l | d2f | i2b | i2c | i2s
deriving DecidableEq, Repr

/-- Computations: operations whose operands and result have fixed numeric kinds. -/
inductive Calc where
  /-- The constants from minus one on. -/
  | iconst (n : Fin 7)
  | lconst (n : Fin 2)
  | fconst (n : Fin 3)
  | dconst (n : Fin 2)
  | bipush (n : Int)
  | sipush (n : Int)
  | arith (f : Arith) (n : Num)
  | neg (n : Num)
  | ishift (s : Shift)
  | lshift (s : Shift)
  | ibits (b : Bitwise)
  | lbits (b : Bitwise)
  | convert (c : Conversion)
  | lcmp
  | fcmp (o : NanOrder)
  | dcmp (o : NanOrder)
deriving DecidableEq, Repr

/-- Operations that only move values on the operand stack. -/
inductive StackOp where
  | pop | pop2 | dup | dupX1 | dupX2 | dup2 | dup2X1 | dup2X2 | swap
deriving DecidableEq, Repr

/-- The ways to call a method. -/
inductive InvokeKind where
  | virtual
  | special
  | static
  /-- The operand counts the argument slots with the receiver. -/
  | interface (count : Nat)
deriving DecidableEq, Repr

/-- Operations: instructions that go on with the next one. -/
inductive Op where
  | nop
  | aconstNull
  | calc (c : Calc)
  /-- Load a constant of one slot. -/
  | ldc (c : Constant)
  /-- Load a constant of two slots. -/
  | ldc2 (c : Constant)
  | load (k : Kind) (slot : Nat)
  | store (k : Kind) (slot : Nat)
  | arrayLoad (k : ElementKind)
  | arrayStore (k : ElementKind)
  | stack (s : StackOp)
  | iinc (slot : Nat) (delta : Int)
  | getStatic (f : FieldRef)
  | putStatic (f : FieldRef)
  | getField (f : FieldRef)
  | putField (f : FieldRef)
  | invoke (k : InvokeKind) (m : MethodRef)
  | invokeDynamic (d : DynamicRef)
  | new (r : RefType)
  | newArray (b : BaseType)
  | anewArray (r : RefType)
  | multiANewArray (r : RefType) (dims : Nat)
  | arrayLength
  | checkCast (r : RefType)
  | instanceOf (r : RefType)
  | monitorEnter
  | monitorExit
deriving DecidableEq

namespace Num

instance : Width Num where
  width
    | .long | .double => 2
    | _ => 1

end Num

namespace Kind

instance : Width Kind where
  width
    | .num n => width n
    | .ref => 1

end Kind

namespace Op

/-- The local variable an operation uses, with the number of slots. -/
def localAccess : Op → Option (Nat × Nat)
  | .load k slot => some (slot, width k)
  | .store k slot => some (slot, width k)
  | .iinc slot _ => some (slot, 1)
  | _ => none

def writesLocal : Op → Bool
  | .store _ _ => true
  | .iinc _ _ => true
  | _ => false

end Op

inductive Order where
  | eq | ge | gt | le | lt | ne
deriving DecidableEq, Repr

inductive Equality where
  | eq | ne
deriving DecidableEq, Repr

/-- Branches: instructions that may go elsewhere, or end the method. -/
inductive Branch (L : Type) where
  | ifZero (c : Order) (target : L)
  | ifInt (c : Order) (target : L)
  | ifRef (c : Equality) (target : L)
  | ifNull (c : Equality) (target : L)
  | goto (target : L)
  | tableSwitch (fallback : L) (low : Int) (targets : List L)
  | lookupSwitch (fallback : L) (cases : List (Int × L))
  /-- Return with a value of a kind, or without a value. -/
  | leave (k : Option Kind)
  | athrow
  /-- Call of a subroutine; recognized, never verified. -/
  | jsr (target : L)
  | ret (slot : Nat)
deriving DecidableEq

namespace Branch

variable {L M : Type} {ε : Type}

/-- Whether the next instruction may follow. -/
def fallsThrough : Branch L → Bool
  | .ifZero _ _ | .ifInt _ _ | .ifRef _ _ | .ifNull _ _ | .jsr _ => true
  | _ => false

/-- The labels a branch may go to; a switch has its fallback first. -/
def targets : Branch L → List L
  | .ifZero _ t | .ifInt _ t | .ifRef _ t | .ifNull _ t | .goto t | .jsr t => [t]
  | .tableSwitch fallback _ ts => fallback :: ts
  | .lookupSwitch fallback cases => fallback :: cases.map Prod.snd
  | .leave _ | .athrow | .ret _ => []

def isSubroutine : Branch L → Bool
  | .jsr _ | .ret _ => true
  | _ => false

/-- Replace the labels from left to right; the first that has no replacement decides. -/
def mapLabels (f : L → Except ε M) : Branch L → Except ε (Branch M)
  | .ifZero c t => return .ifZero c (← f t)
  | .ifInt c t => return .ifInt c (← f t)
  | .ifRef c t => return .ifRef c (← f t)
  | .ifNull c t => return .ifNull c (← f t)
  | .goto t => return .goto (← f t)
  | .tableSwitch fallback low ts => return .tableSwitch (← f fallback) low (← ts.mapM f)
  | .lookupSwitch fallback cases => do
    let fallback ← f fallback
    return .lookupSwitch fallback (← cases.mapM fun c => return (c.1, ← f c.2))
  | .leave k => return .leave k
  | .athrow => return .athrow
  | .jsr t => return .jsr (← f t)
  | .ret slot => return .ret slot

end Branch

inductive Instruction (L : Type) where
  | op (o : Op)
  | branch (b : Branch L)
deriving DecidableEq

namespace Instruction

variable {L : Type}

def fallsThrough : Instruction L → Bool
  | .op _ => true
  | .branch b => b.fallsThrough

def isBranch : Instruction L → Bool
  | .op _ => false
  | .branch _ => true

def targets : Instruction L → List L
  | .op _ => []
  | .branch b => b.targets

def writesLocal : Instruction L → Bool
  | .op o => o.writesLocal
  | .branch _ => false

end Instruction

end Bytecheck
