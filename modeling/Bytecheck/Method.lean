import Bytecheck.AccessFlags
import Bytecheck.Instruction.Text

/-!
# Methods

A method in its class, its code, and the exception table that belongs to the code.
-/

namespace Bytecheck

structure Method where
  owner : BinaryName
  name : UnqualifiedName
  descriptor : MethodDescriptor
  flags : MethodFlags
deriving DecidableEq

namespace Method

def isConstructor (m : Method) : Bool := m.name = .init

def hasReceiver (m : Method) : Bool := m.flags.hasReceiver

/-- The constructors that have to call another constructor: those of all classes but the root. -/
def mustInitialize (m : Method) : Bool := m.isConstructor && m.owner ≠ .object

end Method

/-- An entry of an exception table, in instruction indices. -/
structure Handler where
  /-- The first instruction covered. -/
  start : Nat
  /-- The first instruction after those covered. -/
  stop : Nat
  /-- Where handling begins. -/
  entry : Nat
  /-- The class of exceptions caught, or all. -/
  catches : Option BinaryName
deriving DecidableEq

namespace Handler

def covers (h : Handler) (index : Nat) : Bool := h.start ≤ index && index < h.stop

instance : Inspect Handler where
  inspect h :=
    Text.braced "ExceptionHandler"
      [("start", inspect h.start), ("end", inspect h.stop), ("handler", inspect h.entry),
        ("catch_type", inspect h.catches)]

end Handler

/-- The code of a method. Branches and handlers refer to instructions by position. -/
structure Code where
  instructions : List (Instruction Nat)
  /-- Slots of the operand stack. -/
  maxStack : Nat
  /-- Slots of local variables. -/
  maxLocals : Nat
  /-- The exception table; earlier entries have precedence. -/
  handlers : List Handler

namespace Code

def size (c : Code) : Nat := c.instructions.length

end Code

end Bytecheck
