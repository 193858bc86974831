import Bytecheck.Hierarchy

/-!
# Verification Types

Verification types: what is known about the value in a slot. They are ordered by a join. `bottom` is
the join of values that have nothing in common and absorbs everything; `top` is a slot that holds
nothing usable and joins only with itself.
-/

namespace Bytecheck

inductive VType where
  /-- Nothing usable: an unset slot, or the second half of a wide value. -/
  | top
  | int
  | float
  | double
  | long
  | null
  /-- The receiver of a constructor before another constructor was called on it. -/
  | uninitThis
  | object (r : RefType)
  /-- The result of the `new` at an instruction, before its constructor was called. -/
  | uninit (r : RefType) (origin : Nat)
  /-- Values that cannot be reconciled. -/
  | bottom
deriving DecidableEq

namespace VType

def isReference : VType → Bool
  | .null | .uninitThis | .object _ | .uninit _ _ => true
  | _ => false

instance : Width VType where
  width
    | .double | .long => 2
    | _ => 1

/-- The type of values of a field. Small integers are widened. -/
def ofField : FieldType → VType
  | .base .float => .float
  | .base .long => .long
  | .base .double => .double
  | .base _ => .int
  | .ref r => .object r

def ofClass (c : BinaryName) : VType := .object (.object c)

/-- A value of the first type may be used where the second is expected. -/
def isAssignable (h : Hierarchy) : VType → VType → Bool
  | .bottom, _ => false
  | _, .top => true
  | .null, .object _ => true
  | .object r, .object s => h.refAssignable r s
  | t, u => t = u

/-- The least common supertype, or `bottom`. -/
def join (h : Hierarchy) (t u : VType) : VType :=
  if t = u then t
  else
    match t, u with
    | .null, .object r => .object r
    | .object r, .null => .object r
    | .object r, .object s => .object (h.joinRef r s)
    | _, _ => .bottom

def joinNotes (h : Hierarchy) (t u : VType) : List Log.Entry :=
  if t = u then []
  else
    match t, u with
    | .object r, .object s => h.joinRefNotes r s
    | _, _ => []

/-- The uninitialized result of the `new` at the given instruction. -/
def isUninitFrom (origin : Nat) : VType → Bool
  | .uninit _ o => o = origin
  | _ => false

def render : VType → String
  | .top => "top"
  | .int => "I"
  | .float => "F"
  | .long => "J"
  | .double => "D"
  | .null => "null"
  | .uninitThis => "uninitialized this"
  | .object r => r.render
  | .uninit r origin => "uninitialized " ++ r.render ++ " (new at " ++ inspect origin ++ ")"
  | .bottom => "bottom"

instance : Inspect VType where
  inspect
    | .top => "Top"
    | .int => "Integer"
    | .float => "Float"
    | .double => "Double"
    | .long => "Long"
    | .null => "Null"
    | .uninitThis => "UninitializedThis"
    | .object r => Text.applied "Object" [inspect r]
    | .uninit r origin =>
      Text.applied "Uninitialized"
        [Text.braced "UninitializedRefType"
          [("verification_type", inspect r), ("origin", inspect origin)]]
    | .bottom => "Bottom"

end VType

end Bytecheck
