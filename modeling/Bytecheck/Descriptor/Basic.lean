import Bytecheck.Name
import Bytecheck.SlotVec

/-!
# Descriptors

Types as descriptors write them: primitive types, references to classes and arrays, field types and
method signatures, with the text each of them is written as.
-/

namespace Bytecheck

inductive BaseType where
  | byte | char | double | float | int | long | short | boolean
deriving DecidableEq, Repr

namespace BaseType

def letter : BaseType → Char
  | .byte => 'B'
  | .char => 'C'
  | .double => 'D'
  | .float => 'F'
  | .int => 'I'
  | .long => 'J'
  | .short => 'S'
  | .boolean => 'Z'

def ofLetter? : Char → Option BaseType
  | 'B' => some .byte
  | 'C' => some .char
  | 'D' => some .double
  | 'F' => some .float
  | 'I' => some .int
  | 'J' => some .long
  | 'S' => some .short
  | 'Z' => some .boolean
  | _ => none

/-- The element type that the operand of `newarray` stands for. -/
def ofArrayCode? : Nat → Option BaseType
  | 4 => some .boolean
  | 5 => some .char
  | 6 => some .float
  | 7 => some .double
  | 8 => some .byte
  | 9 => some .short
  | 10 => some .int
  | 11 => some .long
  | _ => none

instance : Width BaseType where
  width
    | .double | .long => 2
    | _ => 1

instance : Inspect BaseType where
  inspect
    | .byte => "Byte"
    | .char => "Char"
    | .double => "Double"
    | .float => "Float"
    | .int => "Int"
    | .long => "Long"
    | .short => "Short"
    | .boolean => "Boolean"

def spell (b : BaseType) : List Char := [b.letter]

def render (b : BaseType) : String := String.ofList b.spell

end BaseType

def BinaryName.spell (c : BinaryName) : List Char := 'L' :: c.text.toList ++ [';']

def BinaryName.render (c : BinaryName) : String := String.ofList c.spell

/-- Reference types. An array has one dimension more than `extra` says. -/
inductive RefType where
  | object (cls : BinaryName)
  | objectArray (extra : Nat) (cls : BinaryName)
  | primitiveArray (extra : Nat) (base : BaseType)
deriving DecidableEq

inductive FieldType where
  | base (b : BaseType)
  | ref (r : RefType)
deriving DecidableEq

namespace RefType

/-- Number of array dimensions; none for a class. -/
def dimensions : RefType → Nat
  | .object _ => 0
  | .objectArray extra _ => extra + 1
  | .primitiveArray extra _ => extra + 1

def isArray : RefType → Bool
  | .object _ => false
  | _ => true

def arrayOf : FieldType → RefType
  | .base b => .primitiveArray 0 b
  | .ref (.object c) => .objectArray 0 c
  | .ref (.objectArray extra c) => .objectArray (extra + 1) c
  | .ref (.primitiveArray extra b) => .primitiveArray (extra + 1) b

/-- The type of the elements of an array type. -/
def element? : RefType → Option FieldType
  | .object _ => none
  | .objectArray 0 c => some (.ref (.object c))
  | .objectArray (extra + 1) c => some (.ref (.objectArray extra c))
  | .primitiveArray 0 b => some (.base b)
  | .primitiveArray (extra + 1) b => some (.ref (.primitiveArray extra b))

@[simp] theorem element?_arrayOf (t : FieldType) : (arrayOf t).element? = some t := by
  rcases t with b | (c | ⟨n, c⟩ | ⟨n, b⟩) <;> rfl

def spell : RefType → List Char
  | .object c => c.spell
  | .objectArray extra c => List.replicate (extra + 1) '[' ++ c.spell
  | .primitiveArray extra b => List.replicate (extra + 1) '[' ++ b.spell

def render (r : RefType) : String := String.ofList r.spell

/-- The text a class constant has for the type: a class goes by its name, an array by its
descriptor. -/
def constantText : RefType → String
  | .object c => c.text
  | r => r.render

private def arrayText (extra element : String) : String :=
  Text.braced "ArrayType" [("additional_dimensions", extra), ("element_type", element)]

instance : Inspect RefType where
  inspect
    | .object c => Text.applied "Object" [inspect c]
    | .objectArray extra c => Text.applied "ObjectArray" [arrayText (inspect extra) (inspect c)]
    | .primitiveArray extra b =>
      Text.applied "PrimitiveArray" [arrayText (inspect extra) (inspect b)]

end RefType

namespace FieldType

instance : Width FieldType where
  width
    | .base b => width b
    | .ref _ => 1

def spell : FieldType → List Char
  | .base b => b.spell
  | .ref r => r.spell

def render (t : FieldType) : String := String.ofList t.spell

instance : Inspect FieldType where
  inspect
    | .base b => Text.applied "Base" [inspect b]
    | .ref r => Text.applied "Ref" [inspect r]

end FieldType

/-- The signature of a method; without a return type it is `void`. -/
structure MethodDescriptor where
  parameters : List FieldType
  returns : Option FieldType
deriving DecidableEq

namespace MethodDescriptor

/-- Slots taken by the parameters, and by the receiver if there is one. -/
def argumentSlots (d : MethodDescriptor) (receiver : Bool) : Nat :=
  (if receiver then 1 else 0) + d.parameters.foldr (fun t n => width t + n) 0

def spell (d : MethodDescriptor) : List Char :=
  '(' :: d.parameters.flatMap FieldType.spell ++ ')' ::
    match d.returns with
    | none => ['V']
    | some t => t.spell

def render (d : MethodDescriptor) : String := String.ofList d.spell

instance : Inspect MethodDescriptor where
  inspect d :=
    Text.braced "MethodDescriptor"
      [("parameters", inspect d.parameters), ("return_type", inspect d.returns)]

end MethodDescriptor

end Bytecheck
