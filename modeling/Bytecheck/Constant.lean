import Bytecheck.Decimal.Shortest
import Bytecheck.Descriptor.Basic

/-!
# Constants

Constants that code refers to by index: references to members, loadable values, and the table that
holds them.
-/

namespace Bytecheck

structure FieldRef where
  owner : BinaryName
  name : UnqualifiedName
  type : FieldType
deriving DecidableEq

/-- A reference to a method. Its owner may be an array type, as for `clone`. -/
structure MethodRef where
  owner : RefType
  name : UnqualifiedName
  descriptor : MethodDescriptor
  /-- Whether the reference is to a method of an interface. -/
  onInterface : Bool
deriving DecidableEq

structure DynamicRef where
  bootstrap : Nat
  name : UnqualifiedName
  descriptor : MethodDescriptor
deriving DecidableEq

instance : Inspect FieldRef where
  inspect f := f.owner.text ++ "." ++ f.name.text ++ ":" ++ f.type.render

instance : Inspect MethodRef where
  inspect m := m.owner.constantText ++ "." ++ m.name.text ++ ":" ++ m.descriptor.render

instance : Inspect DynamicRef where
  inspect d := "[" ++ inspect d.bootstrap ++ "]" ++ d.name.text ++ ":" ++ d.descriptor.render

/-- A value that code can load. Floating-point values are kept by their bits. -/
inductive Constant where
  | string (s : String)
  | cls (r : RefType)
  | int (n : Int)
  | long (n : Int)
  | float (bits : UInt32)
  | double (bits : UInt64)
  | methodType (d : MethodDescriptor)
  | methodHandle (kind : Nat) (owner : BinaryName) (name : UnqualifiedName)
  | dynamic (name : UnqualifiedName) (type : FieldType)
deriving DecidableEq

instance : Width Constant where
  width
    | .long _ | .double _ => 2
    | .dynamic _ t => width t
    | _ => 1

instance : Inspect Constant where
  inspect
    | .string s => Text.applied "String" [inspect s]
    | .cls r => Text.applied "Class" [inspect r]
    | .int n => Text.applied "Integer" [inspect n]
    | .long n => Text.applied "Long" [inspect n]
    | .float bits => Text.applied "Float" [Decimal.single.text bits.toNat]
    | .double bits => Text.applied "Double" [Decimal.double.text bits.toNat]
    | .methodType d => Text.applied "MethodType" [inspect d]
    | .methodHandle kind owner name =>
      Text.braced "MethodHandle"
        [("kind", inspect kind), ("class", inspect owner), ("name", inspect name)]
    | .dynamic name t =>
      Text.braced "Dynamic" [("name", inspect name), ("descriptor", inspect t)]

/-- The operands that an instruction may ask for by index. -/
structure ConstantPool where
  cls? : Nat → Option RefType
  loadable? : Nat → Option Constant
  field? : Nat → Option FieldRef
  method? : Nat → Option MethodRef
  dynamic? : Nat → Option DynamicRef

inductive ConstantEntry where
  | cls (r : RefType)
  | loadable (c : Constant)
  | field (f : FieldRef)
  | method (m : MethodRef)
  | dynamic (d : DynamicRef)
deriving DecidableEq

instance : Inspect ConstantEntry where
  inspect
    | .cls r => Text.applied "Class" [inspect r]
    | .loadable c => Text.applied "Loadable" [inspect c]
    | .field f => Text.applied "Field" [inspect f]
    | .method m => Text.applied "Method" [inspect m]
    | .dynamic d => Text.applied "InvokeDynamic" [inspect d]

/-- Constants by index; an index occurs once. -/
structure ConstantTable where
  entries : List (Nat × ConstantEntry)

namespace ConstantTable

def empty : ConstantTable := ⟨[]⟩

instance : EmptyCollection ConstantTable := ⟨empty⟩
instance : Inhabited ConstantTable := ⟨empty⟩

def get? (t : ConstantTable) (index : Nat) : Option ConstantEntry := t.entries.lookup index

/-- Set the entry at an index, in place of the one that is there. -/
def insert (t : ConstantTable) (index : Nat) (e : ConstantEntry) : ConstantTable :=
  ⟨(index, e) :: t.entries.filter fun p => p.1 ≠ index⟩

/-- The last entry set at an index is the one found there. -/
theorem get?_insert (t : ConstantTable) (i j : Nat) (e : ConstantEntry) :
    (t.insert i e).get? j = if j = i then some e else t.get? j := by
  by_cases h : j = i
  · simp [get?, insert, h]
  · have hf : (t.entries.filter fun p => p.1 ≠ i).lookup j = t.entries.lookup j := by
      induction t.entries with
      | nil => rfl
      | cons p ps ih =>
        obtain ⟨k, v⟩ := p
        by_cases hk : k = i
        · have hj := beq_false_of_ne h
          simpa [List.filter_cons, List.lookup_cons, hk, hj] using ih
        · simp only [ne_eq, decide_not] at ih
          simp [List.lookup_cons, hk, ih]
    simpa [get?, insert, h, List.lookup_cons, beq_false_of_ne h] using hf

def size (t : ConstantTable) : Nat := t.entries.length

def cls? (t : ConstantTable) (index : Nat) : Option RefType :=
  match t.get? index with
  | some (.cls r) => some r
  | _ => none

/-- Classes can be loaded too. -/
def loadable? (t : ConstantTable) (index : Nat) : Option Constant :=
  match t.get? index with
  | some (.cls r) => some (.cls r)
  | some (.loadable c) => some c
  | _ => none

def field? (t : ConstantTable) (index : Nat) : Option FieldRef :=
  match t.get? index with
  | some (.field f) => some f
  | _ => none

def method? (t : ConstantTable) (index : Nat) : Option MethodRef :=
  match t.get? index with
  | some (.method m) => some m
  | _ => none

def dynamic? (t : ConstantTable) (index : Nat) : Option DynamicRef :=
  match t.get? index with
  | some (.dynamic d) => some d
  | _ => none

def pool (t : ConstantTable) : ConstantPool := ⟨t.cls?, t.loadable?, t.field?, t.method?, t.dynamic?⟩

end ConstantTable

end Bytecheck
