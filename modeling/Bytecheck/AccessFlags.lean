import Bytecheck.Text.Inspect

/-!
# Access Flags

Access flags of classes and methods, as sets of bits. Bits without a name are dropped on reading.
-/

namespace Bytecheck

structure Flag where
  name : String
  bit : Nat

namespace Flag

/-- The bits that have a name. -/
def mask (flags : List Flag) : Nat := flags.foldl (fun m f => m ||| f.bit) 0

/-- The names of the bits that are set, in the order of the list. -/
def describe (flags : List Flag) (bits : Nat) : String :=
  match flags.filter fun f => bits &&& f.bit ≠ 0 with
  | [] => "(empty)"
  | set => " | ".intercalate (set.map Flag.name)

end Flag

structure ClassFlags where
  bits : Nat
deriving DecidableEq, Repr

namespace ClassFlags

def known : List Flag := [
  ⟨"PUBLIC", 0x0001⟩, ⟨"FINAL", 0x0010⟩, ⟨"SUPER", 0x0020⟩, ⟨"INTERFACE", 0x0200⟩,
  ⟨"ABSTRACT", 0x0400⟩, ⟨"SYNTHETIC", 0x1000⟩, ⟨"ANNOTATION", 0x2000⟩, ⟨"ENUM", 0x4000⟩,
  ⟨"MODULE", 0x8000⟩]

def ofBits (bits : Nat) : ClassFlags := ⟨bits &&& Flag.mask known⟩

def isInterface (f : ClassFlags) : Bool := f.bits &&& 0x0200 ≠ 0

instance : Inspect ClassFlags := ⟨fun f => Flag.describe known f.bits⟩

def ofClass : ClassFlags := ⟨0x0021⟩
def ofFinalClass : ClassFlags := ⟨0x0031⟩
def ofAbstractClass : ClassFlags := ⟨0x0421⟩
def ofInterface : ClassFlags := ⟨0x0601⟩

end ClassFlags

structure MethodFlags where
  bits : Nat
deriving DecidableEq, Repr

namespace MethodFlags

def known : List Flag := [
  ⟨"PUBLIC", 0x0001⟩, ⟨"PRIVATE", 0x0002⟩, ⟨"PROTECTED", 0x0004⟩, ⟨"STATIC", 0x0008⟩,
  ⟨"FINAL", 0x0010⟩, ⟨"SYNCHRONIZED", 0x0020⟩, ⟨"BRIDGE", 0x0040⟩, ⟨"VARARGS", 0x0080⟩,
  ⟨"NATIVE", 0x0100⟩, ⟨"ABSTRACT", 0x0400⟩, ⟨"STRICT", 0x0800⟩, ⟨"SYNTHETIC", 0x1000⟩]

def ofBits (bits : Nat) : MethodFlags := ⟨bits &&& Flag.mask known⟩

def isStatic (f : MethodFlags) : Bool := f.bits &&& 0x0008 ≠ 0

/-- A method that is not static takes its receiver as an argument. -/
def hasReceiver (f : MethodFlags) : Bool := !f.isStatic

instance : Inspect MethodFlags := ⟨fun f => Flag.describe known f.bits⟩

end MethodFlags

end Bytecheck
