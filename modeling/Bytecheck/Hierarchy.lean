import Bytecheck.ClassTable.Basic
import Bytecheck.Descriptor.Basic

/-!
# Subtyping

Queries about classes, and the subtyping of reference types on top of them. Verification sees classes
only through these queries; a class table answers them.
-/

namespace Bytecheck

/-- What verification may ask about classes. -/
structure Hierarchy where
  superclass : BinaryName → Option BinaryName
  isInterface : BinaryName → Bool
  isSubtype : BinaryName → BinaryName → Bool
  /-- How many classes are known: no superclass chain without repetition is longer. -/
  span : Nat

def ClassTable.hierarchy (t : ClassTable) : Hierarchy where
  superclass := t.superclass
  isInterface := t.isInterface
  isSubtype := t.isSubtype
  span := t.classes.length

namespace Hierarchy

/-- A value of the first class may be used as the second. Interfaces are left to run time: every
class may be used as every interface. -/
def classAssignable (h : Hierarchy) (sub sup : BinaryName) : Bool :=
  sub = sup || h.isInterface sup || h.isSubtype sub sup

/-- The classes that every array is a subtype of. -/
def arrayAssignable (sup : BinaryName) : Bool :=
  sup = .object || sup = .cloneable || sup = .serializable

/-- A reference of the first type may be used as the second. -/
def refAssignable (h : Hierarchy) : RefType → RefType → Bool
  | .object c, .object d => h.classAssignable c d
  | .object _, _ => false
  | _, .object d => arrayAssignable d
  | .primitiveArray m b, .primitiveArray n c => m = n && b = c
  | .primitiveArray m _, .objectArray n d => n < m && arrayAssignable d
  | .objectArray m c, .objectArray n d =>
    if m = n then h.classAssignable c d else n < m && arrayAssignable d
  | .objectArray _ _, .primitiveArray _ _ => false

/-- Where the walk up a superclass chain ends. -/
inductive Climb where
  /-- At a class that has the wanted subtype. -/
  | found (c : BinaryName)
  /-- At a class without a superclass. -/
  | top
  /-- At a class that the walk has passed before. -/
  | cycle (c : BinaryName)
deriving DecidableEq

/-- Walk up a superclass chain, from `c` on, to the first class of which `sub` is a subtype. -/
def climb (h : Hierarchy) (sub : BinaryName) : Nat → List BinaryName → Option BinaryName → Climb
  | _, _, none => .top
  | 0, _, some _ => .top
  | n + 1, passed, some c =>
    if c ∈ passed then .cycle c
    else if h.isSubtype sub c then .found c
    else climb h sub n (c :: passed) (h.superclass c)

def climbFrom (h : Hierarchy) (c sub : BinaryName) : Climb :=
  h.climb sub (h.span + 1) [c] (h.superclass c)

/-- Two classes that neither are equal, nor are interfaces, nor are subtypes of one another: only
they need a walk. -/
def unrelated (h : Hierarchy) (c d : BinaryName) : Bool :=
  c ≠ d && !h.isInterface c && !h.isInterface d && !h.isSubtype c d && !h.isSubtype d c

/-- The nearest common superclass. Interfaces take no part: with one, the join is the root class. A
superclass chain that closes on itself also ends at the root class. -/
def joinClass (h : Hierarchy) (c d : BinaryName) : BinaryName :=
  if c = d then c
  else if h.isInterface c || h.isInterface d then .object
  else if h.isSubtype c d then d
  else if h.isSubtype d c then c
  else
    match h.climbFrom c d with
    | .found e => e
    | _ => .object

/-- The log records of joining two classes: a warning when the walk meets a cycle. -/
def joinClassNotes (h : Hierarchy) (c d : BinaryName) : List Log.Entry :=
  if h.unrelated c d then
    match h.climbFrom c d with
    | .cycle e => [⟨.warn, "Cyclic superclass chain through " ++ inspect e⟩]
    | _ => []
  else []

/-- The common supertype of two reference types. Object arrays of one dimension join by their
elements; other arrays that differ join to the root class. -/
def joinRef (h : Hierarchy) : RefType → RefType → RefType
  | .object c, .object d => .object (h.joinClass c d)
  | .objectArray m c, .objectArray n d =>
    if m = n then .objectArray m (h.joinClass c d) else .object .object
  | r, s => if r = s then r else .object .object

def joinRefNotes (h : Hierarchy) : RefType → RefType → List Log.Entry
  | .object c, .object d => h.joinClassNotes c d
  | .objectArray m c, .objectArray n d => if m = n then h.joinClassNotes c d else []
  | _, _ => []

end Hierarchy

end Bytecheck
