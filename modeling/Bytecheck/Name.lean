import Bytecheck.Text.Inspect

/-!
# Names

Names of members and of classes. A member's name is one nonempty part without reserved characters;
a class name is a sequence of such parts divided by slashes.
-/

namespace Bytecheck

inductive NameFault where
  | reservedCharacter (part : String)
  | emptyPart
  /-- The text of a class name is empty. -/
  | emptyName
deriving DecidableEq, Repr

def NameFault.message : NameFault → String
  | .reservedCharacter part => s!"Unqualified name '{part}' contains an illegal character"
  | .emptyPart => "Unqualified name '' is empty"
  | .emptyName => "Binary name '' is empty"

namespace UnqualifiedName

/-- The characters that divide names and descriptors. -/
def isReserved (c : Char) : Bool := c == '.' || c == ';' || c == '[' || c == '/'

/-- A legal part of a name: nonempty and free of reserved characters. -/
def isLegal (cs : List Char) : Bool := !cs.isEmpty && !cs.any isReserved

theorem isLegal_iff (cs : List Char) :
    isLegal cs = true ↔ cs ≠ [] ∧ ∀ c ∈ cs, isReserved c = false := by
  simp [isLegal]

/-- What is wrong with an illegal part; a reserved character is reported first. -/
def faultOf (cs : List Char) : NameFault :=
  if cs.any isReserved then .reservedCharacter (String.ofList cs) else .emptyPart

end UnqualifiedName

structure UnqualifiedName where
  text : String
  legal : UnqualifiedName.isLegal text.toList = true
deriving DecidableEq

namespace UnqualifiedName

def ofString (s : String) : Except NameFault UnqualifiedName :=
  if h : isLegal s.toList = true then .ok ⟨s, h⟩ else .error (faultOf s.toList)

def init : UnqualifiedName := ⟨"<init>", by decide +kernel⟩

instance : Inspect UnqualifiedName := ⟨text⟩

end UnqualifiedName

namespace BinaryName

/-- The parts between the slashes. -/
def parts : List Char → List (List Char)
  | [] => [[]]
  | c :: cs =>
    if c = '/' then [] :: parts cs
    else
      match parts cs with
      | [] => [[c]]
      | p :: ps => (c :: p) :: ps

/-- A legal class name: every part is legal. The empty text has one, empty, part. -/
def isLegal (cs : List Char) : Bool := (parts cs).all UnqualifiedName.isLegal

/-- What is wrong with an illegal class name: the fault of its first illegal part. -/
def faultOf (cs : List Char) : NameFault :=
  if cs.isEmpty then .emptyName
  else
    match (parts cs).find? fun p => !UnqualifiedName.isLegal p with
    | some p => UnqualifiedName.faultOf p
    | none => .emptyPart

end BinaryName

/-- The name of a class or interface, with slashes between its parts. -/
structure BinaryName where
  text : String
  legal : BinaryName.isLegal text.toList = true
deriving DecidableEq

namespace BinaryName

def ofString (s : String) : Except NameFault BinaryName :=
  if h : isLegal s.toList = true then .ok ⟨s, h⟩ else .error (faultOf s.toList)

instance : Inspect BinaryName := ⟨text⟩

/-- The root of every class hierarchy. -/
def object : BinaryName := ⟨"java/lang/Object", by decide +kernel⟩
def string : BinaryName := ⟨"java/lang/String", by decide +kernel⟩
/-- The class of class constants. -/
def classOfClass : BinaryName := ⟨"java/lang/Class", by decide +kernel⟩
def throwable : BinaryName := ⟨"java/lang/Throwable", by decide +kernel⟩
def cloneable : BinaryName := ⟨"java/lang/Cloneable", by decide +kernel⟩
def serializable : BinaryName := ⟨"java/io/Serializable", by decide +kernel⟩
def methodHandle : BinaryName := ⟨"java/lang/invoke/MethodHandle", by decide +kernel⟩
def methodType : BinaryName := ⟨"java/lang/invoke/MethodType", by decide +kernel⟩

end BinaryName

end Bytecheck
