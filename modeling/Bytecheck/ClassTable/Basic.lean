import Bytecheck.AccessFlags
import Bytecheck.Log
import Bytecheck.Name
import Bytecheck.Reach

/-!
# Class Tables

What is recorded about classes, in the order of recording. A name is recorded once; a
second record of the same name changes nothing.
-/

namespace Bytecheck

structure ClassInfo where
  name : BinaryName
  /-- Only the root class has none. -/
  superclass : Option BinaryName
  /-- Interfaces implemented, or extended by an interface. -/
  interfaces : List BinaryName
  flags : ClassFlags
deriving DecidableEq

namespace ClassInfo

def isInterface (c : ClassInfo) : Bool := c.flags.isInterface

/-- Records are about the same class when they have the same name. -/
def sameClass (c d : ClassInfo) : Bool := c.name = d.name

instance : Inspect ClassInfo where
  inspect c :=
    let extended :=
      match c.superclass with
      | none => ""
      | some s => " extends " ++ inspect s
    let implemented :=
      if c.interfaces.isEmpty then ""
      else " implements" ++ String.join (c.interfaces.map fun i => " " ++ inspect i)
    inspect c.name ++ extended ++ implemented

def addNote (c : ClassInfo) : Log.Entry :=
  ⟨.trace, "Adding " ++ inspect c ++ " to the class graph"⟩

end ClassInfo

/-- Recorded classes, in the order of recording. -/
structure ClassTable where
  classes : List ClassInfo

namespace ClassTable

def empty : ClassTable := ⟨[]⟩

instance : EmptyCollection ClassTable := ⟨empty⟩
instance : Inhabited ClassTable := ⟨empty⟩

def find? (t : ClassTable) (name : BinaryName) : Option ClassInfo :=
  t.classes.find? fun c => c.name = name

/-- Record a class, unless its name is recorded already. -/
def add (t : ClassTable) (c : ClassInfo) : ClassTable :=
  match t.find? c.name with
  | some _ => t
  | none => ⟨t.classes ++ [c]⟩

/-- Recording a class leaves every other name as it was, and a recorded name too. -/
theorem find?_add (t : ClassTable) (c : ClassInfo) (name : BinaryName) :
    (t.add c).find? name = (t.find? name).or (if c.name = name then some c else none) := by
  unfold add
  split
  · rename_i d hd
    by_cases h : c.name = name
    · rw [← h, hd]; rfl
    · simp [h]
  · by_cases h : c.name = name <;> simp [find?, List.find?_append, h]

def addAll (t : ClassTable) (cs : List ClassInfo) : ClassTable := cs.foldl add t

def superclass (t : ClassTable) (name : BinaryName) : Option BinaryName :=
  (t.find? name).bind ClassInfo.superclass

def isInterface (t : ClassTable) (name : BinaryName) : Bool :=
  ((t.find? name).map ClassInfo.isInterface).getD false

def superLinks (t : ClassTable) (name : BinaryName) : List BinaryName := (t.superclass name).toList

def links (t : ClassTable) (name : BinaryName) : List BinaryName :=
  match t.find? name with
  | none => []
  | some c => c.superclass.toList ++ c.interfaces

/-- The links that the search for a supertype follows. Interfaces are left out unless it looks for
one. -/
def upLinks (t : ClassTable) (sup name : BinaryName) : List BinaryName :=
  if t.isInterface sup then t.links name else t.superLinks name

/-- All recorded superclasses and interfaces. -/
def supertypes (t : ClassTable) : List BinaryName :=
  t.classes.flatMap fun c => c.superclass.toList ++ c.interfaces

theorem mem_supertypes_of_links {t : ClassTable} {c d : BinaryName} (h : d ∈ t.links c) :
    d ∈ t.supertypes := by
  unfold links at h
  split at h
  · cases h
  · rename_i i hi
    exact List.mem_flatMap.2 ⟨i, List.mem_of_find?_eq_some hi, h⟩

theorem mem_links_of_superLinks {t : ClassTable} {c d : BinaryName} (h : d ∈ t.superLinks c) :
    d ∈ t.links c := by
  unfold superLinks superclass at h
  unfold links
  cases hi : t.find? c with
  | none => simp [hi] at h
  | some i =>
    rw [hi] at h
    exact List.mem_append_left _ h

theorem mem_supertypes_of_upLinks (t : ClassTable) (sup c : BinaryName) :
    ∀ d ∈ t.upLinks sup c, d ∈ t.supertypes := by
  intro d h
  unfold upLinks at h
  split at h
  · exact mem_supertypes_of_links h
  · exact mem_supertypes_of_links (mem_links_of_superLinks h)

/-- Whether the first class is a subtype of the second. Everything is a subtype of the root class. -/
def isSubtype (t : ClassTable) (sub sup : BinaryName) : Bool :=
  sub = sup || sup = .object ||
    Reach.explore (t.upLinks sup) t.supertypes (t.mem_supertypes_of_upLinks sup) sup [sub] [sub]

end ClassTable

end Bytecheck
