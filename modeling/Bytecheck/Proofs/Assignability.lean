import Mathlib.Logic.Relation
import Mathlib.Tactic.Common
import Bytecheck.VType
import Bytecheck.Proofs.Subtyping

/-!
Assignability of references.

The rule for arrays compares numbers of dimensions. It is the rule that goes down from both arrays
to their elements until one of them is no array: on the way the two lose their dimensions together,
so the difference decides.

A class table only grows, and what may be assigned grows with it. A class that is added may turn out
to be an interface, and then it is searched for in another way; the new search follows the
superclass links too, so it finds what the old one found.
-/

namespace Bytecheck

/-! ### Arrays by their elements -/

namespace RefType

variable {r s : RefType}

lemma element?_eq_some_iff {f : FieldType} : r.element? = some f ↔ r = arrayOf f := by
  constructor
  · intro h
    rcases r with c | ⟨_ | n, c⟩ | ⟨_ | n, b⟩ <;> cases h <;> rfl
  · rintro rfl
    exact element?_arrayOf f

/-- What is no class is an array of something. -/
lemma exists_eq_arrayOf (h : ∀ c, r ≠ .object c) : ∃ f, r = arrayOf f := by
  cases hr : r.element? with
  | some f => exact ⟨f, element?_eq_some_iff.1 hr⟩
  | none =>
    rcases r with c | ⟨_ | n, c⟩ | ⟨_ | n, b⟩
    · exact absurd rfl (h c)
    all_goals cases hr

lemma dimensions_lt_of_element? (h : r.element? = some (.ref s)) : s.dimensions < r.dimensions := by
  rw [element?_eq_some_iff.1 h]
  cases s <;> exact Nat.lt_succ_self _

end RefType

namespace Hierarchy

open RefType (arrayOf element?_eq_some_iff exists_eq_arrayOf)

/-- A reference of the first type may be used as the second, by the rule that goes down through the
elements of arrays. -/
def assignableByElements (h : Hierarchy) : RefType → RefType → Bool
  | .object c, .object d => h.classAssignable c d
  | .object _, _ => false
  | _, .object d => d = .object || d = .cloneable || d = .serializable
  | r, s =>
    match _hr : r.element?, s.element? with
    | some (.base b), some (.base c) => b = c
    | some (.ref r'), some (.ref s') => h.assignableByElements r' s'
    | _, _ => false
termination_by r => r.dimensions
decreasing_by exact RefType.dimensions_lt_of_element? ‹_›

variable (h : Hierarchy)

lemma refAssignable_arrayOf_base (b c : BaseType) :
    h.refAssignable (arrayOf (.base b)) (arrayOf (.base c)) = decide (b = c) := by
  simp [arrayOf, refAssignable]

/-- Arrays of references are compared as their elements are. -/
lemma refAssignable_arrayOf_ref (r s : RefType) :
    h.refAssignable (arrayOf (.ref r)) (arrayOf (.ref s)) = h.refAssignable r s := by
  rcases r with c | ⟨m, c⟩ | ⟨m, b⟩ <;> rcases s with d | ⟨n, d⟩ | ⟨n, b'⟩ <;>
    simp [arrayOf, refAssignable]

lemma refAssignable_arrayOf_mixed (b : BaseType) (r : RefType) :
    h.refAssignable (arrayOf (.base b)) (arrayOf (.ref r)) = false ∧
      h.refAssignable (arrayOf (.ref r)) (arrayOf (.base b)) = false := by
  rcases r with c | ⟨m, c⟩ | ⟨m, b'⟩ <;> simp [arrayOf, refAssignable]

/-- **The comparison of dimensions is the rule for elements.** -/
theorem refAssignable_eq_byElements (r s : RefType) :
    h.refAssignable r s = h.assignableByElements r s := by
  fun_induction assignableByElements h r s with
  | case1 c d => rfl
  | case2 c s hs =>
    obtain ⟨g, rfl⟩ := exists_eq_arrayOf hs
    rcases g with b | (d | ⟨n, d⟩ | ⟨n, b⟩) <;> rfl
  | case3 r d hr =>
    obtain ⟨f, rfl⟩ := exists_eq_arrayOf hr
    rcases f with b | (c | ⟨m, c⟩ | ⟨m, b⟩) <;> rfl
  | case4 r s _ _ _ b c hr hs =>
    rw [element?_eq_some_iff.1 hr, element?_eq_some_iff.1 hs]
    exact h.refAssignable_arrayOf_base b c
  | case5 r s _ _ _ r' s' hr hs ih =>
    rw [element?_eq_some_iff.1 hr, element?_eq_some_iff.1 hs, ← ih]
    exact h.refAssignable_arrayOf_ref r' s'
  | case6 r s _ hr hs hbase href =>
    -- both are arrays, and only one of them has primitive elements
    obtain ⟨f, rfl⟩ := exists_eq_arrayOf hr
    obtain ⟨g, rfl⟩ := exists_eq_arrayOf hs
    rcases f with b | r' <;> rcases g with c | s'
    · exact (hbase b c (by simp) (by simp)).elim
    · exact (h.refAssignable_arrayOf_mixed b s').1
    · exact (h.refAssignable_arrayOf_mixed c r').2
    · exact (href r' s' (by simp) (by simp)).elim

end Hierarchy

/-! ### Tables that grow -/

/-- References are compared through their classes: a hierarchy that lets more classes be assigned
lets more references be assigned. -/
lemma Hierarchy.refAssignable_mono {h h' : Hierarchy}
    (hc : ∀ c d, h.classAssignable c d = true → h'.classAssignable c d = true) {r s : RefType}
    (hrs : h.refAssignable r s = true) : h'.refAssignable r s = true := by
  rcases r with c | ⟨m, c⟩ | ⟨m, b⟩ <;> rcases s with d | ⟨n, d⟩ | ⟨n, b'⟩
  case object.object => exact hc c d hrs
  case objectArray.objectArray =>
    simp only [refAssignable] at hrs ⊢
    split_ifs at hrs ⊢
    · exact hc c d hrs
    · exact hrs
  -- no class is compared with a class
  all_goals exact hrs

lemma VType.isAssignable_mono {h h' : Hierarchy}
    (hc : ∀ c d, h.classAssignable c d = true → h'.classAssignable c d = true) {x y : VType}
    (hxy : x.isAssignable h y = true) : x.isAssignable h' y = true := by
  cases x <;> cases y
  case object.object r s => exact Hierarchy.refAssignable_mono hc hxy
  all_goals exact hxy

namespace ClassTable

open Relation

/-- What is found in the first table is found in the second. -/
def GrowsTo (t t' : ClassTable) : Prop := ∀ c i, t.find? c = some i → t'.find? c = some i

lemma growsTo_add (t : ClassTable) (i : ClassInfo) : t.GrowsTo (t.add i) := by
  intro c j hj
  rw [find?_add, hj, Option.some_or]

namespace GrowsTo

variable {t t' : ClassTable} {c d : BinaryName}

lemma isInterface (hg : t.GrowsTo t') (hc : t.isInterface c = true) : t'.isInterface c = true := by
  obtain ⟨i, hi, hint⟩ := exists_of_isInterface hc
  exact (isInterface_of_find? (hg c i hi)).trans hint

lemma extends_of_extends (hg : t.GrowsTo t') (hcd : t.Extends c d) : t'.Extends c d := by
  obtain ⟨i, hi, hd⟩ := Option.bind_eq_some_iff.1 hcd
  exact (superclass_of_find? (hg c i hi)).trans hd

lemma inherits (hg : t.GrowsTo t') (hcd : t.Inherits c d) : t'.Inherits c d := by
  obtain ⟨i, hi, hd⟩ := hcd
  exact ⟨i, hg c i hi, hd⟩

lemma isSubtype (hg : t.GrowsTo t') (hcd : t.isSubtype c d = true) : t'.isSubtype c d = true := by
  rcases cases_of_isSubtype hcd with rfl | hanc | ⟨hd, hinh⟩
  · exact isSubtype_object c
  · -- `d` may be an interface in the larger table only
    exact Ancestor.isSubtype (ReflTransGen.mono (fun _ _ => hg.extends_of_extends) c d hanc)
  · exact isSubtype_of_inherits (hg.isInterface hd)
      (ReflTransGen.mono (fun _ _ => hg.inherits) c d hinh)

lemma classAssignable (hg : t.GrowsTo t') (c d : BinaryName)
    (hcd : t.hierarchy.classAssignable c d = true) : t'.hierarchy.classAssignable c d = true := by
  simp only [Hierarchy.classAssignable, hierarchy, Bool.or_eq_true, decide_eq_true_eq] at hcd ⊢
  rcases hcd with (hcd | hd) | hcd
  · exact Or.inl (Or.inl hcd)
  · exact Or.inl (Or.inr (hg.isInterface hd))
  · exact Or.inr (hg.isSubtype hcd)

end GrowsTo

/-- **Adding a class takes nothing away**: records stay as they are, and what may be assigned may
still be assigned, whatever the new record says about its name. -/
theorem assignable_of_add (t : ClassTable) (i : ClassInfo) :
    (∀ c j, t.find? c = some j → (t.add i).find? c = some j) ∧
      (∀ c d, t.isSubtype c d = true → (t.add i).isSubtype c d = true) ∧
      (∀ r s, t.hierarchy.refAssignable r s = true →
        (t.add i).hierarchy.refAssignable r s = true) ∧
      ∀ x y : VType, x.isAssignable t.hierarchy y = true →
        x.isAssignable (t.add i).hierarchy y = true := by
  have hg := growsTo_add t i
  exact ⟨hg, fun c d => hg.isSubtype, fun r s => Hierarchy.refAssignable_mono hg.classAssignable,
    fun x y => VType.isAssignable_mono hg.classAssignable⟩

namespace Rings

def ring : BinaryName := ⟨"p/Ring", by decide +kernel⟩

def hoop : BinaryName := ⟨"p/Hoop", by decide +kernel⟩

/-- A class under one that is not recorded. -/
def rings : ClassTable := ⟨[⟨ring, some hoop, [], .ofClass⟩]⟩

/-- The record that makes the other one an interface, and the links a cycle. -/
def closing : ClassInfo := ⟨hoop, some ring, [], .ofInterface⟩

/-- The superclass turns out to be an interface, and it stays a supertype. A second record of the
class does not replace the first. -/
theorem assignable_of_add_closing :
    rings.isInterface hoop = false ∧ (rings.add closing).isInterface hoop = true ∧
      rings.isSubtype ring hoop = true ∧ (rings.add closing).isSubtype ring hoop = true ∧
      rings.hierarchy.refAssignable (.objectArray 1 ring) (.objectArray 1 hoop) = true ∧
      (rings.add closing).hierarchy.refAssignable (.objectArray 1 ring) (.objectArray 1 hoop) =
        true ∧
      (VType.ofClass ring).isAssignable rings.hierarchy (.ofClass hoop) = true ∧
      (VType.ofClass ring).isAssignable (rings.add ⟨ring, none, [], .ofClass⟩).hierarchy
        (.ofClass hoop) = true := by
  obtain ⟨-, hsub, href, -⟩ := assignable_of_add rings closing
  obtain ⟨-, -, -, hval⟩ := assignable_of_add rings ⟨ring, none, [], .ofClass⟩
  have h1 : rings.isSubtype ring hoop = true := by decide +kernel
  have h2 : rings.hierarchy.refAssignable (.objectArray 1 ring) (.objectArray 1 hoop) = true := by
    decide +kernel
  have h3 : (VType.ofClass ring).isAssignable rings.hierarchy (.ofClass hoop) = true := by
    decide +kernel
  exact ⟨by decide +kernel, by decide +kernel, h1, hsub ring hoop h1, h2, href _ _ h2, h3,
    hval _ _ h3⟩

end Rings

end ClassTable

end Bytecheck
