import Mathlib.Tactic.Common
import Bytecheck.ClassTable.Library
import Bytecheck.Proofs.TypeOrder

/-!
The laws of the join.

Over a tree of classes the join is a least upper bound, so it is idempotent, commutative and
associative. On two classes it is read in terms of subtyping: it is the one class of which both are
subtypes and that is a subtype of every class of which both are subtypes. Interfaces are left out
of this, since a class may be a subtype of any number of them.
-/

namespace Bytecheck

variable {t : ClassTable}

namespace VType

variable {x y z : VType}

/-- What stands above a join stands above both sides, and the other way round. -/
lemma join_under_iff (hr : t.Rooted) :
    Under t (x.join t.hierarchy y) z ↔ Under t x z ∧ Under t y z := by
  obtain ⟨hleft, hright, hleast⟩ := join_isLeast hr x y
  exact ⟨fun h => ⟨hleft.trans hr h, hright.trans hr h⟩, fun h => hleast z h.1 h.2⟩

/-- Types with the same types above them are the same. -/
lemma eq_of_under_iff (hr : t.Rooted) (h : ∀ z, Under t x z ↔ Under t y z) : x = y :=
  Under.antisymm hr ((h y).2 (.refl y)) ((h x).1 (.refl x))

lemma join_comm (hr : t.Rooted) (x y : VType) :
    x.join t.hierarchy y = y.join t.hierarchy x := by
  refine eq_of_under_iff hr fun z => ?_
  rw [join_under_iff hr, join_under_iff hr, and_comm]

lemma join_assoc (hr : t.Rooted) (x y z : VType) :
    (x.join t.hierarchy y).join t.hierarchy z = x.join t.hierarchy (y.join t.hierarchy z) := by
  refine eq_of_under_iff hr fun w => ?_
  simp only [join_under_iff hr, and_assoc]

lemma join_self (h : Hierarchy) (x : VType) : x.join h x = x := if_pos rfl

lemma join_ofClass (h : Hierarchy) (a b : BinaryName) :
    (ofClass a).join h (ofClass b) = ofClass (h.joinClass a b) := by
  by_cases hab : a = b
  · have hself : h.joinClass b b = b := if_pos rfl
    rw [hab, join_self, hself]
  · exact if_neg (by simpa [ofClass] using hab)

end VType

namespace ClassTable

variable {a b c d : BinaryName}

/-- The nearest common superclass of two classes, in terms of subtyping: a class of which both are
subtypes, and a subtype of every class of which both are. -/
structure IsNearest (t : ClassTable) (a b c : BinaryName) : Prop where
  isClass : c = .object ∨ t.isInterface c = false
  left : t.isSubtype a c = true
  right : t.isSubtype b c = true
  least : ∀ u, t.isInterface u = false → t.isSubtype a u = true → t.isSubtype b u = true →
    t.isSubtype c u = true

/-- Between classes, subtyping is the order of the tree. The root class counts as one even if it is
recorded as an interface. -/
lemma Rooted.isSubtype_iff_under_of_class (hr : t.Rooted)
    (ha : a = .object ∨ t.isInterface a = false) (hc : c = .object ∨ t.isInterface c = false) :
    t.isSubtype a c = true ↔ t.Under a c := by
  rcases hc with rfl | hc
  · exact iff_of_true (isSubtype_object a) (under_object a)
  · rcases ha with rfl | ha
    · rw [isSubtype_iff hc]
      constructor
      · rintro (h | h)
        · exact Or.inl h
        · exact Or.inl (hr.eq_object_of_ancestor h)
      · exact fun h => Or.inl (hr.eq_object_of_under h)
    · exact (under_iff_isSubtype ha hc).symm

lemma Rooted.class_of_under (hr : t.Rooted) (ha : t.isInterface a = false) (h : t.Under a c) :
    c = .object ∨ t.isInterface c = false := by
  by_cases hc : c = .object
  · exact Or.inl hc
  · rcases h with h | rfl | ⟨-, h⟩
    · exact absurd h hc
    · exact Or.inr ha
    · exact Or.inr (hr.isInterface_of_ancestor ha h hc)

lemma Rooted.isNearest_joinClass (hr : t.Rooted) (ha : t.isInterface a = false)
    (hb : t.isInterface b = false) : t.IsNearest a b (t.hierarchy.joinClass a b) := by
  obtain ⟨hleft, hright, hleast⟩ := joinClass_isLeast hr a b
  have hclass := hr.class_of_under ha hleft
  refine ⟨hclass, (hr.isSubtype_iff_under_of_class (Or.inr ha) hclass).2 hleft,
    (hr.isSubtype_iff_under_of_class (Or.inr hb) hclass).2 hright, fun u hu hau hbu => ?_⟩
  rw [hr.isSubtype_iff_under_of_class hclass (Or.inr hu)]
  exact hleast u ((under_iff_isSubtype ha hu).2 hau) ((under_iff_isSubtype hb hu).2 hbu)

lemma IsNearest.under (hc : t.IsNearest a b c) (hd : t.IsNearest a b d) (hr : t.Rooted) :
    t.Under c d := by
  rw [← hr.isSubtype_iff_under_of_class hc.isClass hd.isClass]
  rcases hd.isClass with rfl | hclass
  · exact isSubtype_object c
  · exact hc.least d hclass hd.left hd.right

end ClassTable

/-- **The join is a semilattice operation**, and on two classes it finds their nearest common
superclass, of which there is only one. -/
theorem join_semilattice_nearest (hr : t.Rooted) :
    (∀ x y z : VType, (x.join t.hierarchy y).join t.hierarchy z =
        x.join t.hierarchy (y.join t.hierarchy z)) ∧
      (∀ x y : VType, x.join t.hierarchy y = y.join t.hierarchy x) ∧
      (∀ x : VType, x.join t.hierarchy x = x) ∧
      ∀ a b : BinaryName, t.isInterface a = false → t.isInterface b = false →
        ∃ c, (VType.ofClass a).join t.hierarchy (VType.ofClass b) = VType.ofClass c ∧
          t.IsNearest a b c ∧ ∀ d, t.IsNearest a b d → d = c := by
  refine ⟨VType.join_assoc hr, VType.join_comm hr, VType.join_self t.hierarchy, fun a b ha hb => ?_⟩
  have hnear := hr.isNearest_joinClass ha hb
  refine ⟨t.hierarchy.joinClass a b, VType.join_ofClass _ a b, hnear, fun d hd => ?_⟩
  exact hr.under_antisymm (hd.under hnear hr) (hnear.under hd hr)

namespace ClassTable.Library

/-- Two number classes that implement an interface, with the classes above them. -/
def numbers : ClassTable :=
  ⟨[root, ⟨comparable, some .object, [], .ofInterface⟩, ⟨number, some .object, [], .ofAbstractClass⟩,
    ⟨integer, some number, [comparable], .ofFinalClass⟩,
    ⟨long, some number, [comparable], .ofFinalClass⟩]⟩

/-- The number classes have one nearest common superclass, though both are comparable too. -/
theorem join_semilattice_nearest_numbers : numbers.Rooted ∧ numbers.isInterface integer = false ∧
    numbers.isInterface long = false ∧ numbers.isSubtype integer comparable = true ∧
    numbers.isSubtype long comparable = true ∧
    ∃ c, (VType.ofClass integer).join numbers.hierarchy (VType.ofClass long) = VType.ofClass c ∧
      numbers.IsNearest integer long c ∧ ∀ d, numbers.IsNearest integer long d → d = c := by
  have hr : numbers.Rooted := by decide +kernel
  have hinteger : numbers.isInterface integer = false := by decide +kernel
  have hlong : numbers.isInterface long = false := by decide +kernel
  exact ⟨hr, hinteger, hlong, by decide +kernel, by decide +kernel,
    (join_semilattice_nearest hr).2.2.2 integer long hinteger hlong⟩

end ClassTable.Library

end Bytecheck
