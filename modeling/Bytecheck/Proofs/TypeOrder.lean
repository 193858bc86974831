import Mathlib.Logic.Relation
import Mathlib.Tactic.Common
import Bytecheck.VType
import Bytecheck.Proofs.Ancestry

/-!
The order of verification types, and the join as its least upper bound.

References are ordered by the tree of classes: an array of objects stands under an array of a
class above, and every reference stands under the root class. `null` is below all references, and
`bottom`, the join of what has nothing in common, is above everything.
-/

namespace Bytecheck

open Relation

variable {t : ClassTable}

/-! ### Reference types -/

/-- The first reference type stands under the second. -/
inductive RefType.Under (t : ClassTable) : RefType → RefType → Prop
  | root (r : RefType) : Under t r (.object .object)
  | refl (r : RefType) : Under t r r
  | object {c d : BinaryName} : t.Under c d → Under t (.object c) (.object d)
  | array {c d : BinaryName} (extra : ℕ) :
      t.Under c d → Under t (.objectArray extra c) (.objectArray extra d)

namespace RefType

lemma under_object_iff {c d : BinaryName} :
    RefType.Under t (.object c) (.object d) ↔ t.Under c d := by
  constructor
  · intro h
    cases h with
    | root => exact ClassTable.under_object c
    | refl => exact ClassTable.Under.refl c
    | object h => exact h
  · exact Under.object

lemma Under.trans (hr : t.Rooted) {r s u : RefType} (h1 : Under t r s) (h2 : Under t s u) :
    Under t r u := by
  cases h1 with
  | refl => exact h2
  | root =>
    cases h2 with
    | root => exact .root r
    | refl => exact .root r
    | object h =>
      rw [hr.eq_object_of_under h]
      exact .root r
  | object h =>
    cases h2 with
    | root => exact .root _
    | refl => exact .object h
    | object h' => exact .object (hr.under_trans h h')
  | array n h =>
    cases h2 with
    | root => exact .root _
    | refl => exact .array n h
    | array _ h' => exact .array n (hr.under_trans h h')

lemma Under.antisymm (hr : t.Rooted) {r s : RefType} (h1 : Under t r s) (h2 : Under t s r) :
    r = s := by
  cases h1 with
  | refl => rfl
  | root =>
    cases h2 with
    | root => rfl
    | refl => rfl
    | object h => rw [hr.eq_object_of_under h]
  | object h => rw [hr.under_antisymm h (under_object_iff.1 h2)]
  | array n h =>
    cases h2 with
    | refl => rfl
    | array _ h' => rw [hr.under_antisymm h h']

/-- Two reference types with only the root above both. -/
lemma isLeast_root {r s : RefType} (hu : ∀ u, Under t r u → Under t s u → u = .object .object) :
    Under t r (.object .object) ∧ Under t s (.object .object) ∧
      ∀ u, Under t r u → Under t s u → Under t (.object .object) u := by
  refine ⟨.root r, .root s, fun u h1 h2 => ?_⟩
  rw [hu u h1 h2]
  exact .refl _

lemma joinRef_array_isLeast (hr : t.Rooted) (m n : ℕ) (c d : BinaryName) :
    Under t (.objectArray m c) (t.hierarchy.joinRef (.objectArray m c) (.objectArray n d)) ∧
      Under t (.objectArray n d) (t.hierarchy.joinRef (.objectArray m c) (.objectArray n d)) ∧
      ∀ u, Under t (.objectArray m c) u → Under t (.objectArray n d) u →
        Under t (t.hierarchy.joinRef (.objectArray m c) (.objectArray n d)) u := by
  by_cases hmn : m = n
  · subst hmn
    obtain ⟨h1, h2, h3⟩ := ClassTable.joinClass_isLeast hr c d
    have hj : t.hierarchy.joinRef (.objectArray m c) (.objectArray m d) =
        .objectArray m (t.hierarchy.joinClass c d) := if_pos rfl
    rw [hj]
    refine ⟨.array m h1, .array m h2, fun u hu1 hu2 => ?_⟩
    cases hu1 with
    | root => exact .root _
    | refl =>
      cases hu2 with
      | refl => exact .array m (h3 _ (ClassTable.Under.refl c) (ClassTable.Under.refl c))
      | array _ h' => exact .array m (h3 _ (ClassTable.Under.refl c) h')
    | array _ h =>
      cases hu2 with
      | refl => exact .array m (h3 _ h (ClassTable.Under.refl d))
      | array _ h' => exact .array m (h3 _ h h')
  · have hj : t.hierarchy.joinRef (.objectArray m c) (.objectArray n d) = .object .object :=
      if_neg hmn
    rw [hj]
    refine isLeast_root fun u h1 h2 => ?_
    cases h1 with
    | root => rfl
    | refl => cases h2 <;> exact absurd rfl hmn
    | array => cases h2 <;> exact absurd rfl hmn

/-- The join of two reference types is the least one above both. -/
lemma joinRef_isLeast (hr : t.Rooted) (r s : RefType) :
    Under t r (t.hierarchy.joinRef r s) ∧ Under t s (t.hierarchy.joinRef r s) ∧
      ∀ u, Under t r u → Under t s u → Under t (t.hierarchy.joinRef r s) u := by
  rcases r with c | ⟨m, c⟩ | ⟨m, b⟩ <;> rcases s with d | ⟨n, d⟩ | ⟨n, b'⟩
  case object.object =>
    obtain ⟨h1, h2, h3⟩ := ClassTable.joinClass_isLeast hr c d
    refine ⟨.object h1, .object h2, fun u hu1 hu2 => ?_⟩
    cases hu1 with
    | root => exact .root _
    | refl => exact .object (h3 _ (ClassTable.Under.refl c) (under_object_iff.1 hu2))
    | object h => exact .object (h3 _ h (under_object_iff.1 hu2))
  case objectArray.objectArray => exact joinRef_array_isLeast hr m n c d
  case primitiveArray.primitiveArray =>
    by_cases heq : RefType.primitiveArray m b = .primitiveArray n b'
    · have hj : t.hierarchy.joinRef (.primitiveArray m b) (.primitiveArray n b') =
          .primitiveArray m b := if_pos heq
      rw [hj, ← heq]
      exact ⟨.refl _, .refl _, fun u h _ => h⟩
    · have hj : t.hierarchy.joinRef (.primitiveArray m b) (.primitiveArray n b') =
          .object .object := if_neg heq
      rw [hj]
      refine isLeast_root fun u h1 h2 => ?_
      cases h1 with
      | root => rfl
      | refl =>
        cases h2
        exact absurd rfl heq
  -- types of different families
  all_goals exact isLeast_root fun u h1 h2 => by cases h1 <;> cases h2 <;> rfl

end RefType

/-! ### Verification types -/

/-- The first verification type stands under the second. -/
inductive VType.Under (t : ClassTable) : VType → VType → Prop
  | bottom (x : VType) : Under t x .bottom
  | refl (x : VType) : Under t x x
  | null (r : RefType) : Under t .null (.object r)
  | object {r s : RefType} : RefType.Under t r s → Under t (.object r) (.object s)

namespace VType

variable {x y z : VType}

lemma Under.trans (hr : t.Rooted) (h1 : Under t x y) (h2 : Under t y z) : Under t x z := by
  cases h1 with
  | refl => exact h2
  | bottom =>
    cases h2 with
    | bottom => exact .bottom x
    | refl => exact .bottom x
  | null r =>
    cases h2 with
    | bottom => exact .bottom _
    | refl => exact .null r
    | object h => exact .null _
  | object h =>
    cases h2 with
    | bottom => exact .bottom _
    | refl => exact .object h
    | object h' => exact .object (h.trans hr h')

lemma Under.antisymm (hr : t.Rooted) (h1 : Under t x y) (h2 : Under t y x) : x = y := by
  cases h1 with
  | refl => rfl
  | bottom => cases h2 <;> rfl
  | null => cases h2
  | object h =>
    cases h2 with
    | refl => rfl
    | object h' => rw [h.antisymm hr h']

/-- **The join** of two verification types is the least one above both. -/
lemma join_isLeast (hr : t.Rooted) (x y : VType) :
    Under t x (x.join t.hierarchy y) ∧ Under t y (x.join t.hierarchy y) ∧
      ∀ z, Under t x z → Under t y z → Under t (x.join t.hierarchy y) z := by
  by_cases heq : x = y
  · have hj : x.join t.hierarchy y = x := if_pos heq
    rw [hj, ← heq]
    exact ⟨.refl x, .refl x, fun z h _ => h⟩
  -- types without a common type: only `bottom` is above both
  have hbottom : (∀ z, Under t x z → Under t y z → z = .bottom) → x.join t.hierarchy y = .bottom →
      Under t x (x.join t.hierarchy y) ∧ Under t y (x.join t.hierarchy y) ∧
        ∀ z, Under t x z → Under t y z → Under t (x.join t.hierarchy y) z := by
    intro hz hj
    rw [hj]
    exact ⟨.bottom x, .bottom y, fun z h1 h2 => by rw [hz z h1 h2]; exact .refl _⟩
  by_cases hx : ∃ r, x = .object r
  · obtain ⟨r, rfl⟩ := hx
    by_cases hy : ∃ s, y = .object s
    · obtain ⟨s, rfl⟩ := hy
      have hj : (VType.object r).join t.hierarchy (.object s) = .object (t.hierarchy.joinRef r s) :=
        if_neg heq
      rw [hj]
      obtain ⟨h1, h2, h3⟩ := RefType.joinRef_isLeast hr r s
      refine ⟨.object h1, .object h2, fun z hz1 hz2 => ?_⟩
      cases hz1 with
      | bottom => exact .bottom _
      | refl =>
        cases hz2 with
        | refl => exact .object (h3 _ (.refl _) (.refl _))
        | object h => exact .object (h3 _ (.refl _) h)
      | object h =>
        cases hz2 with
        | refl => exact .object (h3 _ h (.refl _))
        | object h' => exact .object (h3 _ h h')
    · by_cases hnull : y = .null
      · subst hnull
        exact ⟨.refl _, .null r, fun z h _ => h⟩
      · refine hbottom (fun z h1 h2 => ?_) ?_
        · cases h2 with
          | bottom => rfl
          | refl => cases h1 <;> simp_all
          | null => simp at hnull
          | object => simp at hy
        · cases y <;> simp_all [join]
  · by_cases hnull : x = .null ∧ ∃ s, y = .object s
    · obtain ⟨rfl, s, rfl⟩ := hnull
      exact ⟨.null s, .refl _, fun z _ h => h⟩
    · refine hbottom (fun z h1 h2 => ?_) ?_
      · cases h1 with
        | bottom => rfl
        | refl => cases h2 <;> simp_all
        | null => cases h2 <;> simp_all
        | object => simp at hx
      · unfold join
        rw [if_neg heq]
        cases x with
        | object r => exact absurd ⟨r, rfl⟩ hx
        | null =>
          cases y with
          | object s => exact absurd ⟨rfl, s, rfl⟩ hnull
          | _ => rfl
        | _ => cases y <;> rfl

lemma under_iff_join_eq (hr : t.Rooted) : Under t x y ↔ y.join t.hierarchy x = y := by
  obtain ⟨h1, h2, h3⟩ := join_isLeast hr y x
  constructor
  · exact fun h => (h3 y (.refl y) h).antisymm hr h1
  · exact fun h => h ▸ h2

lemma join_eq_right (hr : t.Rooted) (h : Under t x y) : x.join t.hierarchy y = y := by
  obtain ⟨-, hright, hleast⟩ := join_isLeast hr x y
  exact (hleast y h (.refl y)).antisymm hr hright

end VType

end Bytecheck
