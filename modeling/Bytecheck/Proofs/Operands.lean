import Mathlib.Data.List.Forall2
import Mathlib.Tactic.Common
import Bytecheck.Proofs.FrameRelation
import Bytecheck.Proofs.SlotLists

/-!
Values taken from the operand stack.

Every instruction takes its operands one value at a time, the top one first. `Pops` says which
values were taken and what is left, and each way to take operands is characterised by the values
that it takes. A stack that is a pile of values gives up the values on top of the pile.
-/

namespace Bytecheck

lemma length_le_slots (l : List VType) : l.length ≤ slots l := by
  induction l with
  | nil => exact Nat.le_refl _
  | cons x l ih =>
    have hpos : 1 ≤ width x := by rcases Frame.width_two_or_one x with h | h <;> omega
    rw [slots_cons, List.length_cons]
    omega

namespace Stack

variable {s s' : Stack} {x t : VType} {vs ws : List VType}

/-- The values are taken from the stack one after the other, the top one first. -/
inductive Pops : Stack → List VType → Stack → Prop
  | nil (s : Stack) : Pops s [] s
  | cons {s s₁ s' : Stack} {x : VType} {vs : List VType} :
      s.pop = .ok (x, s₁) → Pops s₁ vs s' → Pops s (x :: vs) s'

lemma pops_nil_iff : s.Pops [] s' ↔ s' = s := by
  constructor
  · rintro ⟨⟩
    rfl
  · rintro rfl
    exact .nil _

lemma pops_cons_iff : s.Pops (x :: vs) s' ↔ ∃ s₁, s.pop = .ok (x, s₁) ∧ s₁.Pops vs s' := by
  constructor
  · rintro (_ | ⟨hpop, hrest⟩)
    exact ⟨_, hpop, hrest⟩
  · rintro ⟨s₁, hpop, hrest⟩
    exact .cons hpop hrest

lemma pops_singleton_iff : s.Pops [x] s' ↔ s.pop = .ok (x, s') := by
  rw [pops_cons_iff]
  constructor
  · rintro ⟨s₁, hpop, hrest⟩
    rw [pops_nil_iff.1 hrest]
    exact hpop
  · exact fun hpop => ⟨s', hpop, .nil _⟩

lemma pops_append_iff : s.Pops (vs ++ ws) s' ↔ ∃ s₁, s.Pops vs s₁ ∧ s₁.Pops ws s' := by
  induction vs generalizing s with
  | nil =>
    constructor
    · exact fun h => ⟨s, .nil s, h⟩
    · rintro ⟨s₁, h, hrest⟩
      exact pops_nil_iff.1 h ▸ hrest
  | cons x vs ih =>
    rw [List.cons_append, pops_cons_iff]
    constructor
    · rintro ⟨s₁, hpop, hrest⟩
      obtain ⟨s₂, h1, h2⟩ := ih.1 hrest
      exact ⟨s₂, .cons hpop h1, h2⟩
    · rintro ⟨s₂, h1, h2⟩
      obtain ⟨s₁, hpop, h1⟩ := pops_cons_iff.1 h1
      exact ⟨s₁, hpop, ih.2 ⟨s₂, h1, h2⟩⟩

/-! ### Ways to take operands -/

/-- A value is taken and must pass a test. -/
lemma pop_test_ok_iff {β : Type} (p : VType → Prop) [DecidablePred p] (g : VType → Stack → β)
    (e : VType → TypeFault) {b : β} :
    (s.pop >>= fun r => if p r.1 then .ok (g r.1 r.2) else .error (e r.1)) = .ok b ↔
      ∃ x s₁, s.Pops [x] s₁ ∧ p x ∧ g x s₁ = b := by
  rw [bind_ok_iff]
  constructor
  · rintro ⟨⟨x, s₁⟩, hpop, hx⟩
    dsimp only at hx
    split at hx
    · rename_i htest
      cases hx
      exact ⟨x, s₁, pops_singleton_iff.2 hpop, htest, rfl⟩
    · cases hx
  · rintro ⟨x, s₁, hpop, htest, rfl⟩
    exact ⟨(x, s₁), pops_singleton_iff.1 hpop, if_pos htest⟩

lemma popNarrow_ok_iff : s.popNarrow = .ok (x, s') ↔ s.Pops [x] s' ∧ width x = 1 := by
  refine (pop_test_ok_iff (width · = 1) Prod.mk fun x => .invalidWidth (width x)).trans ?_
  simp

lemma popExact_ok_iff : s.popExact t = .ok s' ↔ s.Pops [t] s' := by
  refine (pop_test_ok_iff (· = t) (fun _ s => s) (.incompatible · t)).trans ?_
  simp

lemma popReference_ok_iff :
    s.popReference = .ok (x, s') ↔ s.Pops [x] s' ∧ x.isReference = true := by
  refine (pop_test_ok_iff (·.isReference = true) Prod.mk .notReference).trans ?_
  simp

lemma popAssignable_ok_iff {h : Hierarchy} :
    s.popAssignable h t = .ok s' ↔ ∃ x, s.Pops [x] s' ∧ x.isAssignable h t = true := by
  refine (pop_test_ok_iff (·.isAssignable h t = true) (fun _ s => s) (.incompatible · t)).trans ?_
  simp

lemma popAll_ok_iff {ts : List VType} : s.popAll ts = .ok s' ↔ s.Pops ts s' := by
  unfold popAll
  induction ts generalizing s with
  | nil =>
    rw [pops_nil_iff]
    exact ⟨fun h => (Except.ok.inj h).symm, fun h => congrArg Except.ok h.symm⟩
  | cons t ts ih =>
    rw [List.foldlM_cons, bind_ok_iff, pops_cons_iff]
    simp only [popExact_ok_iff, pops_singleton_iff, ih]

/-- The values may be used as arguments for the parameters, both read from the last one on. -/
def Fit (h : Hierarchy) (vs : List VType) (ps : List FieldType) : Prop :=
  List.Forall₂ (fun x p => x.isAssignable h (.ofField p) = true) vs ps.reverse

lemma popArguments_ok_iff {h : Hierarchy} {ps : List FieldType} :
    s.popArguments h ps = .ok s' ↔ ∃ vs, s.Pops vs s' ∧ Fit h vs ps := by
  unfold popArguments Fit
  generalize ps.reverse = qs
  induction qs generalizing s with
  | nil =>
    constructor
    · intro hs
      cases hs
      exact ⟨[], .nil _, .nil⟩
    · rintro ⟨vs, hpops, hvs⟩
      cases hvs
      rw [pops_nil_iff.1 hpops]
      rfl
  | cons q qs ih =>
    rw [List.foldlM_cons, bind_ok_iff]
    constructor
    · rintro ⟨s₁, hfirst, hrest⟩
      obtain ⟨x, hpop, hx⟩ := popAssignable_ok_iff.1 hfirst
      obtain ⟨vs, hpops, hvs⟩ := ih.1 hrest
      exact ⟨x :: vs, .cons (pops_singleton_iff.1 hpop) hpops, .cons hx hvs⟩
    · rintro ⟨vs, hpops, hvs⟩
      cases hvs with
      | cons hx hvs =>
        obtain ⟨s₁, hpop, hpops⟩ := pops_cons_iff.1 hpops
        exact ⟨s₁, popAssignable_ok_iff.2 ⟨_, pops_singleton_iff.2 hpop, hx⟩, ih.2 ⟨_, hpops, hvs⟩⟩

/-- `null`, or an object that is initialized. -/
def IsObject (x : VType) : Prop := x = .null ∨ ∃ r, x = .object r

lemma popInitialized_ok_iff : s.popInitialized = .ok (x, s') ↔ s.Pops [x] s' ∧ IsObject x := by
  unfold popInitialized
  rw [pops_singleton_iff, bind_ok_iff]
  constructor
  · rintro ⟨⟨y, s₁⟩, hpop, hy⟩
    cases y with
    | null =>
      cases hy
      exact ⟨hpop, Or.inl rfl⟩
    | object r =>
      cases hy
      exact ⟨hpop, Or.inr ⟨r, rfl⟩⟩
    | _ => cases hy
  · rintro ⟨hpop, rfl | ⟨r, rfl⟩⟩
    · exact ⟨_, hpop, rfl⟩
    · exact ⟨_, hpop, rfl⟩

/-- `null`, or an array whose elements have one of the primitive types. -/
def IsArrayOf (bs : List BaseType) (x : VType) : Prop :=
  x = .null ∨ ∃ r, ∃ b ∈ bs, x = .object r ∧ r.element? = some (.base b)

lemma popPrimitives_ok_iff {first : BaseType} {others : List BaseType} :
    s.popPrimitives first others = .ok s' ↔ ∃ x, s.Pops [x] s' ∧ IsArrayOf (first :: others) x := by
  unfold popPrimitives
  rw [bind_ok_iff]
  constructor
  · rintro ⟨⟨x, s₁⟩, hpop, hx⟩
    refine ⟨x, ?_⟩
    rw [pops_singleton_iff]
    cases x with
    | null =>
      cases hx
      exact ⟨hpop, Or.inl rfl⟩
    | object r =>
      simp only [List.any_eq_true, decide_eq_true_eq] at hx
      split at hx
      · rename_i hfits
        cases hx
        obtain ⟨b, hb, he⟩ := hfits
        exact ⟨hpop, Or.inr ⟨r, b, hb, rfl, he⟩⟩
      · cases hx
    | _ => cases hx
  · rintro ⟨x, hpop, hx⟩
    refine ⟨(x, s'), pops_singleton_iff.1 hpop, if_pos ?_⟩
    rcases hx with rfl | ⟨r, b, hb, rfl, he⟩
    · rfl
    · simp only [List.any_eq_true, decide_eq_true_eq]
      exact ⟨b, hb, he⟩

/-- `null`, or an array of references with the given element type. -/
def IsArrayOfRefs (element : Option RefType) (x : VType) : Prop :=
  (x = .null ∧ element = none) ∨
    ∃ r e, x = .object r ∧ r.element? = some (.ref e) ∧ element = some e

lemma popReferences_ok_iff {element : Option RefType} :
    s.popReferences = .ok (element, s') ↔ ∃ x, s.Pops [x] s' ∧ IsArrayOfRefs element x := by
  unfold popReferences
  rw [bind_ok_iff]
  constructor
  · rintro ⟨⟨x, s₁⟩, hpop, hx⟩
    cases x with
    | null =>
      cases hx
      exact ⟨_, pops_singleton_iff.2 hpop, Or.inl ⟨rfl, rfl⟩⟩
    | object r =>
      dsimp only at hx
      split at hx
      · rename_i e he
        cases hx
        exact ⟨_, pops_singleton_iff.2 hpop, Or.inr ⟨r, e, rfl, he, rfl⟩⟩
      · cases hx
    | _ => cases hx
  · rintro ⟨x, hpop, ⟨rfl, rfl⟩ | ⟨r, e, rfl, he, rfl⟩⟩
    · exact ⟨_, pops_singleton_iff.1 hpop, rfl⟩
    · refine ⟨_, pops_singleton_iff.1 hpop, ?_⟩
      simp only [he]

/-! ### Piles of values -/

/-- The stack that is made of the values, the first one on top. -/
def pile : List VType → Stack
  | [] => .empty
  | x :: l => (pile l).push x

lemma pile_append (l l' : List VType) : (pile l).append l' = pile (l'.reverse ++ l) := by
  induction l' generalizing l with
  | nil => rfl
  | cons x l' ih =>
    rw [List.reverse_cons, List.append_assoc]
    exact ih (x :: l)

lemma ofList_eq_pile (l : List VType) : SlotVec.ofList l = pile l.reverse := by
  have h := pile_append [] l
  rwa [List.append_nil] at h

lemma height_pile (l : List VType) : (pile l).height = slots l := by
  induction l with
  | nil => rfl
  | cons x l ih =>
    rw [pile, SlotVec.height_push, ih, slots_cons, Nat.add_comm]

lemma toList_pile (l : List VType) : (pile l).toList = l.reverse := by
  induction l with
  | nil => rfl
  | cons x l ih => rw [pile, SlotVec.toList_push, ih, List.reverse_cons]

lemma pops_pile_iff {l : List VType} :
    (pile l).Pops vs s' ↔ ∃ rest, l = vs ++ rest ∧ s' = pile rest := by
  induction vs generalizing l with
  | nil => simp [pops_nil_iff]
  | cons x vs ih =>
    rw [pops_cons_iff]
    constructor
    · rintro ⟨s₁, hpop, hpops⟩
      cases l with
      | nil => cases hpop
      | cons y l =>
        cases hpop
        obtain ⟨rest, rfl, hs⟩ := ih.1 hpops
        exact ⟨rest, rfl, hs⟩
    · rintro ⟨rest, rfl, rfl⟩
      exact ⟨pile (vs ++ rest), rfl, ih.2 ⟨rest, rfl, rfl⟩⟩

end Stack

end Bytecheck
