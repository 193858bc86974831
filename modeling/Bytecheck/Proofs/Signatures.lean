import Mathlib.Data.List.Forall2
import Mathlib.Tactic.Common
import Bytecheck.Proofs.CallReceivers
import Bytecheck.Proofs.StackWords

/-!
What instructions take from the stack.

A signature says which operands an instruction accepts and what it leaves in their place. The
operations that look at the stack alone succeed exactly where they have a signature for the values
on top. Every other instruction that succeeds has a signature too, or is one of the three that do
more: a `new`, a constructor call and a throw.
-/

namespace Bytecheck

open Stack

/-- The values that a variable of the kind can hold. -/
def Kind.Holds : Kind → VType → Prop
  | .num n, x => x = n.vtype
  | .ref, x => x.isReference = true

namespace Transfer

/-- What an instruction takes from the stack, the top value first, and what it puts there, in the
order of putting. Three instructions are left out: a `new` and a constructor call look at all of the
frame, and a throw does away with the rest of the stack. -/
inductive Signature (c : Context) (locals : List VType) :
    Instruction ℕ → List VType → List VType → Prop
  | nop : Signature c locals (.op .nop) [] []
  | aconstNull : Signature c locals (.op .aconstNull) [] [.null]
  | calculate (f : Calc) :
      Signature c locals (.op (.calc f)) (f.operands.map Num.vtype) [f.result.vtype]
  | ldc {k : Constant} : width k.vtype = 1 → Signature c locals (.op (.ldc k)) [] [k.vtype]
  | ldc2 {k : Constant} : width k.vtype = 2 → Signature c locals (.op (.ldc2 k)) [] [k.vtype]
  | load {k : Kind} {slot : ℕ} {x : VType} : locals[slot]? = some x → x ≠ .top → k.Holds x →
      Signature c locals (.op (.load k slot)) [] [x]
  | store {k : Kind} {slot : ℕ} {x : VType} : k.Holds x → slot + width x ≤ locals.length →
      Signature c locals (.op (.store k slot)) [x] []
  | iinc {slot : ℕ} {d : Int} : locals[slot]? = some .int →
      Signature c locals (.op (.iinc slot d)) [] []
  | loadPrimitive {k : ElementKind} {b : BaseType} {bs : List BaseType} {v x : VType} :
      primitives k = some (b, bs, v) → IsArrayOf (b :: bs) x →
      Signature c locals (.op (.arrayLoad k)) [.int, x] [v]
  | loadReference {e : Option RefType} {x : VType} : IsArrayOfRefs e x →
      Signature c locals (.op (.arrayLoad .ref)) [.int, x] [e.elim .null .object]
  | storePrimitive {k : ElementKind} {b : BaseType} {bs : List BaseType} {v x : VType} :
      primitives k = some (b, bs, v) → IsArrayOf (b :: bs) x →
      Signature c locals (.op (.arrayStore k)) [v, .int, x] []
  | storeReference {e : Option RefType} {v x : VType} : IsObject v → IsArrayOfRefs e x →
      (∀ r, e = some r → v.isAssignable c.hierarchy (.object r) = true) →
      Signature c locals (.op (.arrayStore .ref)) [v, .int, x] []
  | shuffle {o : StackOp} {a b : List VType} : slots a = o.taken → slots b = o.passed →
      Signature c locals (.op (.stack o)) (a ++ b) (o.arrange a b).reverse
  | getStatic (f : FieldRef) : Signature c locals (.op (.getStatic f)) [] [.ofField f.type]
  | putStatic {f : FieldRef} {x : VType} : x.isAssignable c.hierarchy (.ofField f.type) = true →
      Signature c locals (.op (.putStatic f)) [x] []
  | getField {f : FieldRef} {x : VType} : x.isAssignable c.hierarchy (.ofClass f.owner) = true →
      Signature c locals (.op (.getField f)) [x] [.ofField f.type]
  | putField {f : FieldRef} {v x : VType} : v.isAssignable c.hierarchy (.ofField f.type) = true →
      x.isAssignable c.hierarchy (.ofClass f.owner) = true →
      Signature c locals (.op (.putField f)) [v, x] []
  | putOwnField {f : FieldRef} {v : VType} : v.isAssignable c.hierarchy (.ofField f.type) = true →
      c.method.isConstructor = true → f.owner = c.method.owner →
      Signature c locals (.op (.putField f)) [v, .uninitThis] []
  | callStatic {m : MethodRef} {vs : List VType} : Fit c.hierarchy vs m.descriptor.parameters →
      Signature c locals (.op (.invoke .static m)) vs (m.descriptor.returns.toList.map VType.ofField)
  | call {k : InvokeKind} {m : MethodRef} {vs : List VType} {x : VType} :
      isInit k m = false → k ≠ .static → callFits k m.onInterface = true →
      Fit c.hierarchy vs m.descriptor.parameters →
      x.isAssignable c.hierarchy (.object m.owner) = true →
      Signature c locals (.op (.invoke k m)) (vs ++ [x])
        (m.descriptor.returns.toList.map VType.ofField)
  | callDynamic {d : DynamicRef} {vs : List VType} : Fit c.hierarchy vs d.descriptor.parameters →
      Signature c locals (.op (.invokeDynamic d)) vs (d.descriptor.returns.toList.map VType.ofField)
  | newArray (b : BaseType) :
      Signature c locals (.op (.newArray b)) [.int] [.object (.primitiveArray 0 b)]
  | anewArray (r : RefType) :
      Signature c locals (.op (.anewArray r)) [.int] [.object (.arrayOf (.ref r))]
  | multiANewArray {r : RefType} {n : ℕ} : n ≠ 0 → n ≤ r.dimensions →
      Signature c locals (.op (.multiANewArray r n)) (List.replicate n .int) [.object r]
  | arrayLength {x : VType} : x = .null ∨ (∃ r, x = .object r ∧ r.isArray = true) →
      Signature c locals (.op .arrayLength) [x] [.int]
  | checkCast {r : RefType} {x : VType} : IsObject x →
      Signature c locals (.op (.checkCast r)) [x] [.object r]
  | instanceOf {r : RefType} {x : VType} : IsObject x →
      Signature c locals (.op (.instanceOf r)) [x] [.int]
  | monitorEnter {x : VType} : IsObject x → Signature c locals (.op .monitorEnter) [x] []
  | monitorExit {x : VType} : IsObject x → Signature c locals (.op .monitorExit) [x] []
  | ifZero (o : Order) (t : ℕ) : Signature c locals (.branch (.ifZero o t)) [.int] []
  | ifInt (o : Order) (t : ℕ) : Signature c locals (.branch (.ifInt o t)) [.int, .int] []
  | ifRef {o : Equality} {t : ℕ} {x y : VType} : x.isReference = true → y.isReference = true →
      Signature c locals (.branch (.ifRef o t)) [x, y] []
  | ifNull {o : Equality} {t : ℕ} {x : VType} : x.isReference = true →
      Signature c locals (.branch (.ifNull o t)) [x] []
  | goto (t : ℕ) : Signature c locals (.branch (.goto t)) [] []
  | tableSwitch (d : ℕ) (low : Int) (ts : List ℕ) :
      Signature c locals (.branch (.tableSwitch d low ts)) [.int] []
  | lookupSwitch (d : ℕ) (cs : List (Int × ℕ)) :
      Signature c locals (.branch (.lookupSwitch d cs)) [.int] []
  | leave {k : Option Kind} {vs : List VType} :
      (c.method.mustInitialize = true → .uninitThis ∉ locals) →
      returnFits k (c.method.descriptor.returns.map VType.ofField) = true →
      List.Forall₂ (fun x t => x.isAssignable c.hierarchy (.ofField t) = true) vs
        c.method.descriptor.returns.toList →
      Signature c locals (.branch (.leave k)) vs []

variable {c : Context} {locals : List VType} {s s' : Stack}

/-- The operations that look at the stack alone. -/
def onlyStack : Op → Bool
  | .load _ _ | .store _ _ | .iinc _ _ | .new _ => false
  | .invoke k m => !isInit k m
  | _ => true

lemma pushResult_eq (s : Stack) (t : Option FieldType) :
    pushResult s t = s.append (t.toList.map VType.ofField) := by
  cases t <;> rfl

lemma loadConstant_ok_iff {n : ℕ} {k : Constant} :
    loadConstant n k s = .ok s' ↔ width k.vtype = n ∧ s' = s.push k.vtype := by
  unfold loadConstant
  split
  · rename_i h
    simp [h, eq_comm]
  · rename_i h
    simp [h]

lemma primitives_eq_none_iff {k : ElementKind} : primitives k = none ↔ k = .ref := by
  cases k <;> simp [primitives]

/-- The stack has values on top that the instruction takes, and they are replaced by its results. -/
def Applies (c : Context) (locals : List VType) (i : Instruction ℕ) (s s' : Stack) : Prop :=
  ∃ vs ws rest, Signature c locals i vs ws ∧ s.Pops vs rest ∧ s' = rest.append ws

lemma arrayLoad_ok_iff {k : ElementKind} :
    arrayLoad k s = .ok s' ↔ Applies c locals (.op (.arrayLoad k)) s s' := by
  unfold arrayLoad
  simp only [bind_ok_iff, popExact_ok_iff, pops_singleton_iff]
  constructor
  · rintro ⟨s₁, hint, h⟩
    cases hk : primitives k with
    | some q =>
      obtain ⟨b, bs, v⟩ := q
      simp only [hk] at h
      obtain ⟨s₂, harray, h⟩ := bind_ok_iff.1 h
      cases h
      obtain ⟨x, hpop, hx⟩ := popPrimitives_ok_iff.1 harray
      exact ⟨_, _, s₂, .loadPrimitive hk hx, .cons hint hpop, rfl⟩
    | none =>
      simp only [hk] at h
      obtain ⟨⟨e, s₂⟩, harray, h⟩ := bind_ok_iff.1 h
      cases h
      obtain ⟨x, hpop, hx⟩ := popReferences_ok_iff.1 harray
      cases primitives_eq_none_iff.1 hk
      exact ⟨_, _, s₂, .loadReference hx, .cons hint hpop, rfl⟩
  · rintro ⟨vs, ws, rest, hsig, hpops, rfl⟩
    cases hsig with
    | @loadPrimitive _ b bs v x hk hx =>
      obtain ⟨s₁, hint, hpop⟩ := pops_cons_iff.1 hpops
      refine ⟨s₁, hint, ?_⟩
      simp only [hk]
      exact bind_ok_iff.2 ⟨rest, popPrimitives_ok_iff.2 ⟨x, hpop, hx⟩, rfl⟩
    | @loadReference e x hx =>
      obtain ⟨s₁, hint, hpop⟩ := pops_cons_iff.1 hpops
      exact ⟨s₁, hint, bind_ok_iff.2 ⟨(e, rest), popReferences_ok_iff.2 ⟨x, hpop, hx⟩, rfl⟩⟩

lemma arrayStore_ok_iff {k : ElementKind} :
    arrayStore c.hierarchy k s = .ok s' ↔ Applies c locals (.op (.arrayStore k)) s s' := by
  unfold arrayStore
  constructor
  · intro h
    cases hk : primitives k with
    | some q =>
      obtain ⟨b, bs, v⟩ := q
      simp only [hk, bind_ok_iff, popExact_ok_iff, pops_singleton_iff] at h
      obtain ⟨s₁, hvalue, s₂, hint, harray⟩ := h
      obtain ⟨x, hpop, hx⟩ := popPrimitives_ok_iff.1 harray
      exact ⟨_, _, s', .storePrimitive hk hx, .cons hvalue (.cons hint hpop), rfl⟩
    | none =>
      simp only [hk, bind_ok_iff, popExact_ok_iff, pops_singleton_iff] at h
      obtain ⟨⟨v, s₁⟩, hvalue, s₂, hint, ⟨e, s₃⟩, harray, h⟩ := h
      cases primitives_eq_none_iff.1 hk
      obtain ⟨hvalue, hv⟩ := popInitialized_ok_iff.1 hvalue
      obtain ⟨x, hpop, hx⟩ := popReferences_ok_iff.1 harray
      have hpops : s.Pops [v, .int, x] s₃ :=
        .cons (pops_singleton_iff.1 hvalue) (.cons hint hpop)
      cases e with
      | none =>
        cases h
        exact ⟨_, _, _, .storeReference hv hx (fun r hr => by cases hr), hpops, rfl⟩
      | some e =>
        dsimp only at h
        split at h
        · rename_i hassign
          cases h
          refine ⟨_, _, _, .storeReference hv hx fun r hr => ?_, hpops, rfl⟩
          cases hr
          exact hassign
        · cases h
  · rintro ⟨vs, ws, rest, hsig, hpops, rfl⟩
    cases hsig with
    | @storePrimitive _ b bs v x hk hx =>
      obtain ⟨s₁, hvalue, hpops⟩ := pops_cons_iff.1 hpops
      obtain ⟨s₂, hint, hpop⟩ := pops_cons_iff.1 hpops
      simp only [hk, bind_ok_iff, popExact_ok_iff, pops_singleton_iff]
      exact ⟨s₁, hvalue, s₂, hint, popPrimitives_ok_iff.2 ⟨x, hpop, hx⟩⟩
    | @storeReference e v x hv hx hassign =>
      obtain ⟨s₁, hvalue, hpops⟩ := pops_cons_iff.1 hpops
      obtain ⟨s₂, hint, hpop⟩ := pops_cons_iff.1 hpops
      simp only [primitives, bind_ok_iff, popExact_ok_iff, pops_singleton_iff]
      refine ⟨(v, s₁), popInitialized_ok_iff.2 ⟨pops_singleton_iff.2 hvalue, hv⟩, s₂, hint,
        (e, rest), popReferences_ok_iff.2 ⟨x, hpop, hx⟩, ?_⟩
      cases e with
      | none => rfl
      | some e => exact if_pos (hassign e rfl)

lemma putField_ok_iff {f : FieldRef} :
    stackEffect c (.putField f) s = .ok s' ↔ Applies c locals (.op (.putField f)) s s' := by
  unfold stackEffect popFieldOwner
  simp only [bind_ok_iff, popAssignable_ok_iff]
  constructor
  · rintro ⟨s₁, ⟨v, hvalue, hv⟩, h⟩
    rw [pops_singleton_iff] at hvalue
    split at h
    · rename_i hown
      obtain ⟨⟨x, s₂⟩, hpop, h⟩ := bind_ok_iff.1 h
      cases h
      obtain ⟨hinit, hfield, htop⟩ := hown
      have hx : x = .uninitThis := by
        obtain ⟨o, ho⟩ := pop_entries hpop
        simpa [SlotVec.top?, ho] using htop
      subst hx
      exact ⟨_, _, _, .putOwnField hv hinit hfield, .cons hvalue (pops_singleton_iff.2 hpop), rfl⟩
    · obtain ⟨x, hpop, hx⟩ := popAssignable_ok_iff.1 h
      exact ⟨_, _, _, .putField hv hx, .cons hvalue hpop, rfl⟩
  · rintro ⟨vs, ws, rest, hsig, hpops, rfl⟩
    cases hsig with
    | @putField _ v x hv hx =>
      obtain ⟨s₁, hvalue, hpop⟩ := pops_cons_iff.1 hpops
      refine ⟨s₁, ⟨v, pops_singleton_iff.2 hvalue, hv⟩, ?_⟩
      rw [if_neg]
      · exact popAssignable_ok_iff.2 ⟨x, hpop, hx⟩
      · -- what may be used as an object is no uninitialized receiver
        rintro ⟨-, -, htop⟩
        obtain ⟨o, ho⟩ := pop_entries (pops_singleton_iff.1 hpop)
        have hthis : x = .uninitThis := by simpa [SlotVec.top?, ho] using htop
        subst hthis
        cases hx
    | @putOwnField _ v hv hinit hfield =>
      obtain ⟨s₁, hvalue, hpop⟩ := pops_cons_iff.1 hpops
      rw [pops_singleton_iff] at hpop
      refine ⟨s₁, ⟨v, pops_singleton_iff.2 hvalue, hv⟩, ?_⟩
      rw [if_pos]
      · exact bind_ok_iff.2 ⟨_, hpop, rfl⟩
      · obtain ⟨o, ho⟩ := pop_entries hpop
        exact ⟨hinit, hfield, by simp [SlotVec.top?, ho]⟩

lemma call_ok_iff {k : InvokeKind} {m : MethodRef} (hinit : isInit k m = false) :
    call c.hierarchy k m s = .ok s' ↔ Applies c locals (.op (.invoke k m)) s s' := by
  unfold call
  rw [bind_ok_iff]
  simp only [popArguments_ok_iff]
  by_cases hfits : callFits k m.onInterface = true
  · by_cases hk : k = .static
    · subst hk
      constructor
      · rintro ⟨s₁, ⟨vs, hargs, hvs⟩, h⟩
        cases h
        exact ⟨_, _, s₁, .callStatic hvs, hargs, pushResult_eq _ _⟩
      · rintro ⟨vs, ws, rest, hsig, hargs, rfl⟩
        cases hsig with
        | callStatic hvs => exact ⟨rest, ⟨vs, hargs, hvs⟩, by rw [← pushResult_eq]; rfl⟩
        | call _ hk => exact absurd rfl hk
    · constructor
      · rintro ⟨s₁, ⟨vs, hargs, hvs⟩, h⟩
        rw [if_neg (not_not_intro hfits), if_neg hk] at h
        obtain ⟨s₂, hpop, h⟩ := bind_ok_iff.1 h
        cases h
        obtain ⟨x, hpop, hx⟩ := popAssignable_ok_iff.1 hpop
        exact ⟨_, _, s₂, .call hinit hk hfits hvs hx, pops_append_iff.2 ⟨s₁, hargs, hpop⟩,
          pushResult_eq _ _⟩
      · rintro ⟨vs, ws, rest, hsig, hpops, rfl⟩
        cases hsig with
        | callStatic hvs => exact absurd rfl hk
        | @call _ _ vs x _ _ _ hvs hx =>
          obtain ⟨s₁, hargs, hpop⟩ := pops_append_iff.1 hpops
          refine ⟨s₁, ⟨vs, hargs, hvs⟩, ?_⟩
          rw [if_neg (not_not_intro hfits), if_neg hk, ← pushResult_eq]
          exact bind_ok_iff.2 ⟨rest, popAssignable_ok_iff.2 ⟨x, hpop, hx⟩, rfl⟩
  · constructor
    · rintro ⟨s₁, -, h⟩
      rw [if_pos hfits] at h
      cases h
    · rintro ⟨vs, ws, rest, hsig, -, -⟩
      cases hsig with
      | callStatic => exact absurd rfl hfits
      | call _ _ hfits' => exact absurd hfits' hfits

/-- An operation that succeeds has a signature for the values on top. -/
lemma applies_of_stackEffect {o : Op} (ho : onlyStack o = true)
    (h : stackEffect c o s = .ok s') : Applies c locals (.op o) s s' := by
  cases o with
  | load k slot => cases ho
  | store k slot => cases ho
  | iinc slot d => cases ho
  | new r => cases ho
  | arrayLoad k => exact arrayLoad_ok_iff.1 h
  | arrayStore k => exact arrayStore_ok_iff.1 h
  | putField f => exact putField_ok_iff.1 h
  | invoke k m => exact (call_ok_iff (by simpa [onlyStack] using ho)).1 h
  | stack o =>
    obtain ⟨a, b, rest, hpops, ha, hb, rfl⟩ := shuffle_ok_iff.1 h
    exact ⟨_, _, rest, .shuffle ha hb, hpops, rfl⟩
  | nop =>
    cases h
    exact ⟨_, _, _, .nop, .nil _, rfl⟩
  | aconstNull =>
    cases h
    exact ⟨_, _, _, .aconstNull, .nil _, rfl⟩
  | getStatic f =>
    cases h
    exact ⟨_, _, _, .getStatic f, .nil _, rfl⟩
  | ldc k =>
    obtain ⟨hk, rfl⟩ := loadConstant_ok_iff.1 h
    exact ⟨_, _, _, .ldc hk, .nil _, rfl⟩
  | ldc2 k =>
    obtain ⟨hk, rfl⟩ := loadConstant_ok_iff.1 h
    exact ⟨_, _, _, .ldc2 hk, .nil _, rfl⟩
  | «calc» f =>
    obtain ⟨rest, hpops, h⟩ := bind_ok_iff.1 h
    cases h
    exact ⟨_, _, rest, .calculate f, popAll_ok_iff.1 hpops, rfl⟩
  | putStatic f =>
    obtain ⟨x, hpop, hx⟩ := popAssignable_ok_iff.1 h
    exact ⟨_, _, _, .putStatic hx, hpop, rfl⟩
  | getField f =>
    obtain ⟨rest, hpop, h⟩ := bind_ok_iff.1 h
    cases h
    obtain ⟨x, hpop, hx⟩ := popAssignable_ok_iff.1 hpop
    exact ⟨_, _, rest, .getField hx, hpop, rfl⟩
  | invokeDynamic d =>
    obtain ⟨rest, hargs, h⟩ := bind_ok_iff.1 h
    cases h
    obtain ⟨vs, hargs, hvs⟩ := popArguments_ok_iff.1 hargs
    exact ⟨_, _, rest, .callDynamic hvs, hargs, pushResult_eq _ _⟩
  | newArray b =>
    obtain ⟨rest, hpop, h⟩ := bind_ok_iff.1 h
    cases h
    exact ⟨_, _, rest, .newArray b, popExact_ok_iff.1 hpop, rfl⟩
  | anewArray r =>
    obtain ⟨rest, hpop, h⟩ := bind_ok_iff.1 h
    cases h
    exact ⟨_, _, rest, .anewArray r, popExact_ok_iff.1 hpop, rfl⟩
  | multiANewArray r n =>
    unfold stackEffect at h
    dsimp only at h
    split at h
    · cases h
    · rename_i hn
      obtain ⟨rest, hpops, h⟩ := bind_ok_iff.1 h
      cases h
      exact ⟨_, _, rest, .multiANewArray (by omega) (by omega), popAll_ok_iff.1 hpops, rfl⟩
  | arrayLength =>
    obtain ⟨⟨x, rest⟩, hpop, h⟩ := bind_ok_iff.1 h
    have hpop := pops_singleton_iff.2 hpop
    cases x with
    | null =>
      cases h
      exact ⟨_, _, rest, .arrayLength (Or.inl rfl), hpop, rfl⟩
    | object r =>
      dsimp only at h
      split at h
      · rename_i harray
        cases h
        exact ⟨_, _, rest, .arrayLength (Or.inr ⟨r, rfl, harray⟩), hpop, rfl⟩
      · cases h
    | _ => cases h
  | checkCast r =>
    obtain ⟨⟨x, rest⟩, hpop, h⟩ := bind_ok_iff.1 h
    cases h
    obtain ⟨hpop, hx⟩ := popInitialized_ok_iff.1 hpop
    exact ⟨_, _, rest, .checkCast hx, hpop, rfl⟩
  | instanceOf r =>
    obtain ⟨⟨x, rest⟩, hpop, h⟩ := bind_ok_iff.1 h
    cases h
    obtain ⟨hpop, hx⟩ := popInitialized_ok_iff.1 hpop
    exact ⟨_, _, rest, .instanceOf hx, hpop, rfl⟩
  | monitorEnter =>
    obtain ⟨⟨x, rest⟩, hpop, h⟩ := bind_ok_iff.1 h
    cases h
    obtain ⟨hpop, hx⟩ := popInitialized_ok_iff.1 hpop
    exact ⟨_, _, _, .monitorEnter hx, hpop, rfl⟩
  | monitorExit =>
    obtain ⟨⟨x, rest⟩, hpop, h⟩ := bind_ok_iff.1 h
    cases h
    obtain ⟨hpop, hx⟩ := popInitialized_ok_iff.1 hpop
    exact ⟨_, _, _, .monitorExit hx, hpop, rfl⟩

/-- An operation with a signature for the values on top succeeds. -/
lemma stackEffect_of_applies {o : Op} (ho : onlyStack o = true)
    (h : Applies c locals (.op o) s s') : stackEffect c o s = .ok s' := by
  obtain ⟨vs, ws, rest, hsig, hpops, rfl⟩ := id h
  cases hsig with
  | load => cases ho
  | store => cases ho
  | iinc => cases ho
  | loadPrimitive => exact arrayLoad_ok_iff.2 h
  | loadReference => exact arrayLoad_ok_iff.2 h
  | storePrimitive => exact arrayStore_ok_iff.2 h
  | storeReference => exact arrayStore_ok_iff.2 h
  | putField => exact putField_ok_iff.2 h
  | putOwnField => exact putField_ok_iff.2 h
  | callStatic => exact (call_ok_iff (by simpa [onlyStack] using ho)).2 h
  | call hinit => exact (call_ok_iff hinit).2 h
  | shuffle ha hb => exact shuffle_ok_iff.2 ⟨_, _, rest, hpops, ha, hb, rfl⟩
  | nop | aconstNull | getStatic =>
    rw [pops_nil_iff.1 hpops]
    rfl
  | ldc hk | ldc2 hk =>
    rw [pops_nil_iff.1 hpops]
    exact loadConstant_ok_iff.2 ⟨hk, rfl⟩
  | calculate => exact bind_ok_iff.2 ⟨rest, popAll_ok_iff.2 hpops, rfl⟩
  | putStatic hx => exact popAssignable_ok_iff.2 ⟨_, hpops, hx⟩
  | getField hx => exact bind_ok_iff.2 ⟨rest, popAssignable_ok_iff.2 ⟨_, hpops, hx⟩, rfl⟩
  | callDynamic hvs =>
    rw [← pushResult_eq]
    exact bind_ok_iff.2 ⟨rest, popArguments_ok_iff.2 ⟨_, hpops, hvs⟩, rfl⟩
  | newArray | anewArray => exact bind_ok_iff.2 ⟨rest, popExact_ok_iff.2 hpops, rfl⟩
  | multiANewArray hzero hle =>
    unfold stackEffect
    dsimp only
    rw [if_neg (by omega)]
    exact bind_ok_iff.2 ⟨rest, popAll_ok_iff.2 hpops, rfl⟩
  | arrayLength hx =>
    refine bind_ok_iff.2 ⟨_, pops_singleton_iff.1 hpops, ?_⟩
    rcases hx with rfl | ⟨r, rfl, harray⟩
    · rfl
    · exact if_pos harray
  | checkCast hx | instanceOf hx | monitorEnter hx | monitorExit hx =>
    exact bind_ok_iff.2 ⟨_, popInitialized_ok_iff.2 ⟨hpops, hx⟩, rfl⟩

/-- **Operations on the stack** succeed if and only if they have a signature for the values on
top. -/
lemma stackEffect_ok_iff {o : Op} (ho : onlyStack o = true) :
    stackEffect c o s = .ok s' ↔ Applies c locals (.op o) s s' :=
  ⟨applies_of_stackEffect ho, stackEffect_of_applies ho⟩

/-! ### All instructions -/

/-- `null`, or an object that can be thrown. -/
def IsThrowable (h : Hierarchy) (x : VType) : Prop :=
  x = .null ∨ ∃ e, x = .ofClass e ∧ h.isSubtype e .throwable = true

/-- What an instruction takes from the stack of a frame, and the stack that it leaves. -/
inductive StackChange (c : Context) (index : ℕ) (f : Frame) :
    Instruction ℕ → List VType → Stack → Prop
  | replace {i : Instruction ℕ} {vs ws : List VType} {rest : Stack} :
      Signature c f.locals i vs ws → f.stack.Pops vs rest →
      StackChange c index f i vs (rest.append ws)
  | new {r : RefType} : r.isArray = false → f.any (VType.isUninitFrom index) = false →
      StackChange c index f (.op (.new r)) [] (f.stack.push (.uninit r index))
  | construct {m : MethodRef} {vs : List VType} {x y : VType} {rest : Stack} : m.name = .init →
      Fit c.hierarchy vs m.descriptor.parameters → initialized c m.owner x = .ok y →
      f.stack.Pops (vs ++ [x]) rest →
      StackChange c index f (.op (.invoke .special m)) (vs ++ [x])
        (rest.map fun t => if t = x then y else t)
  | athrow {x : VType} {rest : Stack} : IsThrowable c.hierarchy x → f.stack.Pops [x] rest →
      StackChange c index f (.branch .athrow) [x] (.ofList [x])

section Steps

variable {index : ℕ} {f f' : Frame}

lemma readLocal_ok_iff {slot : ℕ} {x : VType} :
    readLocal f slot = .ok x ↔ f.locals[slot]? = some x ∧ x ≠ .top := by
  unfold readLocal Frame.get
  rw [bind_ok_iff]
  cases f.locals[slot]? with
  | none => simp [Except.mapError]
  | some y =>
    simp only [Except.mapError, Except.ok.injEq, exists_eq_left', Option.some.injEq]
    split
    · rename_i hy
      constructor
      · intro h
        cases h
      · rintro ⟨rfl, hx⟩
        exact absurd hy hx
    · rename_i hy
      constructor
      · intro h
        cases h
        exact ⟨rfl, hy⟩
      · rintro ⟨rfl, -⟩
        rfl

lemma readExact_ok_iff {slot : ℕ} {x y : VType} :
    readExact f slot x = .ok y ↔ f.locals[slot]? = some y ∧ y ≠ .top ∧ y = x := by
  unfold readExact
  rw [bind_ok_iff]
  simp only [readLocal_ok_iff]
  constructor
  · rintro ⟨z, ⟨hslot, hz⟩, h⟩
    split at h
    · rename_i heq
      cases h
      exact ⟨hslot, hz, heq⟩
    · cases h
  · rintro ⟨hslot, hy, rfl⟩
    exact ⟨y, ⟨hslot, hy⟩, if_pos rfl⟩

lemma loaded_ok_iff {k : Kind} {slot : ℕ} {x : VType} :
    loaded f k slot = .ok x ↔ f.locals[slot]? = some x ∧ x ≠ .top ∧ k.Holds x := by
  cases k with
  | num n => exact readExact_ok_iff
  | ref =>
    unfold loaded
    rw [bind_ok_iff]
    simp only [readLocal_ok_iff]
    constructor
    · rintro ⟨z, ⟨hslot, hz⟩, h⟩
      split at h
      · rename_i href
        cases h
        exact ⟨hslot, hz, href⟩
      · cases h
    · rintro ⟨hslot, hx, href⟩
      exact ⟨x, ⟨hslot, hx⟩, if_pos href⟩

lemma stored_ok_iff {k : Kind} {x : VType} :
    stored k s = .ok (x, s') ↔ s.Pops [x] s' ∧ k.Holds x := by
  cases k with
  | num n =>
    unfold stored
    rw [map_ok_iff]
    simp only [popExact_ok_iff]
    constructor
    · rintro ⟨s₁, hpop, h⟩
      cases h
      exact ⟨hpop, rfl⟩
    · rintro ⟨hpop, rfl⟩
      exact ⟨s', hpop, rfl⟩
  | ref => exact popReference_ok_iff

lemma store_ok_iff {k : Kind} {slot : ℕ} : stepOp c index (.store k slot) f = .ok f' ↔
    ∃ x rest, f.stack.Pops [x] rest ∧ k.Holds x ∧ slot + width x ≤ f.locals.length ∧
      f' = ⟨Frame.write f.locals slot x, rest⟩ := by
  unfold stepOp
  simp only [bind_ok_iff, mapError_ok_iff, Prod.exists, stored_ok_iff]
  constructor
  · rintro ⟨x, rest, ⟨hpop, hk⟩, hset⟩
    rw [Frame.set_eq] at hset
    split at hset
    · cases hset
    · rename_i hroom
      cases hset
      exact ⟨x, rest, hpop, hk, Nat.le_of_not_lt hroom, rfl⟩
  · rintro ⟨x, rest, hpop, hk, hroom, rfl⟩
    exact ⟨x, rest, ⟨hpop, hk⟩, by rw [Frame.set_eq, if_neg (Nat.not_lt.2 hroom)]⟩

lemma stackChange_of_construct {m : MethodRef} (hname : m.name = .init)
    (h : construct c m f = .ok f') :
    ∃ vs, StackChange c index f (.op (.invoke .special m)) vs f'.stack := by
  obtain ⟨s, s', x, y, hargs, hpop, hy, rfl⟩ := construct_cases h
  obtain ⟨vs, hargs, hvs⟩ := popArguments_ok_iff.1 hargs
  have hpops := pops_append_iff.2 ⟨s, hargs, pops_singleton_iff.2 hpop⟩
  exact ⟨_, .construct hname hvs hy hpops⟩

lemma stackChange_of_applies {i : Instruction ℕ} (h : Applies c f.locals i f.stack s') :
    ∃ vs, StackChange c index f i vs s' := by
  obtain ⟨vs, ws, rest, hsig, hpops, rfl⟩ := h
  exact ⟨vs, .replace hsig hpops⟩

lemma stackChange_of_stepOp {o : Op} (h : stepOp c index o f = .ok f') :
    ∃ vs, StackChange c index f (.op o) vs f'.stack := by
  have hstack : onlyStack o = true →
      ((stackEffect c o f.stack).mapError StepFault.type >>= fun s =>
        .ok { f with stack := s }) = .ok f' → ∃ vs, StackChange c index f (.op o) vs f'.stack := by
    intro ho h
    obtain ⟨s, hs, h⟩ := bind_ok_iff.1 h
    cases h
    exact stackChange_of_applies ((stackEffect_ok_iff ho).1 (mapError_ok_iff.1 hs))
  cases o with
  | load k slot =>
    obtain ⟨x, hx, h⟩ := bind_ok_iff.1 h
    cases h
    obtain ⟨hslot, htop, hk⟩ := loaded_ok_iff.1 hx
    exact ⟨_, .replace (.load hslot htop hk) (.nil _)⟩
  | store k slot =>
    obtain ⟨x, rest, hpop, hk, hroom, rfl⟩ := store_ok_iff.1 h
    exact ⟨_, .replace (.store hk hroom) hpop⟩
  | iinc slot d =>
    obtain ⟨x, hx, h⟩ := bind_ok_iff.1 h
    cases h
    obtain ⟨hslot, -, rfl⟩ := readExact_ok_iff.1 hx
    exact ⟨_, .replace (.iinc hslot) (.nil _)⟩
  | new r =>
    unfold stepOp at h
    dsimp only at h
    split at h
    · cases h
    · split at h
      · cases h
      · rename_i harray hstale
        cases h
        exact ⟨_, .new (by simpa using harray) (by simpa using hstale)⟩
  | invoke k m =>
    unfold stepOp at h
    dsimp only at h
    by_cases hinit : isInit k m = true
    · rw [if_pos hinit] at h
      obtain ⟨rfl, hname⟩ : k = .special ∧ m.name = .init := by simpa [isInit] using hinit
      exact stackChange_of_construct hname (mapError_ok_iff.1 h)
    · rw [if_neg hinit] at h
      exact hstack (by simpa [onlyStack] using hinit) h
  | _ => exact hstack rfl h

lemma applies_of_returnEffect {k : Option Kind} (hallowed : returnAllowed c.method f = true)
    (h : returnEffect c k s = .ok s') : Applies c f.locals (.branch (.leave k)) s s' := by
  have hthis : c.method.mustInitialize = true → VType.uninitThis ∉ f.locals := by
    intro hinit hmem
    simp [returnAllowed, hinit, hmem] at hallowed
  unfold returnEffect at h
  dsimp only at h
  split at h
  · rename_i hfits
    cases hreturns : c.method.descriptor.returns with
    | none =>
      rw [hreturns] at h
      cases h
      exact ⟨[], [], s, .leave hthis hfits (by rw [hreturns]; exact .nil), .nil s, rfl⟩
    | some t =>
      rw [hreturns] at h
      obtain ⟨x, hpop, hx⟩ := popAssignable_ok_iff.1 h
      refine ⟨[x], [], s', .leave hthis hfits ?_, hpop, rfl⟩
      rw [hreturns]
      exact .cons hx .nil
  · cases h

lemma throwEffect_ok_iff {h : Hierarchy} : throwEffect h s = .ok s' ↔
    ∃ x rest, s.Pops [x] rest ∧ IsThrowable h x ∧ s' = .ofList [x] := by
  unfold throwEffect
  rw [bind_ok_iff]
  constructor
  · rintro ⟨⟨x, rest⟩, hpop, hx⟩
    have hpop := pops_singleton_iff.2 hpop
    dsimp only at hx
    split at hx
    · exact ⟨.null, rest, hpop, Or.inl rfl, (Except.ok.inj hx).symm⟩
    · split at hx
      · rename_i he
        exact ⟨_, rest, hpop, Or.inr ⟨_, rfl, he⟩, (Except.ok.inj hx).symm⟩
      · cases hx
    · cases hx
  · rintro ⟨x, rest, hpop, hx, rfl⟩
    refine ⟨(x, rest), pops_singleton_iff.1 hpop, ?_⟩
    rcases hx with rfl | ⟨e, rfl, he⟩
    · rfl
    · exact if_pos he

lemma stackChange_of_stepBranch {b : Branch ℕ} (h : stepBranch c b f = .ok f') :
    ∃ vs, StackChange c index f (.branch b) vs f'.stack := by
  have hstack : ∀ {x : Except TypeFault Stack},
      ((x.mapError StepFault.type).map fun s => { f with stack := s }) = .ok f' →
      x = .ok f'.stack := by
    intro x hx
    obtain ⟨s, hs, hx⟩ := map_ok_iff.1 hx
    cases hx
    exact mapError_ok_iff.1 hs
  cases b with
  | ifZero o t => exact ⟨_, .replace (.ifZero o t) (popExact_ok_iff.1 (hstack h))⟩
  | tableSwitch d low ts =>
    exact ⟨_, .replace (.tableSwitch d low ts) (popExact_ok_iff.1 (hstack h))⟩
  | lookupSwitch d cs => exact ⟨_, .replace (.lookupSwitch d cs) (popExact_ok_iff.1 (hstack h))⟩
  | ifInt o t => exact ⟨_, .replace (.ifInt o t) (popAll_ok_iff.1 (hstack h))⟩
  | ifRef o t =>
    obtain ⟨⟨x, s₁⟩, hx, h⟩ := bind_ok_iff.1 (hstack h)
    obtain ⟨⟨y, s₂⟩, hy, h⟩ := bind_ok_iff.1 h
    cases h
    obtain ⟨hpop, hx⟩ := popReference_ok_iff.1 hx
    obtain ⟨hpop', hy⟩ := popReference_ok_iff.1 hy
    exact ⟨_, .replace (.ifRef hx hy) (.cons (pops_singleton_iff.1 hpop) hpop')⟩
  | ifNull o t =>
    obtain ⟨⟨x, s₁⟩, hx, h⟩ := map_ok_iff.1 (hstack h)
    cases h
    obtain ⟨hpop, hx⟩ := popReference_ok_iff.1 hx
    exact ⟨_, .replace (.ifNull hx) hpop⟩
  | goto t =>
    cases h
    exact ⟨_, .replace (.goto t) (.nil _)⟩
  | leave k =>
    unfold stepBranch at h
    dsimp only at h
    split at h
    · rename_i hallowed
      exact stackChange_of_applies (applies_of_returnEffect hallowed (hstack h))
    · cases h
  | athrow =>
    obtain ⟨x, rest, hpop, hx, hs⟩ := throwEffect_ok_iff.1 (hstack h)
    rw [hs]
    exact ⟨_, .athrow hx hpop⟩
  | jsr t => cases h
  | ret slot => cases h

/-- **One instruction**: what it takes, and the stack that it leaves. -/
lemma stackChange_of_step {i : Instruction ℕ} (h : step c index i f = .ok f') :
    ∃ vs, StackChange c index f i vs f'.stack := by
  obtain ⟨f₁, heffect, h⟩ := bind_ok_iff.1 h
  split at h
  · cases h
  · cases h
    cases i with
    | op o => exact stackChange_of_stepOp heffect
    | branch b => exact stackChange_of_stepBranch heffect

end Steps

end Transfer

end Bytecheck
