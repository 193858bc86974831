import Mathlib.Tactic.Common
import Bytecheck.Proofs.Signatures

/-!
Where uninitialized objects can go.

The operands of an instruction are the values on top that it takes. An object on which no
constructor has returned can be moved on the stack, stored in a local, compared and initialized, and
a constructor can set the fields of its own class on it. No other instruction takes one, so that it
is never an argument, a result or an exception, and never in a field or an array.
-/

namespace Bytecheck

open Stack Transfer

/-! ### Operands -/

/-- The first values, as many as reach into the given number of slots. -/
def within : ℕ → List VType → List VType
  | 0, _ => []
  | _, [] => []
  | n + 1, x :: l => x :: within (n + 1 - width x) l

/-- How many values an operation takes, stack operations apart: they count slots. -/
def Op.arity : Op → ℕ
  | .nop | .aconstNull | .ldc _ | .ldc2 _ | .load _ _ | .iinc _ _ | .getStatic _ | .new _ => 0
  | .store _ _ | .putStatic _ | .getField _ | .newArray _ | .anewArray _ | .arrayLength
  | .checkCast _ | .instanceOf _ | .monitorEnter | .monitorExit => 1
  | .arrayLoad _ | .putField _ => 2
  | .arrayStore _ => 3
  | .calc f => f.operands.length
  | .invoke k m => m.descriptor.parameters.length + if k = .static then 0 else 1
  | .invokeDynamic d => d.descriptor.parameters.length
  | .multiANewArray _ n => n
  | .stack _ => 0

/-- How many values a branch takes. -/
def Branch.arity : Branch ℕ → ℕ
  | .goto _ | .jsr _ | .ret _ => 0
  | .ifZero _ _ | .ifNull _ _ | .tableSwitch _ _ _ | .lookupSwitch _ _ | .athrow => 1
  | .ifInt _ _ | .ifRef _ _ => 2
  | .leave k => k.toList.length

/-- The values that an instruction takes from a stack, the top one first. -/
def Instruction.operands (i : Instruction ℕ) (s : Stack) : List VType :=
  match i with
  | .op (.stack o) => within o.reach s.toList.reverse
  | .op o => s.toList.reverse.take o.arity
  | .branch b => s.toList.reverse.take b.arity

section Operands

variable {c : Context} {locals : List VType} {index : ℕ} {f : Frame} {i : Instruction ℕ}
  {s s' rest : Stack} {vs ws l : List VType}

lemma within_append {n : ℕ} (hvs : slots vs = n) : within n (vs ++ l) = vs := by
  induction vs generalizing n with
  | nil =>
    rw [← hvs, slots_nil, within]
  | cons x vs ih =>
    rw [slots_cons] at hvs
    obtain ⟨n, rfl⟩ : ∃ k, n = k + 1 := by
      refine ⟨n - 1, ?_⟩
      rcases Frame.width_two_or_one x with hx | hx <;> omega
    rw [List.cons_append, within, ih (by omega)]

lemma Stack.Pops.toList (h : s.Pops vs rest) :
    s.toList.reverse = vs ++ rest.toList.reverse := by
  induction h with
  | nil s => rfl
  | cons hpop _ ih =>
    obtain ⟨o, ho⟩ := pop_entries hpop
    simp only [SlotVec.toList, ho, ← List.map_reverse, List.reverse_reverse] at ih ⊢
    simp [ih]

lemma Stack.Pops.take {n : ℕ} (h : s.Pops vs rest) (hlen : vs.length = n) :
    s.toList.reverse.take n = vs := by
  rw [h.toList, List.take_left' hlen]

lemma Stack.Fit.length {h : Hierarchy} {ps : List FieldType} (hvs : Fit h vs ps) :
    vs.length = ps.length := by
  rw [List.Forall₂.length_eq hvs, List.length_reverse]

lemma Transfer.length_of_returnFits {returns : Option FieldType} {k : Option Kind}
    (hfits : returnFits k (returns.map VType.ofField) = true) :
    returns.toList.length = k.toList.length := by
  cases k with
  | none =>
    cases returns with
    | none => rfl
    | some t => cases hfits
  | some k =>
    cases returns with
    | none => cases k <;> cases hfits
    | some t => rfl

lemma Transfer.Signature.operands_eq (h : Signature c locals i vs ws) (hpops : s.Pops vs rest) :
    i.operands s = vs := by
  cases h with
  | shuffle ha hb =>
    rw [Instruction.operands, hpops.toList]
    exact within_append (by rw [slots_append, ha, hb, StackOp.reach])
  | calculate f => exact hpops.take (List.length_map _)
  | callStatic hvs => exact hpops.take hvs.length
  | call hinit hk hfits hvs hx => exact hpops.take (by simp [Op.arity, hvs.length, hk])
  | callDynamic hvs => exact hpops.take hvs.length
  | multiANewArray => exact hpops.take List.length_replicate
  | leave hthis hfits hvs =>
    exact hpops.take ((List.Forall₂.length_eq hvs).trans (length_of_returnFits hfits))
  | _ => exact hpops.take rfl

lemma Transfer.StackChange.operands_eq (h : StackChange c index f i vs s') :
    i.operands f.stack = vs := by
  cases h with
  | replace hsig hpops => exact hsig.operands_eq hpops
  | new => rfl
  | construct hname hvs hy hpops => exact hpops.take (by simp [Op.arity, hvs.length])
  | athrow hx hpops => exact hpops.take rfl

end Operands

/-! ### Uses of uninitialized objects -/

/-- The uses of an uninitialized object as an operand of an instruction, at the given distance from
the top. -/
inductive MayTake (c : Context) : Instruction ℕ → ℕ → VType → Prop
  | stack (o : StackOp) (k : ℕ) (t : VType) : MayTake c (.op (.stack o)) k t
  | store (slot k : ℕ) (t : VType) : MayTake c (.op (.store .ref slot)) k t
  | ifRef (o : Equality) (target k : ℕ) (t : VType) : MayTake c (.branch (.ifRef o target)) k t
  | ifNull (o : Equality) (target k : ℕ) (t : VType) : MayTake c (.branch (.ifNull o target)) k t
  | construct {m : MethodRef} (t : VType) : m.name = .init →
      MayTake c (.op (.invoke .special m)) m.descriptor.parameters.length t
  | putField {f : FieldRef} : c.method.isConstructor = true → f.owner = c.method.owner →
      MayTake c (.op (.putField f)) 1 .uninitThis

section Uses

variable {c : Context} {locals : List VType} {index : ℕ} {f f' : Frame} {i : Instruction ℕ}
  {s' : Stack} {vs ws : List VType} {x t : VType} {k : ℕ}

lemma isUninitialized_of_field {h : Hierarchy} {p : FieldType}
    (hx : x.isAssignable h (.ofField p) = true) : x.isUninitialized = false := by
  cases p with
  | base b =>
    cases x with
    | uninitThis => cases b <;> cases hx
    | uninit r i => cases b <;> cases hx
    | _ => rfl
  | ref r => exact isUninitialized_of_assignable hx

@[simp] lemma isUninitialized_int : VType.int.isUninitialized = false := rfl

@[simp] lemma isUninitialized_vtype (n : Num) : n.vtype.isUninitialized = false := by
  cases n <;> rfl

lemma isUninitialized_of_primitives {e : ElementKind} {b : BaseType} {bs : List BaseType}
    (h : primitives e = some (b, bs, x)) : x.isUninitialized = false := by
  cases e <;> cases h <;> rfl

lemma Stack.IsObject.initialized (hx : IsObject x) : x.isUninitialized = false := by
  rcases hx with rfl | ⟨r, rfl⟩
  · rfl
  · rfl

lemma Stack.IsArrayOf.isObject {bs : List BaseType} (hx : IsArrayOf bs x) : IsObject x := by
  rcases hx with rfl | ⟨r, -, -, rfl, -⟩
  · exact Or.inl rfl
  · exact Or.inr ⟨r, rfl⟩

lemma Stack.IsArrayOfRefs.isObject {e : Option RefType} (hx : IsArrayOfRefs e x) : IsObject x := by
  rcases hx with ⟨rfl, -⟩ | ⟨r, -, rfl, -, -⟩
  · exact Or.inl rfl
  · exact Or.inr ⟨r, rfl⟩

lemma Transfer.IsThrowable.isObject {h : Hierarchy} (hx : IsThrowable h x) : IsObject x := by
  rcases hx with rfl | ⟨e, rfl, -⟩
  · exact Or.inl rfl
  · exact Or.inr ⟨_, rfl⟩

lemma initialized_of_fields {h : Hierarchy} {ps : List FieldType}
    (hvs : List.Forall₂ (fun x p => x.isAssignable h (.ofField p) = true) vs ps) :
    ∀ x ∈ vs, x.isUninitialized = false := by
  induction hvs with
  | nil => simp
  | cons hx _ ih => simpa [isUninitialized_of_field hx] using ih

/-- Only uses that are listed take an uninitialized value. -/
lemma Transfer.Signature.mayTake (h : Signature c locals i vs ws) (hk : vs[k]? = some t)
    (ht : t.isUninitialized = true) : MayTake c i k t := by
  -- most signatures hold no such value
  have hnone : (∀ x ∈ vs, x.isUninitialized = false) → MayTake c i k t := by
    intro hvs
    rw [hvs t (List.mem_of_getElem? hk)] at ht
    cases ht
  cases h with
  | shuffle => exact .stack _ k t
  | ifRef => exact .ifRef _ _ k t
  | ifNull => exact .ifNull _ _ k t
  | @store kind slot x hx =>
    cases kind with
    | num n =>
      subst hx
      exact hnone (by simp)
    | ref => exact .store slot k t
  | putOwnField hv hinit hown =>
    match k with
    | 0 =>
      cases hk
      rw [isUninitialized_of_field hv] at ht
      cases ht
    | 1 =>
      cases hk
      exact .putField hinit hown
    | k + 2 => cases hk
  | calculate f => exact hnone (by simp)
  | loadPrimitive hp hx => exact hnone (by simp [hx.isObject.initialized])
  | loadReference hx => exact hnone (by simp [hx.isObject.initialized])
  | storePrimitive hp hx =>
    exact hnone (by simp [isUninitialized_of_primitives hp, hx.isObject.initialized])
  | storeReference hv hx =>
    exact hnone (by simp [hv.initialized, hx.isObject.initialized])
  | putStatic hx => exact hnone (by simp [isUninitialized_of_field hx])
  | getField hx => exact hnone (by simpa using isUninitialized_of_assignable hx)
  | putField hv hx =>
    exact hnone (by simpa [isUninitialized_of_field hv] using isUninitialized_of_assignable hx)
  | callStatic hvs => exact hnone (initialized_of_fields hvs)
  | call hinit hk hfits hvs hx =>
    refine hnone (List.forall_mem_append.2 ⟨initialized_of_fields hvs, ?_⟩)
    simpa using isUninitialized_of_assignable hx
  | callDynamic hvs => exact hnone (initialized_of_fields hvs)
  | multiANewArray => exact hnone (by simp)
  | arrayLength hx =>
    have hobject : IsObject _ := hx.imp_right fun ⟨r, hr, _⟩ => ⟨r, hr⟩
    exact hnone (by simp [hobject.initialized])
  | checkCast hx | instanceOf hx | monitorEnter hx | monitorExit hx =>
    exact hnone (by simp [hx.initialized])
  | leave hthis hfits hvs => exact hnone (initialized_of_fields hvs)
  | _ => exact hnone (by simp)

lemma Transfer.StackChange.mayTake (h : StackChange c index f i vs s') (hk : vs[k]? = some t)
    (ht : t.isUninitialized = true) : MayTake c i k t := by
  cases h with
  | replace hsig => exact hsig.mayTake hk ht
  | new => cases hk
  | @construct m vs x y rest hname hvs =>
    -- the arguments are initialized, and below them is the receiver
    by_cases hlt : k < vs.length
    · rw [List.getElem?_append_left hlt] at hk
      rw [initialized_of_fields hvs t (List.mem_of_getElem? hk)] at ht
      cases ht
    · have hlast : k = m.descriptor.parameters.length := by
        have hbound := (List.getElem?_eq_some_iff.1 hk).1
        rw [List.length_append, List.length_singleton] at hbound
        rw [← hvs.length]
        omega
      rw [hlast]
      exact .construct t hname
  | athrow hx =>
    have hmem := List.mem_of_getElem? hk
    rw [List.mem_singleton] at hmem
    rw [hmem, hx.isObject.initialized] at ht
    cases ht

/-- **No uninitialized object escapes.** An instruction that succeeds takes its operands from the
stack. One that is an uninitialized object is moved, stored in a local, compared, the receiver of a
constructor call, or the receiver of a constructor that sets a field of its own class. -/
theorem uninitialized_operand_uses (hstep : step c index i f = .ok f') :
    StackChange c index f i (i.operands f.stack) f'.stack ∧
      ∀ k t, (i.operands f.stack)[k]? = some t → t.isUninitialized = true → MayTake c i k t := by
  obtain ⟨vs, hchange⟩ := stackChange_of_step hstep
  rw [hchange.operands_eq]
  exact ⟨hchange, fun k t hk ht => hchange.mayTake hk ht⟩

end Uses

/-! ### A constructor that sets a field -/

namespace HalfBuilt

def owner : BinaryName := ⟨"p/Nest", by decide +kernel⟩

def field : FieldRef := ⟨owner, ⟨"eggs", by decide +kernel⟩, .base .int⟩

def context : Context := ⟨ClassTable.hierarchy ⟨[]⟩, ⟨owner, .init, ⟨[], none⟩, ⟨1⟩⟩, 2⟩

/-- The receiver is not initialized, and below the value for its field. -/
def frame : Frame := ⟨[.uninitThis], .ofList [.uninitThis, .int]⟩

/-- The field is set on the uninitialized receiver. -/
theorem uninitialized_operand_uses_putField : ∃ f',
    step context 0 (.op (.putField field)) frame = .ok f' ∧
    MayTake context (.op (.putField field)) 1 .uninitThis := by
  have hstep : step context 0 (.op (.putField field)) frame = .ok ⟨[.uninitThis], .empty⟩ := rfl
  exact ⟨_, hstep, (uninitialized_operand_uses hstep).2 1 .uninitThis rfl rfl⟩

end HalfBuilt

end Bytecheck
