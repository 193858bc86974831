import Mathlib.Data.Int.Notation
import Mathlib.Tactic.Common
import Bytecheck.Proofs.ArgumentLayout

/-!
Instructions work on top of the stack.

How many slots an instruction takes and puts is written in the instruction: the types of the values
on the stack have no part in it. What lies below the operands is not looked at either, so that a
stack can stand on any other one. Three instructions are left out of this. A throw clears the stack,
and a `new` and a constructor call search all of it for copies of an object.
-/

namespace Bytecheck

open Stack Transfer Analysis

/-! ### Slots taken and put -/

/-- The slots of an element on the stack. -/
def ElementKind.slots : ElementKind → ℕ
  | .long | .double => 2
  | .int | .float | .ref | .byte | .char | .short => 1

namespace Op

/-- The slots that an operation takes from the stack. -/
def popped : Op → ℕ
  | .nop | .aconstNull | .ldc _ | .ldc2 _ | .load _ _ | .iinc _ _ | .getStatic _ | .new _ => 0
  | .getField _ | .newArray _ | .anewArray _ | .arrayLength | .checkCast _ | .instanceOf _
  | .monitorEnter | .monitorExit => 1
  | .calc f => Bytecheck.slots (f.operands.map Num.vtype)
  | .store k _ => width k
  | .arrayLoad _ => 2
  | .arrayStore k => k.slots + 2
  | .stack o => o.reach
  | .putStatic f => width f.type
  | .putField f => width f.type + 1
  | .invoke k m => m.descriptor.argumentSlots (k ≠ .static)
  | .invokeDynamic d => d.descriptor.argumentSlots false
  | .multiANewArray _ n => n

/-- The slots that an operation puts on the stack. -/
def pushed : Op → ℕ
  | .nop | .store _ _ | .iinc _ _ | .arrayStore _ | .putStatic _ | .putField _ | .monitorEnter
  | .monitorExit => 0
  | .aconstNull | .ldc _ | .new _ | .newArray _ | .anewArray _ | .multiANewArray _ _ | .arrayLength
  | .checkCast _ | .instanceOf _ => 1
  | .ldc2 _ => 2
  | .calc f => width f.result.vtype
  | .load k _ => width k
  | .arrayLoad k => k.slots
  | .stack .pop | .stack .pop2 => 0
  | .stack .swap => 2
  | .stack o => o.reach + o.taken
  | .getStatic f => width f.type
  | .getField f => width f.type
  | .invoke k m => if isInit k m then 0 else m.descriptor.returns.elim 0 width
  | .invokeDynamic d => d.descriptor.returns.elim 0 width

end Op

/-- The slots that a branch takes from the stack. It puts none there, a throw apart. -/
def Branch.popped : Branch ℕ → ℕ
  | .goto _ | .jsr _ | .ret _ => 0
  | .ifZero _ _ | .ifNull _ _ | .tableSwitch _ _ _ | .lookupSwitch _ _ | .athrow => 1
  | .ifInt _ _ | .ifRef _ _ => 2
  | .leave k => k.elim 0 width

namespace Instruction

/-- The slots that an instruction takes from the stack. -/
def popped : Instruction ℕ → ℕ
  | .op o => o.popped
  | .branch b => b.popped

/-- The slots that an instruction puts on the stack. -/
def pushed : Instruction ℕ → ℕ
  | .op o => o.pushed
  | .branch _ => 0

/-- A call of a constructor. -/
def isConstruct : Instruction ℕ → Bool
  | .op (.invoke k m) => isInit k m
  | _ => false

end Instruction

section Slots

variable {c : Context} {h : Hierarchy} {locals vs ws : List VType} {i : Instruction ℕ} {x : VType}

lemma Num.width_vtype (n : Num) : width n.vtype = width n := by cases n <;> rfl

lemma VType.ofField_ne_top (t : FieldType) : VType.ofField t ≠ .top := fun ht =>
  top_notMem_fields [t] (by simp [ht])

lemma Kind.Holds.width_eq {k : Kind} (hx : k.Holds x) : width x = width k := by
  cases k with
  | num n =>
    rw [show x = n.vtype from hx]
    exact n.width_vtype
  | ref => cases x <;> first | rfl | cases hx

lemma width_of_field {t : FieldType} (hx : x.isAssignable h (.ofField t) = true) :
    width x = width t := by
  rw [width_of_isAssignable hx (VType.ofField_ne_top t), width_ofField]

lemma width_of_object {r : RefType} (hx : x.isAssignable h (.object r) = true) : width x = 1 :=
  width_of_isAssignable hx (by simp)

lemma width_of_isReference (hx : x.isReference = true) : width x = 1 :=
  Kind.Holds.width_eq (k := .ref) hx

lemma Stack.IsObject.width_eq (hx : IsObject x) : width x = 1 := by
  rcases hx with rfl | ⟨r, rfl⟩ <;> rfl

lemma Stack.IsArrayOf.width_eq {bs : List BaseType} (hx : IsArrayOf bs x) : width x = 1 := by
  rcases hx with rfl | ⟨r, b, -, rfl, -⟩ <;> rfl

lemma Stack.IsArrayOfRefs.width_eq {e : Option RefType} (hx : IsArrayOfRefs e x) : width x = 1 := by
  rcases hx with ⟨rfl, -⟩ | ⟨r, e, rfl, -, -⟩ <;> rfl

lemma Transfer.width_of_primitives {k : ElementKind} {b : BaseType} {bs : List BaseType}
    (hk : primitives k = some (b, bs, x)) : width x = k.slots := by
  cases k <;> cases hk <;> rfl

lemma Stack.Fit.slots_eq {d : MethodDescriptor} (hvs : Fit h vs d.parameters) :
    slots vs = d.argumentSlots false := by
  rw [argumentSlots_eq, ← slots_reverse, slots_of_isAssignable hvs.fields (top_notMem_fields _)]
  simp

lemma slots_replicate_int (n : ℕ) : slots (List.replicate n VType.int) = n := by
  induction n with
  | zero => rfl
  | succ n ih => rw [List.replicate_succ, slots_cons, ih, Nat.add_comm]; rfl

lemma StackOp.slots_arrange {o : StackOp} {a b : List VType} (ha : slots a = o.taken)
    (hb : slots b = o.passed) : slots (o.arrange a b) = Op.pushed (.stack o) := by
  cases o <;> simp [arrange, Op.pushed, reach, ha, hb] <;> simp [taken, passed]

lemma Transfer.width_of_returnFits {k : Kind} (hfits : returnFits (some k) (some x) = true) :
    width x = width k := by
  cases k with
  | num n =>
    rw [show x = n.vtype from of_decide_eq_true hfits]
    exact n.width_vtype
  | ref =>
    cases x with
    | object r => rfl
    | _ => cases hfits

lemma Transfer.slots_of_returnFits {k : Option Kind} {returns : Option FieldType}
    (hfits : returnFits k (returns.map VType.ofField) = true)
    (hvs : List.Forall₂ (fun x t => x.isAssignable h (.ofField t) = true) vs returns.toList) :
    slots vs = k.elim 0 width := by
  cases returns with
  | none =>
    cases hvs
    cases k with
    | none => rfl
    | some k => cases k <;> cases hfits
  | some t =>
    cases hvs with
    | cons hx hl =>
      cases hl
      cases k with
      | none => cases hfits
      | some k =>
        exact (width_of_isAssignable hx (VType.ofField_ne_top t)).trans (width_of_returnFits hfits)

/-- **Slots**: those of the operands and of the results are the ones of the instruction. -/
lemma Transfer.Signature.slots_eq (hsig : Signature c locals i vs ws) :
    slots vs = i.popped ∧ slots ws = i.pushed := by
  have hcall := hsig
  cases hsig with
  | nop | aconstNull | calculate | newArray | anewArray | ifZero | ifInt | goto | tableSwitch
  | lookupSwitch | iinc => exact ⟨rfl, rfl⟩
  | ldc hk | ldc2 hk => exact ⟨rfl, hk⟩
  | load _ _ hx => exact ⟨rfl, hx.width_eq⟩
  | store hx => exact ⟨hx.width_eq, rfl⟩
  | loadPrimitive hk hx =>
    exact ⟨congrArg (1 + ·) hx.width_eq, width_of_primitives hk⟩
  | @loadReference e _ hx =>
    refine ⟨congrArg (1 + ·) hx.width_eq, ?_⟩
    cases e <;> rfl
  | storePrimitive hk hx =>
    refine ⟨?_, rfl⟩
    simp only [slots_cons, slots_nil, width_of_primitives hk, hx.width_eq]
    rfl
  | storeReference hv hx =>
    refine ⟨?_, rfl⟩
    simp only [slots_cons, slots_nil, hv.width_eq, hx.width_eq]
    rfl
  | shuffle ha hb =>
    rw [slots_append, slots_reverse, StackOp.slots_arrange ha hb, ha, hb]
    exact ⟨rfl, rfl⟩
  | getStatic f => exact ⟨rfl, width_ofField f.type⟩
  | putStatic hx => exact ⟨width_of_field hx, rfl⟩
  | @getField f _ hx => exact ⟨width_of_object hx, width_ofField f.type⟩
  | putField hv hx =>
    refine ⟨?_, rfl⟩
    simp only [slots_cons, slots_nil, width_of_field hv, width_of_object hx]
    rfl
  | putOwnField hv =>
    refine ⟨?_, rfl⟩
    simp only [slots_cons, slots_nil, width_of_field hv]
    rfl
  | @callStatic m _ hvs => exact ⟨hvs.slots_eq, slots_results m.descriptor⟩
  | @call k m _ _ hinit =>
    refine ⟨slots_of_signature hcall, (slots_results m.descriptor).trans ?_⟩
    rw [Instruction.pushed, Op.pushed, if_neg (by simp [hinit])]
  | @callDynamic d _ hvs => exact ⟨hvs.slots_eq, slots_results d.descriptor⟩
  | @multiANewArray _ n => exact ⟨slots_replicate_int n, rfl⟩
  | arrayLength hx =>
    refine ⟨?_, rfl⟩
    rcases hx with rfl | ⟨r, rfl, -⟩ <;> rfl
  | checkCast hx | instanceOf hx | monitorEnter hx | monitorExit hx => exact ⟨hx.width_eq, rfl⟩
  | ifRef hx hy =>
    refine ⟨?_, rfl⟩
    simp only [slots_cons, slots_nil, width_of_isReference hx, width_of_isReference hy]
    rfl
  | ifNull hx => exact ⟨width_of_isReference hx, rfl⟩
  | leave _ hfits hvs => exact ⟨slots_of_returnFits hfits hvs, rfl⟩

end Slots

/-! ### The depth of the stack -/

namespace Transfer

variable {c : Context} {index : ℕ} {i : Instruction ℕ} {f f' : Frame} {s : Stack} {vs : List VType}

lemma StackChange.height_eq (hf : f.stack = .ofList f.stack.toList) (hthrow : i ≠ .branch .athrow)
    (h : StackChange c index f i vs s) : s.height + i.popped = f.stack.height + i.pushed := by
  rw [ofList_eq_pile] at hf
  generalize f.stack.toList.reverse = l at hf
  cases h with
  | @replace _ _ ws rest hsig hpops =>
    rw [hf] at hpops ⊢
    obtain ⟨r, rfl, rfl⟩ := pops_pile_iff.1 hpops
    obtain ⟨hvs, hws⟩ := hsig.slots_eq
    rw [pile_append, height_pile, height_pile, slots_append, slots_append, slots_reverse, hvs, hws]
    omega
  | new => rfl
  | @construct m vs x y rest hname hvs hy hpops =>
    rw [hf] at hpops ⊢
    obtain ⟨r, rfl, rfl⟩ := pops_pile_iff.1 hpops
    have hx : width x = 1 := by cases x <;> first | rfl | cases hy
    have hinit : isInit .special m = true := by simp [isInit, hname]
    have hput : (Instruction.op (.invoke .special m)).pushed = 0 := if_pos hinit
    have htake : (Instruction.op (.invoke .special m)).popped = slots vs + 1 := by
      rw [hvs.slots_eq]
      simp [Instruction.popped, Op.popped, argumentSlots_eq, Nat.add_comm]
    rw [height_pile, slots_append, slots_append, slots_cons, slots_nil, hx, hput, htake]
    change (pile r).height + _ = _
    rw [height_pile]
    omega
  | athrow => exact absurd rfl hthrow

/-- **Depth**: what an instruction adds to the depth of the stack and takes from it is written in
the instruction. -/
lemma depth_of_step (hf : f.stack = .ofList f.stack.toList) (hthrow : i ≠ .branch .athrow)
    (h : step c index i f = .ok f') : f'.depth + i.popped = f.depth + i.pushed := by
  obtain ⟨vs, hchange⟩ := stackChange_of_step h
  exact hchange.height_eq hf hthrow

end Transfer

/-! ### Stacks on top of one another -/

/-- The values of the second stack, put on the first one. -/
instance : Append Stack := ⟨fun p s => p.append s.toList⟩

namespace Stack

variable {p s rest : Stack} {vs : List VType}

lemma above_append (p s : Stack) (ws : List VType) : p ++ s.append ws = (p ++ s).append ws := by
  change p.append (s.append ws).toList = (p.append s.toList).append ws
  rw [SlotVec.toList_append]
  exact List.foldl_append

lemma Pops.above (p : Stack) (h : s.Pops vs rest) : (p ++ s).Pops vs (p ++ rest) := by
  induction h with
  | nil s => exact .nil _
  | @cons s s₁ rest x vs hpop _ ih =>
    obtain ⟨o, ho⟩ := pop_entries hpop
    have hlist : s.toList = s₁.toList ++ [x] := by simp [SlotVec.toList, ho]
    have hpush : p ++ s = (p ++ s₁).push x := by
      change p.append s.toList = (p.append s₁.toList).push x
      rw [hlist]
      exact List.foldl_append
    refine .cons ?_ ih
    rw [hpush]
    rfl

end Stack

/-! ### What an instruction does, from its signature -/

namespace Transfer

variable {c : Context} {index : ℕ} {i : Instruction ℕ} {f f' : Frame} {rest : Stack}
  {vs ws : List VType}

/-- The locals when an instruction has taken the values: a store writes what it took. -/
def localsAfter (locals : List VType) : Instruction ℕ → List VType → List VType
  | .op (.store _ slot), [x] => Frame.write locals slot x
  | _, _ => locals

/-- Operations that look at the stack alone. -/
lemma stepOp_eq {o : Op} (ho : onlyStack o = true) : stepOp c index o f =
    ((stackEffect c o f.stack).mapError .type).map fun s => { f with stack := s } := by
  cases o with
  | load => cases ho
  | store => cases ho
  | iinc => cases ho
  | new => cases ho
  | invoke k m =>
    unfold stepOp
    dsimp only
    rw [if_neg (by simpa [onlyStack] using ho)]
    rfl
  | _ => rfl

lemma effect_of_applies {o : Op} {s : Stack} (ho : onlyStack o = true)
    (h : Applies c f.locals (.op o) f.stack s) :
    effect c index (.op o) f = .ok { f with stack := s } := by
  rw [effect, stepOp_eq ho, stackEffect_of_applies ho h]
  rfl

lemma effect_of_leave {k : Option Kind} (h : Signature c f.locals (.branch (.leave k)) vs ws)
    (hpops : f.stack.Pops vs rest) :
    effect c index (.branch (.leave k)) f = .ok { f with stack := rest.append ws } := by
  cases h with
  | leave hthis hfits hvs =>
    have hallowed : returnAllowed c.method f = true := by
      cases hinit : c.method.mustInitialize with
      | false => simp [returnAllowed, hinit]
      | true => simpa [returnAllowed, hinit] using hthis hinit
    have hreturn : returnEffect c k f.stack = .ok rest := by
      unfold returnEffect
      dsimp only
      rw [if_pos hfits]
      cases hreturns : c.method.descriptor.returns with
      | none =>
        rw [hreturns] at hvs
        cases hvs
        rw [pops_nil_iff.1 hpops]
      | some t =>
        rw [hreturns] at hvs
        cases hvs with
        | cons hx hl =>
          cases hl
          exact popAssignable_ok_iff.2 ⟨_, hpops, hx⟩
    unfold effect stepBranch
    dsimp only
    rw [if_pos hallowed, hreturn]
    rfl

/-- An instruction with a signature for the values on top succeeds. -/
lemma effect_of_signature (h : Signature c f.locals i vs ws) (hpops : f.stack.Pops vs rest) :
    effect c index i f = .ok ⟨localsAfter f.locals i vs, rest.append ws⟩ := by
  have happlies : Applies c f.locals i f.stack (rest.append ws) := ⟨vs, ws, rest, h, hpops, rfl⟩
  have hleave := h
  cases h with
  | load hslot htop hk =>
    rw [pops_nil_iff.1 hpops]
    exact bind_ok_iff.2 ⟨_, loaded_ok_iff.2 ⟨hslot, htop, hk⟩, rfl⟩
  | store hk hroom =>
    rw [effect]
    exact store_ok_iff.2 ⟨_, rest, hpops, hk, hroom, rfl⟩
  | iinc hslot =>
    rw [pops_nil_iff.1 hpops]
    exact bind_ok_iff.2 ⟨_, readExact_ok_iff.2 ⟨hslot, by simp, rfl⟩, rfl⟩
  | ifZero | tableSwitch | lookupSwitch =>
    exact map_ok_iff.2 ⟨rest, mapError_ok_iff.2 (popExact_ok_iff.2 hpops), rfl⟩
  | ifInt => exact map_ok_iff.2 ⟨rest, mapError_ok_iff.2 (popAll_ok_iff.2 hpops), rfl⟩
  | @ifRef _ _ x y hx hy =>
    obtain ⟨s₁, hfirst, hsecond⟩ := pops_cons_iff.1 hpops
    refine map_ok_iff.2 ⟨rest, mapError_ok_iff.2 (bind_ok_iff.2 ⟨(x, s₁), ?_, ?_⟩), rfl⟩
    · exact popReference_ok_iff.2 ⟨pops_singleton_iff.2 hfirst, hx⟩
    · exact bind_ok_iff.2 ⟨(y, rest), popReference_ok_iff.2 ⟨hsecond, hy⟩, rfl⟩
  | @ifNull _ _ x hx =>
    refine map_ok_iff.2 ⟨rest, mapError_ok_iff.2 (map_ok_iff.2 ⟨(x, rest), ?_, rfl⟩), rfl⟩
    exact popReference_ok_iff.2 ⟨hpops, hx⟩
  | goto =>
    rw [pops_nil_iff.1 hpops]
    rfl
  | leave => exact effect_of_leave hleave hpops
  | call hinit => exact effect_of_applies (by simp [onlyStack, hinit]) happlies
  | _ => exact effect_of_applies rfl happlies

/-- The instructions that deal with the values on top of the stack and with locals by their
number. -/
def staysOnTop : Instruction ℕ → Bool
  | .op (.new _) | .branch .athrow => false
  | i => !i.isConstruct

lemma staysOnTop_of_ne (hthrow : i ≠ .branch .athrow) (hnew : ∀ r, i ≠ .op (.new r))
    (hinit : i.isConstruct = false) : staysOnTop i = true := by
  unfold staysOnTop
  split
  · exact absurd rfl (hnew _)
  · exact absurd rfl hthrow
  · simp [hinit]

lemma signature_of_effect (hi : staysOnTop i = true) (h : effect c index i f = .ok f') :
    ∃ vs ws rest, Signature c f.locals i vs ws ∧ f.stack.Pops vs rest ∧
      f' = ⟨localsAfter f.locals i vs, rest.append ws⟩ := by
  by_cases hstore : ∃ k slot, i = .op (.store k slot)
  · obtain ⟨k, slot, rfl⟩ := hstore
    rw [effect] at h
    obtain ⟨x, rest, hpop, hk, hroom, rfl⟩ := store_ok_iff.1 h
    exact ⟨_, _, rest, .store hk hroom, hpop, rfl⟩
  · have hlocals : f'.locals = f.locals := by
      cases i with
      | branch b => exact locals_of_stepBranch h
      | op o =>
        have hchange := locals_of_stepOp h
        generalize f'.locals = l at hchange
        cases hchange with
        | same => rfl
        | store => exact absurd ⟨_, _, rfl⟩ hstore
        | construct hname => simp [staysOnTop, Instruction.isConstruct, isInit, hname] at hi
    have hafter : ∀ vs, localsAfter f.locals i vs = f.locals := by
      intro vs
      unfold localsAfter
      split
      · exact absurd ⟨_, _, rfl⟩ hstore
      · rfl
    have hstack : ∃ vs, StackChange c index f i vs f'.stack := by
      cases i with
      | op o => exact stackChange_of_stepOp h
      | branch b => exact stackChange_of_stepBranch h
    obtain ⟨vs, hchange⟩ := hstack
    generalize hs : f'.stack = s at hchange
    cases hchange with
    | @replace _ _ ws rest hsig hpops =>
      exact ⟨vs, ws, rest, hsig, hpops, Frame.eq_of (hlocals.trans (hafter vs).symm) hs⟩
    | new => cases hi
    | construct hname => simp [staysOnTop, Instruction.isConstruct, isInit, hname] at hi
    | athrow => cases hi

/-- **Instructions on top** succeed if and only if they have a signature for the values there, and
do what it says. -/
lemma effect_ok_iff (hi : staysOnTop i = true) : effect c index i f = .ok f' ↔
    ∃ vs ws rest, Signature c f.locals i vs ws ∧ f.stack.Pops vs rest ∧
      f' = ⟨localsAfter f.locals i vs, rest.append ws⟩ := by
  refine ⟨signature_of_effect hi, ?_⟩
  rintro ⟨vs, ws, rest, hsig, hpops, rfl⟩
  exact effect_of_signature hsig hpops

lemma step_ok_iff : step c index i f = .ok f' ↔
    effect c index i f = .ok f' ∧ f'.depth ≤ c.maxStack := by
  unfold step
  rw [bind_ok_iff]
  constructor
  · rintro ⟨f₁, heffect, h⟩
    split at h
    · cases h
    · rename_i hroom
      cases h
      exact ⟨heffect, Nat.le_of_not_lt hroom⟩
  · rintro ⟨heffect, hroom⟩
    exact ⟨f', heffect, if_neg (Nat.not_lt.2 hroom)⟩

/-- **One instruction on a higher stack** does to the values on top what it does to them alone. -/
lemma step_above {l l' : List VType} {s s' : Stack} (hi : staysOnTop i = true)
    (h : step c index i ⟨l, s⟩ = .ok ⟨l', s'⟩) {p : Stack} (hroom : (p ++ s').height ≤ c.maxStack) :
    step c index i ⟨l, p ++ s⟩ = .ok ⟨l', p ++ s'⟩ := by
  obtain ⟨heffect, -⟩ := step_ok_iff.1 h
  obtain ⟨vs, ws, rest, hsig, hpops, hf'⟩ := (effect_ok_iff hi).1 heffect
  cases hf'
  refine step_ok_iff.2 ⟨(effect_ok_iff hi).2 ⟨vs, ws, p ++ rest, hsig, hpops.above p, ?_⟩, hroom⟩
  rw [above_append]

/-- **Stack effects are local.** Of an instruction other than a throw, the change of the depth of
the stack is the same on all frames on which it succeeds. If it is neither a `new` nor a constructor
call, it succeeds with anything below the values that it found, as long as the stack has room, and
does the same. -/
theorem step_stack_local {c : Context} {i : Instruction ℕ} (hthrow : i ≠ .branch .athrow) :
    (∀ (index index' : ℕ) (f f' g g' : Frame), f.stack = .ofList f.stack.toList →
      g.stack = .ofList g.stack.toList → step c index i f = .ok f' → step c index' i g = .ok g' →
      (f'.depth : ℤ) - f.depth = g'.depth - g.depth) ∧
    ((∀ r, i ≠ .op (.new r)) → i.isConstruct = false →
      ∀ (index : ℕ) (l l' : List VType) (s s' : Stack), step c index i ⟨l, s⟩ = .ok ⟨l', s'⟩ →
        ∀ p : Stack, (p ++ s').height ≤ c.maxStack →
          step c index i ⟨l, p ++ s⟩ = .ok ⟨l', p ++ s'⟩) := by
  constructor
  · intro index index' f f' g g' hf hg hf' hg'
    have h1 := depth_of_step hf hthrow hf'
    have h2 := depth_of_step hg hthrow hg'
    omega
  · intro hnew hinit index l l' s s' h p hroom
    exact step_above (staysOnTop_of_ne hthrow hnew hinit) h hroom

/-! ### A field of the class of a constructor -/

namespace OwnField

def store : Instruction ℕ := .op (.putField ⟨.object, ⟨"brim", by decide +kernel⟩, .base .int⟩)

def raw : Frame := ⟨[], .ofList [.uninitThis, .int]⟩

def built : Frame := ⟨[.int], .ofList [.ofClass .object, .int]⟩

/-- The field can be set before the receiver is initialized and after. The value and the receiver
are taken, and a double below them stays. -/
theorem step_stack_local_ownField : ∃ f' g', step Mixed.context 0 store raw = .ok f' ∧
    step Mixed.context 1 store built = .ok g' ∧
    (f'.depth : ℤ) - raw.depth = g'.depth - built.depth ∧
    step Mixed.context 0 store ⟨[], .ofList [.double] ++ raw.stack⟩ =
      .ok ⟨[], .ofList [.double] ++ f'.stack⟩ := by
  have hlocal := step_stack_local (c := Mixed.context) (i := store) (by decide)
  have hraw : step Mixed.context 0 store raw = .ok ⟨[], .empty⟩ := by decide +kernel
  have hbuilt : step Mixed.context 1 store built = .ok ⟨[.int], .empty⟩ := by decide +kernel
  refine ⟨_, _, hraw, hbuilt, hlocal.1 0 1 _ _ _ _ rfl rfl hraw hbuilt, ?_⟩
  exact hlocal.2 (fun r => by simp [store]) rfl 0 [] [] _ _ hraw _ (by decide +kernel)

end OwnField

end Transfer

end Bytecheck
