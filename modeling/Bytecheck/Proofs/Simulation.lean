import Mathlib.Tactic.Common
import Bytecheck.Proofs.FrameRelation

/-!
Instructions on related frames.

A relation on values that respects what instructions ask about values is kept by every instruction:
whenever the instruction succeeds on the second frame, it does on the first, or it fails there in
one of the ways that the simulation allows.
-/

namespace Bytecheck

/-- A relation on values that the instructions keep. The first value may fail where the second does
not, with the faults that `E` allows for the instruction. -/
structure Simulation (c : Transfer.Context) (R : VType → VType → Prop)
    (E : Instruction ℕ → TypeFault → Prop) : Prop extends Alike R where
  copies : ∀ {a b x y}, R a b → R x y → VType.isInitialized y = false → (a = x ↔ b = y)
  base : ∀ {r s b}, R (.object r) (.object s) → s.element? = some (.base b) →
    r.element? = some (.base b)
  element : ∀ {r s e}, R (.object r) (.object s) → s.element? = some (.ref e) →
    ∃ d, r.element? = some (.ref d) ∧ R (.object d) (.object e)
  nullElement : ∀ {s e}, R .null (.object s) → s.element? = some (.ref e) → R .null (.object e)
  assign : ∀ {x y t}, R x y → y.isAssignable c.hierarchy t = true →
    x.isAssignable c.hierarchy t = true ∨ ∀ i, E i (.incompatible x t)
  store : ∀ {x y d e}, R x y → R (.object d) (.object e) →
    y.isAssignable c.hierarchy (.object e) = true →
    x.isAssignable c.hierarchy (.object d) = true ∨
      E (.op (.arrayStore .ref)) (.incompatible x (.object d))
  thrown : ∀ {r e}, R (.object r) (.object (.object e)) →
    c.hierarchy.isSubtype e .throwable = true →
    (∃ d, r = .object d ∧ c.hierarchy.isSubtype d .throwable = true) ∨
      E (.branch .athrow) (.notThrowable (.object r))
  stale : ∀ r i, E (.op (.new r)) (.staleUninitialized i)
  leave : ∀ k, E (.branch (.leave k)) .returnBeforeInit

namespace Simulation

open Transfer Stack

variable {c : Context} {R : VType → VType → Prop} {E : Instruction ℕ → TypeFault → Prop}
  {s s' : Stack} {i : Instruction ℕ}

/-! ### Operands -/

lemma popAssignable (S : Simulation c R E) (h : Stack.Rel R s s') (t : VType) :
    Follows (Stack.Rel R) (E i) (s.popAssignable c.hierarchy t)
      (s'.popAssignable c.hierarchy t) := by
  refine h.pop.bind fun ⟨x, r⟩ ⟨y, r'⟩ hab => ?_
  exact .guard (fun hy => (S.assign hab.1 hy).imp_right fun h => h i) (.ok hab.2)

lemma popArguments (S : Simulation c R E) (h : Stack.Rel R s s') (ps : List FieldType) :
    Follows (Stack.Rel R) (E i) (s.popArguments c.hierarchy ps)
      (s'.popArguments c.hierarchy ps) :=
  .foldlM _ (fun _ _ p _ hab => S.popAssignable hab (.ofField p)) h

lemma popPrimitives (S : Simulation c R E) (h : Stack.Rel R s s') (b : BaseType)
    (bs : List BaseType) :
    Follows (Stack.Rel R) (E i) (s.popPrimitives b bs) (s'.popPrimitives b bs) := by
  refine h.pop.bind fun ⟨x, r⟩ ⟨y, r'⟩ hab => ?_
  refine .guard (fun hy => Or.inl ?_) (.ok hab.2)
  have hxy : R x y := hab.1
  cases y with
  | null => rw [S.null hxy]
  | object q =>
    rcases S.object hxy with rfl | ⟨p, rfl⟩
    · rfl
    · simp only [List.any_eq_true, decide_eq_true_eq] at hy ⊢
      obtain ⟨b', hb, he⟩ := hy
      exact ⟨b', hb, S.base hxy he⟩
  | _ => simp at hy

/-- What taking an array of references gives on related stacks. -/
def ElementRel (R : VType → VType → Prop) (a b : Option RefType × Stack) : Prop :=
  R (a.1.elim .null .object) (b.1.elim .null .object) ∧ Stack.Rel R a.2 b.2

lemma popReferences (S : Simulation c R E) (h : Stack.Rel R s s') :
    Follows (ElementRel R) (E i) (s.popReferences) (s'.popReferences) := by
  refine h.pop.bind fun ⟨x, r⟩ ⟨y, r'⟩ hab => ?_
  have hxy : R x y := hab.1
  cases y with
  | null =>
    cases S.null hxy
    exact .ok hab
  | object q =>
    dsimp only
    cases hq : q.element? with
    | none => exact .of_error _ _
    | some t =>
      cases t with
      | base b => exact .of_error _ _
      | ref e =>
        rcases S.object hxy with rfl | ⟨p, rfl⟩
        · exact .ok ⟨S.nullElement hxy hq, hab.2⟩
        · obtain ⟨d, hd, hde⟩ := S.element hxy hq
          simp only [hd]
          exact .ok ⟨hde, hab.2⟩
  | _ => exact .of_error _ _

lemma isArray_of_element {r : RefType} : r.isArray = true ↔ ∃ e, r.element? = some e := by
  rcases r with _ | ⟨_ | _, _⟩ | ⟨_ | _, _⟩ <;> simp [RefType.isArray, RefType.element?]

lemma isArray (S : Simulation c R E) {r q : RefType} (h : R (.object r) (.object q))
    (hq : q.isArray = true) : r.isArray = true := by
  obtain ⟨e, he⟩ := isArray_of_element.1 hq
  cases e with
  | base b => exact isArray_of_element.2 ⟨_, S.base h he⟩
  | ref e =>
    obtain ⟨d, hd, -⟩ := S.element h he
    exact isArray_of_element.2 ⟨_, hd⟩

/-! ### Operations on the stack -/

lemma primitives_num {k : ElementKind} {b : BaseType} {bs : List BaseType} {v : VType}
    (h : primitives k = some (b, bs, v)) : ∃ n : Num, v = n.vtype := by
  cases k <;> cases h
  · exact ⟨.int, rfl⟩
  · exact ⟨.long, rfl⟩
  · exact ⟨.float, rfl⟩
  · exact ⟨.double, rfl⟩
  · exact ⟨.int, rfl⟩
  · exact ⟨.int, rfl⟩
  · exact ⟨.int, rfl⟩

lemma arrayLoad (S : Simulation c R E) (h : Stack.Rel R s s') (k : ElementKind) :
    Follows (Stack.Rel R) (E i) (arrayLoad k s) (arrayLoad k s') := by
  refine (h.popExact S.toAlike .int).bind fun a b hab => ?_
  split
  · rename_i first others value hk
    obtain ⟨n, rfl⟩ := primitives_num hk
    exact (S.popPrimitives hab first others).bind fun _ _ h' => .ok (h'.push (S.vtype_num n))
  · exact (S.popReferences hab).bind fun _ _ h' => .ok (h'.2.push h'.1)

lemma arrayStore (S : Simulation c R E) (h : Stack.Rel R s s') (k : ElementKind) :
    Follows (Stack.Rel R) (E (.op (.arrayStore k))) (arrayStore c.hierarchy k s)
      (arrayStore c.hierarchy k s') := by
  unfold Transfer.arrayStore
  split
  · rename_i first others value hk
    obtain ⟨n, rfl⟩ := primitives_num hk
    refine (h.popExact S.toAlike n).bind fun a b hab => ?_
    exact (hab.popExact S.toAlike .int).bind fun a b hab => S.popPrimitives hab first others
  · rename_i hk
    have hk : k = .ref := by cases k <;> simp [primitives] at hk ⊢
    subst hk
    refine (h.popInitialized S.toAlike).bind fun ⟨x, a⟩ ⟨y, b⟩ hxy => ?_
    refine (hxy.2.popExact S.toAlike .int).bind fun a b hab => ?_
    refine (S.popReferences hab).bind fun ⟨d, a⟩ ⟨e, b⟩ hde => ?_
    cases e with
    | none =>
      cases d with
      | none => exact .ok hde.2
      | some d => cases S.null hde.1
    | some e =>
      cases d with
      | none =>
        dsimp only
        split
        · exact .ok hde.2
        · exact .of_error _ _
      | some d => exact .guard (fun hy => S.store hxy.1 hde.1 hy) (.ok hde.2)

lemma loadConstant (S : Simulation c R E) (h : Stack.Rel R s s') (slots : ℕ) (k : Constant) :
    Follows (Stack.Rel R) (E i) (loadConstant slots k s) (loadConstant slots k s') :=
  .ite Iff.rfl (fun _ => .ok (h.push (S.vtype_constant k))) fun _ => .of_error _ _

lemma pushResult (S : Simulation c R E) (h : Stack.Rel R s s') (t : Option FieldType) :
    Stack.Rel R (pushResult s t) (pushResult s' t) := by
  cases t with
  | none => exact h
  | some t => exact h.push (S.vtype_field t)

lemma popFieldOwner (S : Simulation c R E) (h : Stack.Rel R s s') (f : FieldRef) :
    Follows (Stack.Rel R) (E i) (popFieldOwner c f s) (popFieldOwner c f s') := by
  refine .ite (by rw [h.top?_this S.toAlike]) (fun _ => ?_) fun _ => S.popAssignable h _
  exact h.pop.bind fun _ _ hab => .ok hab.2

lemma call (S : Simulation c R E) (h : Stack.Rel R s s') (k : InvokeKind) (m : MethodRef) :
    Follows (Stack.Rel R) (E i) (call c.hierarchy k m s) (call c.hierarchy k m s') := by
  refine (S.popArguments h m.descriptor.parameters).bind fun a b hab => ?_
  refine .ite Iff.rfl (fun _ => .of_error _ _) fun _ => ?_
  have hresult : ∀ a b, Stack.Rel R a b → Follows (Stack.Rel R) (E i)
      (.ok (Transfer.pushResult a m.descriptor.returns))
      (.ok (Transfer.pushResult b m.descriptor.returns)) :=
    fun a b hab => .ok (S.pushResult hab m.descriptor.returns)
  refine .ite Iff.rfl (fun _ => hresult a b hab) fun _ => ?_
  exact (S.popAssignable hab _).bind hresult

/-- The operations that see the stack alone. -/
lemma stackEffect (S : Simulation c R E) (h : Stack.Rel R s s') (o : Op) :
    Follows (Stack.Rel R) (E (.op o)) (stackEffect c o s) (stackEffect c o s') := by
  have A := S.toAlike
  cases o with
  | aconstNull => exact .ok (h.push (S.fixed rfl))
  | «calc» f => exact (h.popAll A f.operands).bind fun _ _ h' => .ok (h'.push (S.vtype_num _))
  | ldc k => exact S.loadConstant h 1 k
  | ldc2 k => exact S.loadConstant h 2 k
  | arrayLoad k => exact S.arrayLoad h k
  | arrayStore k => exact S.arrayStore h k
  | stack f => exact h.shuffle A f
  | getStatic f => exact .ok (h.push (S.vtype_field f.type))
  | putStatic f => exact S.popAssignable h _
  | getField f =>
    exact (S.popAssignable h _).bind fun _ _ h' => .ok (h'.push (S.vtype_field f.type))
  | putField f => exact (S.popAssignable h _).bind fun _ _ h' => S.popFieldOwner h' f
  | invoke k m => exact S.call h k m
  | invokeDynamic d =>
    exact (S.popArguments h _).bind fun _ _ h' => .ok (S.pushResult h' d.descriptor.returns)
  | newArray b => exact (h.popExact A .int).bind fun _ _ h' => .ok (h'.push (S.fixed rfl))
  | anewArray r => exact (h.popExact A .int).bind fun _ _ h' => .ok (h'.push (S.fixed rfl))
  | multiANewArray r dims =>
    refine .ite Iff.rfl (fun _ => .of_error _ _) fun _ => ?_
    have hdims : List.replicate dims VType.int = (List.replicate dims Num.int).map Num.vtype := by
      rw [List.map_replicate]
      rfl
    rw [hdims]
    exact (h.popAll A _).bind fun _ _ h' => .ok (h'.push (S.fixed rfl))
  | arrayLength =>
    refine h.pop.bind fun ⟨x, a⟩ ⟨y, b⟩ hab => ?_
    have hxy : R x y := hab.1
    cases y with
    | null =>
      cases S.null hxy
      exact .ok (hab.2.push (S.fixed rfl))
    | object q =>
      rcases S.object hxy with rfl | ⟨p, rfl⟩
      · dsimp only
        split
        · exact .ok (hab.2.push (S.fixed rfl))
        · exact .of_error _ _
      · exact .guard (fun hq => Or.inl (S.isArray hxy hq)) (.ok (hab.2.push (S.fixed rfl)))
    | _ => exact .of_error _ _
  | checkCast r => exact (h.popInitialized A).bind fun _ _ h' => .ok (h'.2.push (S.fixed rfl))
  | instanceOf r => exact (h.popInitialized A).bind fun _ _ h' => .ok (h'.2.push (S.fixed rfl))
  | monitorEnter => exact (h.popInitialized A).bind fun _ _ h' => .ok h'.2
  | monitorExit => exact (h.popInitialized A).bind fun _ _ h' => .ok h'.2
  | nop => exact .ok h
  | load k slot => exact .ok h
  | store k slot => exact .ok h
  | iinc slot d => exact .ok h
  | new r => exact .ok h

/-! ### Operations on the frame -/

variable {n : ℕ} {f g : Frame}

/-- The faults allowed, as faults of a step. -/
def Allowed (E : Instruction ℕ → TypeFault → Prop) (i : Instruction ℕ) (e : StepFault) : Prop :=
  ∃ k, e = .type k ∧ E i k

lemma withStack (h : Frame.Rel R n f g) (hs : Stack.Rel R s s') :
    Frame.Rel R n { f with stack := s } { g with stack := s' } :=
  ⟨hs, h.left, h.right, h.locals, h.paired⟩

lemma readLocal (A : Alike R) (h : Frame.Rel R n f g) (slot : ℕ) :
    Follows R (Allowed E i) (readLocal f slot) (readLocal g slot) := by
  unfold Transfer.readLocal Frame.get
  cases hy : g.locals[slot]? with
  | none => exact .of_error _ _
  | some y =>
    obtain ⟨x, hx, hxy⟩ := h.exists_left hy
    rw [hx]
    change Follows R _ (if x = .top then _ else .ok x) (if y = .top then _ else .ok y)
    rcases hxy with ⟨-, rfl⟩ | hxy
    · exact .of_error _ _
    · obtain ⟨⟨hx1, -⟩, hy1, -⟩ := A.values hxy
      rw [if_neg hx1, if_neg hy1]
      exact .ok hxy

lemma readExact (A : Alike R) (h : Frame.Rel R n f g) (slot : ℕ) (m : Num) :
    Follows R (Allowed E i) (readExact f slot m.vtype) (readExact g slot m.vtype) := by
  refine (readLocal A h slot).bind fun x y hxy => ?_
  exact .ite (A.num_iff hxy m) (fun _ => .ok hxy) fun _ => .of_error _ _

lemma loaded (A : Alike R) (h : Frame.Rel R n f g) (k : Kind) (slot : ℕ) :
    Follows R (Allowed E i) (loaded f k slot) (loaded g k slot) := by
  cases k with
  | num m => exact readExact A h slot m
  | ref =>
    refine (readLocal A h slot).bind fun x y hxy => ?_
    exact .ite (by rw [A.isReference_eq hxy]) (fun _ => .ok hxy) fun _ => .of_error _ _

lemma stored (A : Alike R) (h : Stack.Rel R s s') (k : Kind) :
    Follows (Stack.PopRel R) (E i) (stored k s) (stored k s') := by
  cases k with
  | num m => exact (h.popExact A m).map fun _ _ h' => ⟨A.vtype_num m, h'⟩
  | ref => exact h.popReference A

lemma construct (S : Simulation c R E) (h : Frame.Rel R n f g) (m : MethodRef) :
    Follows (Frame.Rel R n) (E i) (construct c m f) (construct c m g) := by
  refine (S.popArguments h.stack m.descriptor.parameters).bind fun a b hab => ?_
  refine .ite Iff.rfl (fun _ => .of_error _ _) fun _ => ?_
  refine .ite Iff.rfl (fun _ => .of_error _ _) fun _ => ?_
  refine hab.pop.bind fun ⟨x, a⟩ ⟨y, b⟩ hxy => ?_
  have hR : R x y := hxy.1
  have hf := withStack h hxy.2
  -- what the receivers become, and that their copies correspond
  have hreplace : ∀ t, VType.isInitialized y = false → width y = width t →
      VType.isInitialized t = true → Follows (Frame.Rel R n) (E i)
        (.ok (Frame.replace { f with stack := a } x t))
        (.ok (Frame.replace { g with stack := b } y t)) := fun t hy hw ht =>
    .ok (hf.replace S.toAlike (fun p q hpq => S.copies hpq hR hy) hR (S.fixed ht) hw)
  cases y with
  | uninitThis =>
    cases S.this hR
    dsimp only [initialized]
    split
    · exact hreplace _ rfl rfl rfl
    · exact .of_error _ _
  | uninit r o =>
    obtain ⟨o', rfl⟩ := S.new hR
    dsimp only [initialized]
    split
    · exact hreplace _ rfl rfl rfl
    · exact .of_error _ _
  | _ => exact .of_error _ _

/-- Operations that see the stack alone, on frames. -/
lemma onStack (S : Simulation c R E) (h : Frame.Rel R n f g) (o : Op) :
    Follows (Frame.Rel R n) (Allowed E (.op o))
      (do
        let s ← (Transfer.stackEffect c o f.stack).mapError .type
        .ok { f with stack := s })
      (do
        let s ← (Transfer.stackEffect c o g.stack).mapError .type
        .ok { g with stack := s }) :=
  ((S.stackEffect h.stack o).mapError fun k hk => ⟨k, rfl, hk⟩).bind fun _ _ hs =>
    .ok (withStack h hs)

lemma stepOp (S : Simulation c R E) {j k : ℕ} (o : Op)
    (hnew : ∀ r, o = .new r → r.isArray = false → R (.uninit r j) (.uninit r k))
    (h : Frame.Rel R n f g) :
    Follows (Frame.Rel R n) (Allowed E (.op o)) (stepOp c j o f) (stepOp c k o g) := by
  have A := S.toAlike
  cases o with
  | load q slot =>
    exact (loaded A h q slot).bind fun _ _ hxy => .ok (withStack h (h.stack.push hxy))
  | store q slot =>
    refine ((stored A h.stack q).mapError fun k hk => ⟨k, rfl, hk⟩).bind fun _ _ hxy => ?_
    exact ((withStack h hxy.2).set A hxy.1).mapError fun _ (he : False) => he.elim
  | iinc slot d => exact (readExact A h slot .int).bind fun _ _ _ => .ok h
  | new r =>
    refine .ite Iff.rfl (fun _ => .of_error _ _) fun harray => ?_
    by_cases hg : g.any (VType.isUninitFrom k) = true
    · rw [if_pos hg]
      exact .of_error _ _
    · rw [if_neg hg]
      split
      · exact .error ⟨_, rfl, S.stale r j⟩ _
      · exact .ok (withStack h (h.stack.push (hnew r rfl (Bool.eq_false_iff.2 harray))))
  | invoke q m =>
    refine .ite Iff.rfl (fun _ => ?_) fun _ => S.onStack h _
    exact (S.construct h m).mapError fun k hk => ⟨k, rfl, hk⟩
  | _ => exact S.onStack h _

/-! ### Branches -/

lemma returnEffect (S : Simulation c R E) (h : Stack.Rel R s s') (k : Option Kind) :
    Follows (Stack.Rel R) (E i) (returnEffect c k s) (returnEffect c k s') := by
  refine .ite Iff.rfl (fun _ => ?_) fun _ => .of_error _ _
  split
  · exact .ok h
  · exact S.popAssignable h _

lemma throwEffect (S : Simulation c R E) (h : Stack.Rel R s s') :
    Follows (Stack.Rel R) (E (.branch .athrow)) (throwEffect c.hierarchy s)
      (throwEffect c.hierarchy s') := by
  refine h.pop.bind fun ⟨x, a⟩ ⟨y, b⟩ hab => ?_
  have hxy : R x y := hab.1
  have hpush : Stack.Rel R (.ofList [x]) (.ofList [y]) := Stack.Rel.empty.push hxy
  cases y with
  | null =>
    cases S.null hxy
    exact .ok hpush
  | object q =>
    cases q with
    | object e =>
      dsimp only
      by_cases he : c.hierarchy.isSubtype e .throwable = true
      · rw [if_pos he]
        rcases S.object hxy with rfl | ⟨r, rfl⟩
        · exact .ok hpush
        · rcases S.thrown hxy he with ⟨d, rfl, hd⟩ | hE
          · dsimp only
            rw [if_pos hd]
            exact .ok hpush
          · cases r with
            | object d =>
              dsimp only
              split
              · exact .ok hpush
              · exact .error hE _
            | _ => exact .error hE _
      · rw [if_neg he]
        exact .of_error _ _
    | _ => exact .of_error _ _
  | _ => exact .of_error _ _

lemma stepBranch (S : Simulation c R E) (h : Frame.Rel R n f g) (b : Branch ℕ) :
    Follows (Frame.Rel R n) (Allowed E (.branch b)) (stepBranch c b f) (stepBranch c b g) := by
  have A := S.toAlike
  -- branches that see the stack alone
  have hstack : ∀ {x y : Except TypeFault Stack}, Follows (Stack.Rel R) (E (.branch b)) x y →
      Follows (Frame.Rel R n) (Allowed E (.branch b))
        ((x.mapError StepFault.type).map fun s => { f with stack := s })
        ((y.mapError StepFault.type).map fun s => { g with stack := s }) := fun hxy =>
    (hxy.mapError fun k hk => ⟨k, rfl, hk⟩).map fun _ _ hs => withStack h hs
  cases b with
  | ifZero o t => exact hstack (h.stack.popExact A .int)
  | tableSwitch d low ts => exact hstack (h.stack.popExact A .int)
  | lookupSwitch d cs => exact hstack (h.stack.popExact A .int)
  | ifInt o t => exact hstack (h.stack.popAll A [.int, .int])
  | ifRef o t =>
    refine hstack ((h.stack.popReference A).bind fun _ _ h1 => ?_)
    exact (h1.2.popReference A).bind fun _ _ h2 => .ok h2.2
  | ifNull o t => exact hstack ((h.stack.popReference A).map fun _ _ h' => h'.2)
  | goto t => exact .ok h
  | leave k =>
    refine .guard (fun hg => ?_) (hstack (S.returnEffect h.stack k))
    by_cases hf : returnAllowed c.method f = true
    · exact Or.inl hf
    · exact Or.inr ⟨_, rfl, S.leave k⟩
  | athrow => exact hstack (S.throwEffect h.stack)
  | jsr t => exact .of_error _ _
  | ret slot => exact .of_error _ _

/-- **Instructions keep a simulation**, if it relates what a `new` leaves on the two sides. -/
theorem step (S : Simulation c R E) {j k : ℕ} (i : Instruction ℕ)
    (hnew : ∀ r, i = .op (.new r) → r.isArray = false → R (.uninit r j) (.uninit r k))
    (h : Frame.Rel R n f g) :
    Follows (Frame.Rel R n) (Allowed E i) (step c j i f) (step c k i g) := by
  have heffect : Follows (Frame.Rel R n) (Allowed E i) (effect c j i f) (effect c k i g) := by
    cases i with
    | op o => exact S.stepOp o (fun r hr => hnew r (congrArg Instruction.op hr)) h
    | branch b => exact S.stepBranch h b
  refine heffect.bind fun a b hab => ?_
  have hdepth : a.depth = b.depth := hab.stack.height_eq S.toAlike
  exact .ite (by rw [hdepth]) (fun _ => .of_error _ _) fun _ => .ok hab

end Simulation

end Bytecheck
