import Mathlib.Tactic.Common
import Bytecheck.Proofs.Locality

/-!
What instructions do with locals.

An instruction says which local it uses and whether it writes one. Validation and exception handlers
rely on that, and interpretation does not look at it. The two agree: locals change only where an
instruction says that it writes, and where a constructor call replaces its receiver, and nothing
that an instruction does not name has a part in what it does to the stack.
-/

namespace Bytecheck

open Stack Transfer

/-- The local variable that an instruction uses, with the number of slots. No branch uses one. -/
def Instruction.localAccess : Instruction ℕ → Option (ℕ × ℕ)
  | .op o => o.localAccess
  | .branch _ => none

/-! ### Writing a local -/

namespace Frame

variable {l : List VType} {slot j : ℕ} {t : VType}

lemma getElem?_unsetIf_ne (c : Bool) {i : ℕ} (hij : i ≠ j) : (unsetIf c i l)[j]? = l[j]? := by
  unfold unsetIf
  split
  · exact List.getElem?_set_ne hij
  · rfl

/-- A write leaves all slots but those of the value and the two next to them. No matter what the
locals hold, the first half of a wide value can be lost below and the second half above. -/
lemma getElem?_write_of_outside (hj : j + 1 < slot ∨ slot + width t < j) :
    (write l slot t)[j]? = l[j]? := by
  unfold write
  dsimp only
  rcases width_two_or_one t with hw | hw
  · rw [if_pos hw, List.getElem?_set_ne (by omega), List.getElem?_set_ne (by omega),
      getElem?_unsetIf_ne _ (by omega), getElem?_unsetIf_ne _ (by omega)]
  · rw [if_neg (by omega), List.getElem?_set_ne (by omega), getElem?_unsetIf_ne _ (by omega),
      getElem?_unsetIf_ne _ (by omega)]

/-- Where wide values are followed by an unset slot, the slot after the value is left as well. -/
lemma getElem?_write_after (hp : Paired l) (hs : slot + width t ≤ l.length) :
    (write l slot t)[slot + width t]? = l[slot + width t]? := by
  rcases width_two_or_one t with hw | hw <;>
    rw [getElem?_write hp hs, if_neg (by omega), if_neg (by omega), if_neg (by omega)]

end Frame

namespace Transfer

variable {c : Context} {index : ℕ} {i : Instruction ℕ} {f f' g : Frame}

/-! ### Locals that change -/

lemma locals_eq_of_step (hw : i.writesLocal = false) (hinit : i.isConstruct = false)
    (h : step c index i f = .ok f') : f'.locals = f.locals := by
  have hchange := locals_of_step h
  generalize f'.locals = l at hchange
  cases hchange with
  | same => rfl
  | store => cases hw
  | construct hname => simp [Instruction.isConstruct, isInit, hname] at hinit

/-- An object is not the same after its constructor has returned. -/
lemma initialized_ne {owner : RefType} {x y : VType} (h : initialized c owner x = .ok y) :
    y ≠ x := by
  unfold initialized at h
  split at h
  · dsimp only at h
    split at h
    · cases h
      simp [VType.ofClass]
    · cases h
  · split at h
    · cases h
      simp
    · cases h
  · cases h

/-- **A constructor call** changes the locals that hold its receiver and no others. -/
lemma locals_ne_iff_of_construct {m : MethodRef} (hname : m.name = .init)
    (h : step c index (.op (.invoke .special m)) f = .ok f') :
    ∃ x, f.receiverOf m = some x ∧
      ∀ j : ℕ, f'.locals[j]? ≠ f.locals[j]? ↔ f.locals[j]? = some x := by
  obtain ⟨heffect, -⟩ := step_ok_iff.1 h
  rw [effect, stepOp, if_pos (by simp [isInit, hname])] at heffect
  obtain ⟨x, y, hx, hy, hlocals⟩ := construct_ok (mapError_ok_iff.1 heffect)
  refine ⟨x, hx, fun j => ?_⟩
  rw [hlocals, List.getElem?_map]
  cases f.locals[j]? with
  | none => simp
  | some z =>
    by_cases hz : z = x
    · simp [hz, initialized_ne hy]
    · simp [hz]

/-- **A write** stays with the slots that the instruction names and those next to them. -/
lemma getElem?_locals_of_step {slot slots : ℕ} (haccess : i.localAccess = some (slot, slots))
    (h : step c index i f = .ok f') :
    (∀ j, j + 1 < slot ∨ slot + slots < j → f'.locals[j]? = f.locals[j]?) ∧
      (Paired f.locals → f'.locals[slot + slots]? = f.locals[slot + slots]?) := by
  have hchange := locals_of_step h
  generalize f'.locals = l at hchange ⊢
  cases hchange with
  | same => exact ⟨fun _ _ => rfl, fun _ => rfl⟩
  | store hwidth hroom =>
    cases haccess
    rw [← hwidth]
    exact ⟨fun j hj => Frame.getElem?_write_of_outside hj,
      fun hp => Frame.getElem?_write_after hp hroom⟩
  | construct => cases haccess

/-! ### Locals that matter -/

/-- What an instruction that looks at the stack alone does to the stack. -/
lemma map_stack_onStack (x : Except TypeFault Stack) (f : Frame) :
    ((x.mapError StepFault.type).map fun s => { f with stack := s }).map Frame.stack =
      x.mapError .type := by
  cases x <;> rfl

lemma map_stack_stepOp {o : Op} (ho : onlyStack o = true) (hfg : f.stack = g.stack) :
    (stepOp c index o f).map Frame.stack = (stepOp c index o g).map Frame.stack := by
  rw [stepOp_eq ho, stepOp_eq ho, map_stack_onStack, map_stack_onStack, hfg]

lemma map_stack_stepBranch {b : Branch ℕ} (hb : ∀ k, b ≠ .leave k) (hfg : f.stack = g.stack) :
    (stepBranch c b f).map Frame.stack = (stepBranch c b g).map Frame.stack := by
  cases b with
  | leave k => exact absurd rfl (hb k)
  | goto t => exact congrArg Except.ok hfg
  | jsr t => rfl
  | ret slot => rfl
  | _ =>
    unfold stepBranch
    simp only [map_stack_onStack, hfg]

lemma map_stack_step (c : Context) (index : ℕ) (i : Instruction ℕ) (f : Frame) :
    (step c index i f).map Frame.stack = (effect c index i f).map Frame.stack >>= fun s =>
      if c.maxStack < s.height then .error (.type (.stackOverflow c.maxStack)) else .ok s := by
  unfold step
  cases effect c index i f with
  | error e => rfl
  | ok f₁ =>
    change Except.map Frame.stack (ite _ _ _) = ite _ _ _
    unfold Frame.depth
    split <;> rfl

lemma onlyStack_of_access {o : Op} (haccess : o.localAccess = none) (hnew : ∀ r, o ≠ .new r)
    (hinit : (Instruction.op o).isConstruct = false) : onlyStack o = true := by
  cases o with
  | load => cases haccess
  | store => cases haccess
  | iinc => cases haccess
  | new r => exact absurd rfl (hnew r)
  | invoke k m =>
    have hinit : isInit k m = false := hinit
    simp [onlyStack, hinit]
  | _ => rfl

/-- **Two runs**: locals that an instruction does not name have no part in the verdict, in the fault
and in the stack. -/
lemma map_stack_step_eq (haccess : i.localAccess = none) (hnew : ∀ r, i ≠ .op (.new r))
    (hinit : i.isConstruct = false) (hleave : ∀ k, i ≠ .branch (.leave k))
    (hfg : f.stack = g.stack) :
    (step c index i f).map Frame.stack = (step c index i g).map Frame.stack := by
  have heffect : (effect c index i f).map Frame.stack = (effect c index i g).map Frame.stack := by
    cases i with
    | op o => exact map_stack_stepOp (onlyStack_of_access haccess (by simpa using hnew) hinit) hfg
    | branch b => exact map_stack_stepBranch (by simpa using hleave) hfg
  rw [map_stack_step, map_stack_step, heffect]

/-- **Instructions say what they do with locals.** On a frame on which it succeeds, an instruction
leaves the locals alone unless it writes a local or is a constructor call. A constructor call
changes exactly the locals that hold its receiver. An instruction that writes changes only the slots
that it names and the two next to them, and the upper one of these only if a wide value there is not
followed by an unset slot. An instruction that uses no local, and is neither a `new` nor a
constructor call nor a return, has the same outcome on frames with the same stack. -/
theorem locals_as_declared (c : Context) (index : ℕ) (i : Instruction ℕ) :
    (∀ f f' : Frame, step c index i f = .ok f' →
      (i.writesLocal = false → i.isConstruct = false → f'.locals = f.locals) ∧
      (∀ m, i = .op (.invoke .special m) → m.name = .init → ∃ x, f.receiverOf m = some x ∧
        ∀ j : ℕ, f'.locals[j]? ≠ f.locals[j]? ↔ f.locals[j]? = some x) ∧
      ∀ slot slots, i.writesLocal = true → i.localAccess = some (slot, slots) →
        (∀ j, j + 1 < slot ∨ slot + slots < j → f'.locals[j]? = f.locals[j]?) ∧
        (Paired f.locals → f'.locals[slot + slots]? = f.locals[slot + slots]?)) ∧
    (i.localAccess = none → (∀ r, i ≠ .op (.new r)) → i.isConstruct = false →
      (∀ k, i ≠ .branch (.leave k)) → ∀ f g : Frame, f.stack = g.stack →
        (step c index i f).map Frame.stack = (step c index i g).map Frame.stack) := by
  refine ⟨fun f f' h => ⟨fun hw hinit => locals_eq_of_step hw hinit h, ?_, ?_⟩, ?_⟩
  · rintro m rfl hname
    exact locals_ne_iff_of_construct hname h
  · intro slot slots _ haccess
    exact getElem?_locals_of_step haccess h
  · intro haccess hnew hinit hleave f g hfg
    exact map_stack_step_eq haccess hnew hinit hleave hfg

/-! ### A store, a constructor call and an addition -/

namespace Declared

/-- The store of a long into the second half of a double. -/
def store : Instruction ℕ := .op (.store (.num .long) 2)

def torn : Frame := ⟨[.int, .double, .top, .float], .ofList [.long]⟩

/-- The call of a constructor of the root class. -/
def call : Instruction ℕ := .op (.invoke .special ⟨.object .object, .init, ⟨[], none⟩, false⟩)

def fresh : VType := .uninit (.object .object) 7

def copies : Frame := ⟨[fresh, .int, fresh], .ofList [fresh]⟩

def add : Instruction ℕ := .op (.calc (.arith .add .int))

/-- The store leaves the integer alone, the call changes both copies of the new object, and an
addition that fails does so with the same fault whatever is in the locals. -/
theorem locals_as_declared_samples :
    (∃ f', step Mixed.context 0 store torn = .ok f' ∧ f'.locals[0]? = torn.locals[0]?) ∧
    (∃ f' x, step Mixed.context 9 call copies = .ok f' ∧ copies.locals[2]? = some x ∧
      f'.locals[2]? ≠ copies.locals[2]? ∧ f'.locals[1]? = copies.locals[1]?) ∧
    (step Mixed.context 0 add torn).map Frame.stack =
      (step Mixed.context 0 add ⟨[], torn.stack⟩).map Frame.stack := by
  have htorn : step Mixed.context 0 store torn = .ok ⟨[.int, .top, .long, .top], .empty⟩ := by
    decide +kernel
  have hcall : step Mixed.context 9 call copies =
      .ok ⟨[.ofClass .object, .int, .ofClass .object], .empty⟩ := by
    decide +kernel
  refine ⟨⟨_, htorn, ?_⟩, ⟨_, fresh, hcall, rfl, ?_⟩, ?_⟩
  · exact (((locals_as_declared Mixed.context 0 store).1 _ _ htorn).2.2 2 2 rfl rfl).1 0 (by decide)
  · obtain ⟨x, hx, hiff⟩ :=
      ((locals_as_declared Mixed.context 9 call).1 _ _ hcall).2.1 _ rfl rfl
    obtain rfl : fresh = x := Option.some.inj hx
    exact ⟨(hiff 2).2 rfl, not_not.1 fun h => by simpa [copies, fresh] using (hiff 1).1 h⟩
  · exact (locals_as_declared Mixed.context 0 add).2 rfl (by simp [add]) rfl (by simp [add]) _ _ rfl

end Declared

end Transfer

end Bytecheck
