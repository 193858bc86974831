import Mathlib.Tactic.Common
import Bytecheck.Proofs.DeadCode

/-!
The receivers of calls.

A special call of a constructor needs an uninitialized receiver, and every other call with a
receiver needs an initialized one. The name of the method alone decides nothing: a constructor that
is called in another way is a method like all others, and a method is accepted in which two
constructor calls are made on one object.
-/

namespace Bytecheck

open Transfer Analysis

/-- An object on which no constructor has returned. -/
def VType.isUninitialized : VType → Bool
  | .uninitThis | .uninit _ _ => true
  | _ => false

section Calls

variable {c : Context} {h : Hierarchy} {f f' : Frame} {k : InvokeKind} {ref : MethodRef}

/-- Nothing uninitialized may be used as an object. -/
lemma isUninitialized_of_assignable {x : VType} {r : RefType}
    (hx : x.isAssignable h (.object r) = true) : x.isUninitialized = false := by
  cases x with
  | uninitThis => cases hx
  | uninit r i => cases hx
  | _ => rfl

/-- Constructors are called on uninitialized objects only. -/
lemma isUninitialized_of_initialized {x y : VType} {owner : RefType}
    (hx : initialized c owner x = .ok y) : x.isUninitialized = true := by
  cases x with
  | uninitThis => rfl
  | uninit r i => rfl
  | _ => cases hx

lemma receiver_of_call {s' : Stack} (hk : k ≠ .static) (hcall : call h k ref f.stack = .ok s') :
    ∃ x, f.receiverOf ref = some x ∧ x.isAssignable h (.object ref.owner) = true := by
  unfold call at hcall
  obtain ⟨s, hargs, hcall⟩ := bind_ok_iff.1 hcall
  dsimp only at hcall
  by_cases hfits : callFits k ref.onInterface = true
  · rw [if_neg (not_not_intro hfits), if_neg hk] at hcall
    obtain ⟨s₁, hpop, -⟩ := bind_ok_iff.1 hcall
    obtain ⟨o, x, he, hx⟩ := popAssignable_entries hpop
    exact ⟨x, receiverOf_eq hargs he, hx⟩
  · rw [if_pos hfits] at hcall
    cases hcall

/-- **One call**: its receiver is uninitialized if and only if it is a constructor call. -/
lemma receiver_of_step {i : ℕ} (hk : k ≠ .static)
    (hstep : step c i (.op (.invoke k ref)) f = .ok f') :
    ∃ x, f.receiverOf ref = some x ∧
      (x.isUninitialized = true ↔ k = .special ∧ ref.name = .init) := by
  obtain ⟨f₁, heffect, -⟩ := bind_ok_iff.1 hstep
  have heffect : stepOp c i (.invoke k ref) f = .ok f₁ := heffect
  unfold stepOp at heffect
  dsimp only at heffect
  have hinit : isInit k ref = true ↔ k = .special ∧ ref.name = .init := by simp [isInit]
  by_cases hcase : isInit k ref = true
  · rw [if_pos hcase] at heffect
    obtain ⟨x, y, hx, hy, -⟩ := construct_ok (mapError_ok_iff.1 heffect)
    exact ⟨x, hx, iff_of_true (isUninitialized_of_initialized hy) (hinit.1 hcase)⟩
  · rw [if_neg hcase] at heffect
    obtain ⟨s, hs, -⟩ := bind_ok_iff.1 heffect
    obtain ⟨x, hx, hassign⟩ := receiver_of_call hk (mapError_ok_iff.1 hs)
    refine ⟨x, hx, iff_of_false ?_ (mt hinit.2 hcase)⟩
    simp [isUninitialized_of_assignable hassign]

variable {m : Method} {code : Code} {settings : Settings} {lineOf? : ℕ → Option ℕ} {v : Verified}

/-- **Receivers of calls.** In an accepted method, at every call with a receiver that a path leads
to, the recorded frame holds an uninitialized receiver below the arguments if and only if this is a
special call of a constructor. -/
theorem receiver_uninitialized_iff
    (hok : (Verify.method h settings m code lineOf?).outcome = .ok v) {l : List Move} {i : ℕ}
    (hpath : code.Path 0 l i) (hi : code.instructions[i]? = some (.op (.invoke k ref)))
    (hk : k ≠ .static) :
    ∃ f x, v.frame? i = some f ∧ f.receiverOf ref = some x ∧
      (x.isUninitialized = true ↔ k = .special ∧ ref.name = .init) := by
  have hlt : i < code.size := (List.getElem?_eq_some_iff.1 hi).1
  rcases method_recorded_or_blank hok hlt with ⟨-, -, f, -, hf, -⟩ | ⟨hreaches, -⟩
  · obtain ⟨g, entry, -, S⟩ := exists_solution hok
    obtain ⟨-, insn, f', hinsn, hstep, -⟩ := S.step hf
    have hcode : some insn = some (.op (.invoke k ref)) := hinsn.symm.trans hi
    cases hcode
    obtain ⟨x, hx, hiff⟩ := receiver_of_step hk hstep
    exact ⟨f, x, frame?_eq_some_iff.2 hf, hx, hiff⟩
  · exact absurd ⟨l, hpath⟩ hreaches

end Calls

/-! ### An object that is constructed twice -/

namespace Twice

def owner : BinaryName := ⟨"p/Twice", by decide +kernel⟩

def method : Method := ⟨owner, ⟨"make", by decide +kernel⟩, ⟨[], none⟩, ⟨8⟩⟩

def constructor : MethodRef := ⟨.object owner, .init, ⟨[], none⟩, false⟩

/-- The constructor is called on a new object, and once more as if it were any method. -/
def code : Code where
  instructions := [.op (.new (.object owner)), .op (.stack .dup),
    .op (.invoke .special constructor), .op (.invoke .virtual constructor), .branch (.leave none)]
  maxStack := 2
  maxLocals := 0
  handlers := []

def hierarchy : Hierarchy := ClassTable.hierarchy ⟨[]⟩

def path : List Move := [⟨0, .normal, 1⟩, ⟨1, .normal, 2⟩]

lemma path_path : code.Path 0 path 2 := by
  refine .cons (e := ⟨0, .normal, 1⟩) ⟨_, rfl, Or.inl ⟨rfl, rfl⟩⟩ ?_
  exact .cons (e := ⟨1, .normal, 2⟩) ⟨_, rfl, Or.inl ⟨rfl, rfl⟩⟩ (.nil 2)

/-- The receiver that is recorded for a call of the constructor. -/
def receiverAt (v : Verified) (i : ℕ) : Option VType := (v.frame? i).bind (·.receiverOf constructor)

lemma accepted : ∃ v,
    (Verify.method hierarchy .standard method code fun _ => none).outcome = .ok v ∧
    receiverAt v 3 = some (.object (.object owner)) := map_ok_iff.1 (by decide +kernel)

end Twice

/-- The first constructor call of the sample method is made on a new object. -/
theorem receiver_uninitialized_iff_first : ∃ v,
    (Verify.method Twice.hierarchy .standard Twice.method Twice.code
      fun _ => none).outcome = .ok v ∧
    ∃ f x, v.frame? 2 = some f ∧ f.receiverOf Twice.constructor = some x ∧
      (x.isUninitialized = true ↔
        InvokeKind.special = .special ∧ Twice.constructor.name = .init) := by
  obtain ⟨v, hv, -⟩ := Twice.accepted
  exact ⟨v, hv, receiver_uninitialized_iff hv Twice.path_path rfl (by decide)⟩

/-- A method is accepted although it calls a constructor on an initialized object. -/
theorem accepted_constructor_call_on_initialized : ∃ v f x,
    (Verify.method Twice.hierarchy .standard Twice.method Twice.code
      fun _ => none).outcome = .ok v ∧
    Twice.code.Path 0 (Twice.path ++ [⟨2, .normal, 3⟩]) 3 ∧
    Twice.code.instructions[3]? = some (.op (.invoke .virtual Twice.constructor)) ∧
    Twice.constructor.name = .init ∧ v.frame? 3 = some f ∧
    f.receiverOf Twice.constructor = some x ∧ x.isUninitialized = false := by
  obtain ⟨v, hv, hreceiver⟩ := Twice.accepted
  obtain ⟨f, hf, hx⟩ := Option.bind_eq_some_iff.1 hreceiver
  refine ⟨v, f, _, hv, Twice.path_path.concat ?_, rfl, rfl, hf, hx, rfl⟩
  exact ⟨_, rfl, Or.inl ⟨rfl, rfl⟩⟩

end Bytecheck
