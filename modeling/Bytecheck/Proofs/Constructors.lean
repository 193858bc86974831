import Mathlib.Tactic.Common
import Bytecheck.Proofs.FixedPoint

/-!
Constructors and their receivers.

A verified constructor does not return while a local holds the uninitialized receiver. That is all
there is to rely on: on every path to a return, another constructor was called on the receiver, or
the receiver was lost from local 0, because the local was overwritten or because two paths met that
disagree about it. Methods are accepted in which the receiver is lost and no constructor is called.
-/

namespace Bytecheck

open Transfer Analysis

/-! ### What instructions do to locals -/

section Locals

variable {c : Context} {n : ℕ} {f f' : Frame}

lemma pop_entries {s s' : Stack} {x : VType} (h : s.pop = .ok (x, s')) :
    ∃ o, s.entries = (o, x) :: s'.entries := by
  unfold Stack.pop SlotVec.pop? at h
  cases hs : s.entries with
  | nil => simp [hs] at h
  | cons e es =>
    simp only [hs] at h
    cases h
    exact ⟨e.1, rfl⟩

lemma popAssignable_entries {h : Hierarchy} {t : VType} {s s' : Stack}
    (hp : s.popAssignable h t = .ok s') :
    ∃ o x, s.entries = (o, x) :: s'.entries ∧ x.isAssignable h t = true := by
  unfold Stack.popAssignable at hp
  obtain ⟨⟨x, s₁⟩, hpop, hp⟩ := bind_ok_iff.1 hp
  obtain ⟨o, ho⟩ := pop_entries hpop
  dsimp only at hp
  split at hp
  · rename_i hx
    cases hp
    exact ⟨o, x, ho, hx⟩
  · cases hp

lemma popArguments_entries {h : Hierarchy} {ps : List FieldType} {s s' : Stack}
    (hp : s.popArguments h ps = .ok s') : s'.entries = s.entries.drop ps.length := by
  unfold Stack.popArguments at hp
  rw [← List.length_reverse]
  generalize ps.reverse = qs at hp ⊢
  induction qs generalizing s with
  | nil =>
    cases hp
    rfl
  | cons q qs ih =>
    rw [List.foldlM_cons, bind_ok_iff] at hp
    obtain ⟨s₁, h1, h2⟩ := hp
    obtain ⟨o, x, ho, -⟩ := popAssignable_entries h1
    rw [ih h2, ho]
    rfl

/-- The value just below the arguments of a call. -/
def Frame.receiverOf (f : Frame) (m : MethodRef) : Option VType :=
  (f.stack.entries[m.descriptor.parameters.length]?).map Prod.snd

lemma receiverOf_eq {h : Hierarchy} {m : MethodRef} {s : Stack} {o : ℕ} {x : VType}
    {es : List (ℕ × VType)} (hs : f.stack.popArguments h m.descriptor.parameters = .ok s)
    (he : s.entries = (o, x) :: es) : f.receiverOf m = some x := by
  have hentry := congrArg List.head? (popArguments_entries hs)
  rw [he, List.head?_drop] at hentry
  simp [Frame.receiverOf, ← hentry]

/-- The steps of a constructor call. -/
lemma construct_cases {m : MethodRef} (h : construct c m f = .ok f') :
    ∃ s s' x y, f.stack.popArguments c.hierarchy m.descriptor.parameters = .ok s ∧
      s.pop = .ok (x, s') ∧ initialized c m.owner x = .ok y ∧
      f' = Frame.replace { f with stack := s' } x y := by
  unfold construct at h
  obtain ⟨s, hs, h⟩ := bind_ok_iff.1 h
  dsimp only at h
  by_cases h1 : m.onInterface = true
  · rw [if_pos h1] at h
    cases h
  rw [if_neg h1] at h
  by_cases h2 : m.descriptor.returns.isSome = true
  · rw [if_pos h2] at h
    cases h
  rw [if_neg h2] at h
  obtain ⟨⟨x, s'⟩, hpop, h⟩ := bind_ok_iff.1 h
  obtain ⟨y, hy, h⟩ := bind_ok_iff.1 h
  cases h
  exact ⟨s, s', x, y, hs, hpop, hy, rfl⟩

/-- What a constructor call does: the value below its arguments and all its copies are replaced. -/
lemma construct_ok {m : MethodRef} (h : construct c m f = .ok f') :
    ∃ x y, f.receiverOf m = some x ∧ initialized c m.owner x = .ok y ∧
      f'.locals = f.locals.map fun t => if t = x then y else t := by
  obtain ⟨s, s', x, y, hs, hpop, hy, rfl⟩ := construct_cases h
  obtain ⟨o, ho⟩ := pop_entries hpop
  exact ⟨x, y, receiverOf_eq hs ho, hy, rfl⟩

/-- What an instruction can do to the locals. -/
inductive LocalsChange (c : Context) (f : Frame) : Instruction ℕ → List VType → Prop
  | same (i : Instruction ℕ) : LocalsChange c f i f.locals
  | store {k : Kind} {slot : ℕ} {x : VType} : width x = width k →
      slot + width x ≤ f.locals.length →
      LocalsChange c f (.op (.store k slot)) (Frame.write f.locals slot x)
  | construct {m : MethodRef} {x y : VType} : m.name = .init → f.receiverOf m = some x →
      initialized c m.owner x = .ok y →
      LocalsChange c f (.op (.invoke .special m)) (f.locals.map fun t => if t = x then y else t)

lemma width_stored {k : Kind} {s s' : Stack} {x : VType} (h : stored k s = .ok (x, s')) :
    width x = width k := by
  cases k with
  | num n =>
    unfold stored at h
    dsimp only at h
    cases hs : s.popExact n.vtype with
    | error e =>
      rw [hs] at h
      cases h
    | ok r =>
      rw [hs] at h
      cases h
      cases n <;> rfl
  | ref =>
    obtain ⟨⟨y, r⟩, -, hx⟩ := bind_ok_iff.1 h
    dsimp only at hx
    split at hx
    · rename_i href
      cases hx
      cases x <;> first | rfl | cases href
    · cases hx

lemma locals_of_onStack {s : Except TypeFault Stack}
    (h : ((s.mapError StepFault.type).map fun s => { f with stack := s }) = .ok f') :
    f'.locals = f.locals := by
  cases s with
  | error e => cases h
  | ok s =>
    cases h
    rfl

lemma locals_of_stepOp {i : ℕ} {o : Op} (h : stepOp c i o f = .ok f') :
    LocalsChange c f (.op o) f'.locals := by
  -- operations that see the stack alone
  have hstack : ∀ {x : Except StepFault Stack},
      (do
        let s ← x
        .ok { f with stack := s }) = Except.ok f' → LocalsChange c f (.op o) f'.locals := by
    intro x hx
    obtain ⟨s, -, hs⟩ := bind_ok_iff.1 hx
    cases hs
    exact .same _
  cases o with
  | load k slot =>
    obtain ⟨x, -, hx⟩ := bind_ok_iff.1 h
    cases hx
    exact .same _
  | store k slot =>
    obtain ⟨⟨x, s⟩, hstored, hx⟩ := bind_ok_iff.1 h
    have hset := mapError_ok_iff.1 hx
    rw [Frame.set_eq] at hset
    dsimp only at hset
    split at hset
    · cases hset
    · cases hset
      exact .store (width_stored (mapError_ok_iff.1 hstored)) (by omega)
  | iinc slot d =>
    obtain ⟨x, -, hx⟩ := bind_ok_iff.1 h
    cases hx
    exact .same _
  | new r =>
    unfold stepOp at h
    dsimp only at h
    split at h
    · cases h
    · split at h
      · cases h
      · cases h
        exact .same _
  | invoke k m =>
    unfold stepOp at h
    dsimp only at h
    by_cases hinit : isInit k m = true
    · rw [if_pos hinit] at h
      simp only [isInit, Bool.and_eq_true, decide_eq_true_eq] at hinit
      obtain ⟨rfl, hname⟩ := hinit
      obtain ⟨x, y, hx, hy, hlocals⟩ := construct_ok (mapError_ok_iff.1 h)
      rw [hlocals]
      exact .construct hname hx hy
    · rw [if_neg hinit] at h
      exact hstack h
  | _ => exact hstack h

lemma locals_of_stepBranch {b : Branch ℕ} (h : stepBranch c b f = .ok f') :
    f'.locals = f.locals := by
  cases b with
  | goto t =>
    cases h
    rfl
  | leave k =>
    unfold stepBranch at h
    dsimp only at h
    split at h
    · exact locals_of_onStack h
    · cases h
  | jsr t => cases h
  | ret slot => cases h
  | _ => exact locals_of_onStack h

/-- **Locals change by a store or by a constructor call only.** -/
lemma locals_of_step {i : ℕ} {insn : Instruction ℕ} (h : step c i insn f = .ok f') :
    LocalsChange c f insn f'.locals := by
  obtain ⟨f₁, heffect, h⟩ := bind_ok_iff.1 h
  split at h
  · cases h
  cases h
  cases insn with
  | op o => exact locals_of_stepOp heffect
  | branch b =>
    rw [locals_of_stepBranch heffect]
    exact .same _

/-- The instruction stores a value over the slot. -/
def Overwrites (insn : Instruction ℕ) (slot : ℕ) : Prop :=
  ∃ k first, insn = .op (.store k first) ∧ first ≤ slot ∧ slot < first + width k

/-- The instruction calls a constructor on the uninitialized receiver. -/
def Initializes (insn : Instruction ℕ) (f : Frame) : Prop :=
  ∃ m, insn = .op (.invoke .special m) ∧ m.name = .init ∧ f.receiverOf m = some .uninitThis

/-- The uninitialized receiver stays in a local, unless the local is overwritten or a constructor is
called on the receiver. -/
lemma this_of_step {i slot : ℕ} {insn : Instruction ℕ} (hf : f.Good n)
    (h : step c i insn f = .ok f') (hthis : f.locals[slot]? = some .uninitThis) :
    f'.locals[slot]? = some .uninitThis ∨ Overwrites insn slot ∨ Initializes insn f := by
  have hchange := locals_of_step h
  generalize f'.locals = l at hchange ⊢
  cases hchange with
  | same => exact Or.inl hthis
  | @store k first x hwidth hfits =>
    by_cases hin : first ≤ slot ∧ slot < first + width k
    · exact Or.inr (Or.inl ⟨k, first, rfl, hin⟩)
    · have hpos : 1 ≤ width x := by rcases Frame.width_two_or_one x with h | h <;> omega
      refine Or.inl ?_
      rw [Frame.getElem?_write hf.paired hfits, if_neg (by omega), if_neg (by omega), if_neg ?_,
        hthis]
      -- a receiver has no second half to lose
      rintro ⟨-, hwide⟩
      obtain ⟨y, hy, hw⟩ := Frame.isWideAt_iff.1 hwide
      rw [hthis] at hy
      cases hy
      cases hw
  | @construct m x y hname hx hy =>
    by_cases hxt : x = .uninitThis
    · exact Or.inr (Or.inr ⟨m, rfl, hname, hxt ▸ hx⟩)
    · refine Or.inl ?_
      rw [List.getElem?_map, hthis, Option.map_some, if_neg (Ne.symm hxt)]

/-- A constructor does not return while a local holds the uninitialized receiver. -/
lemma this_of_leave {i slot : ℕ} {k : Option Kind} (hinit : c.method.mustInitialize = true)
    (h : step c i (.branch (.leave k)) f = .ok f') : f.locals[slot]? ≠ some .uninitThis := by
  intro hthis
  obtain ⟨f₁, heffect, -⟩ := bind_ok_iff.1 h
  unfold effect stepBranch returnAllowed at heffect
  have hmem : f.locals.contains .uninitThis = true :=
    List.contains_iff_mem.2 (List.mem_of_getElem? hthis)
  rw [hinit, hmem] at heffect
  cases heffect

end Locals

/-! ### Paths -/

/-- One move of control. -/
structure Move where
  source : ℕ
  kind : EdgeKind
  target : ℕ

namespace Code

/-- Control may make the move. -/
def Allows (c : Code) (e : Move) : Prop :=
  match e.kind with
  | .normal => c.Flows e.source e.target
  | .exception => ∃ h, c.Catches e.source h ∧ h.entry = e.target

/-- A path from an instruction to another. -/
inductive Path (c : Code) : ℕ → List Move → ℕ → Prop
  | nil (i : ℕ) : Path c i [] i
  | cons {e : Move} {l : List Move} {j : ℕ} : c.Allows e → Path c e.target l j →
      Path c e.source (e :: l) j

end Code

/-- The recorded frame before an instruction holds a value in a slot. -/
def Verified.Holds (v : Verified) (i slot : ℕ) (x : VType) : Prop :=
  ∃ f, v.frame? i = some f ∧ f.locals[slot]? = some x

/-- On the move, a constructor that was called on the uninitialized receiver returns. -/
def Constructs (code : Code) (v : Verified) (e : Move) : Prop :=
  e.kind = .normal ∧ ∃ insn f, code.instructions[e.source]? = some insn ∧
    v.frame? e.source = some f ∧ Initializes insn f

/-- On the move, the uninitialized receiver is lost from a slot: it is overwritten, or paths meet
that disagree about it. -/
def Loses (code : Code) (v : Verified) (slot : ℕ) (e : Move) : Prop :=
  v.Holds e.source slot .uninitThis ∧
    ((e.kind = .normal ∧ ∃ insn, code.instructions[e.source]? = some insn ∧ Overwrites insn slot) ∨
      v.Holds e.target slot .top)

section Paths

variable {h : Hierarchy} {m : Method} {g : FlowGraph} {code : Code} {entry : Frame} {v : Verified}
  {slot : ℕ}

/-- Above the uninitialized receiver there is nothing but an unset slot. -/
lemma Frame.Rel.this {n : ℕ} {f f' : Frame} (hff' : Frame.Rel Kindred n f f')
    (hthis : f.locals[slot]? = some .uninitThis) :
    f'.locals[slot]? = some .uninitThis ∨ f'.locals[slot]? = some .top := by
  obtain ⟨y, hy, ⟨-, rfl⟩ | ⟨-, -, rfl | ⟨hx | ⟨r, hx⟩, -⟩⟩⟩ := hff'.exists_right hthis
  · exact Or.inr hy
  · exact Or.inl hy
  · cases hx
  · cases hx

/-- **One move**: the uninitialized receiver stays in a slot, or it is lost from it, or a
constructor was called on it. -/
lemma this_of_move
    (S : Solution (problem h m g code) Kindred code.maxLocals entry v.before v.after) {e : Move}
    (he : code.Allows e) (hthis : v.Holds e.source slot .uninitThis) :
    v.Holds e.target slot .uninitThis ∨ Constructs code v e ∨ Loses code v slot e := by
  obtain ⟨i, kind, j⟩ := e
  obtain ⟨f, hf, hslot⟩ := id hthis
  have hbefore := frame?_eq_some_iff.1 hf
  obtain ⟨hgood, insn, f', hi, hstep, hafter⟩ := S.step hbefore
  -- the slot holds the receiver when control leaves: at the target it still does, or it is unset
  have harrive : ∀ {k k' : Frame}, k.locals[slot]? = some .uninitThis →
      v.before[j]? = some (some k') → Frame.Rel Kindred code.maxLocals k k' →
      v.Holds j slot .uninitThis ∨ Constructs code v ⟨i, kind, j⟩ ∨
        Loses code v slot ⟨i, kind, j⟩ := by
    intro k k' hk hk' hrel
    rcases hrel.this hk with htarget | htarget
    · exact Or.inl ⟨k', frame?_eq_some_iff.2 hk', htarget⟩
    · exact Or.inr (Or.inr ⟨hthis, Or.inr ⟨k', frame?_eq_some_iff.2 hk', htarget⟩⟩)
  cases kind with
  | normal =>
    obtain ⟨k, hk, hrel⟩ := S.flows hafter he
    rcases this_of_step hgood hstep hslot with hkeep | hover | hinit
    · exact harrive hkeep hk hrel
    · exact Or.inr (Or.inr ⟨hthis, Or.inl ⟨rfl, insn, hi, hover⟩⟩)
    · exact Or.inr (Or.inl ⟨rfl, insn, f, hi, hf, hinit⟩)
  | exception =>
    obtain ⟨hd, hcatch, hentry⟩ := he
    obtain ⟨k, hk, hrel⟩ :=
      S.thrown hi hbefore hafter hcatch f (mem_throwing_iff.2 (Or.inl rfl))
    have hentry : hd.entry = j := hentry
    rw [hentry] at hk
    exact harrive (k := handlerFrame _ f) hslot hk hrel

/-- **A whole path** to a return: a constructor was called on the receiver, or the receiver was lost
from every slot that held it. -/
lemma this_of_path
    (S : Solution (problem h m g code) Kindred code.maxLocals entry v.before v.after)
    (hinit : m.mustInitialize = true) {i j : ℕ} {l : List Move} (hpath : code.Path i l j)
    {k : Option Kind} (hj : code.instructions[j]? = some (.branch (.leave k)))
    (hthis : v.Holds i slot .uninitThis) :
    (∃ e ∈ l, Constructs code v e) ∨ ∃ e ∈ l, Loses code v slot e := by
  induction hpath with
  | nil i =>
    obtain ⟨f, hf, hslot⟩ := hthis
    obtain ⟨-, insn, f', hi, hstep, -⟩ := S.step (frame?_eq_some_iff.1 hf)
    have hcode : some insn = some (.branch (.leave k)) := hi.symm.trans hj
    cases hcode
    exact absurd hslot (this_of_leave hinit hstep)
  | cons he _ ih =>
    rcases this_of_move S he hthis with hkeep | hcall | hlose
    · rcases ih hj hkeep with ⟨e', he', h'⟩ | ⟨e', he', h'⟩
      · exact Or.inl ⟨e', List.mem_cons_of_mem _ he', h'⟩
      · exact Or.inr ⟨e', List.mem_cons_of_mem _ he', h'⟩
    · exact Or.inl ⟨_, List.mem_cons_self, hcall⟩
    · exact Or.inr ⟨_, List.mem_cons_self, hlose⟩

/-- The recorded frames of an accepted method are a solution, whatever the classes are. -/
lemma exists_solution {settings : Settings} {lineOf? : ℕ → Option ℕ}
    (hok : (Verify.method h settings m code lineOf?).outcome = .ok v) :
    ∃ g entry, Frame.entry m code.maxLocals = .ok entry ∧
      Solution (problem h m g code) Kindred code.maxLocals entry v.before v.after := by
  obtain ⟨g, entry, k, s, hends⟩ := method_ends hok
  exact ⟨g, entry, hends.entered, hends.solution (kindred_upper h)⟩

lemma entry_this {n : ℕ} (hreceiver : m.hasReceiver = true) (hinit : m.mustInitialize = true)
    (h : Frame.entry m n = .ok entry) : entry.locals[0]? = some .uninitThis := by
  obtain ⟨-, rfl⟩ := entry_ok h
  simp [Frame.arguments, Frame.receiver, Frame.slotsOf, hreceiver, hinit]

/-- **Constructors and their receivers.** On every path of an accepted constructor to a return, a
constructor was called on the uninitialized receiver and returned, or the receiver was lost: from
local 0, and from every other local that came to hold it. -/
theorem constructs_or_loses_this {settings : Settings} {lineOf? : ℕ → Option ℕ}
    (hok : (Verify.method h settings m code lineOf?).outcome = .ok v)
    (hreceiver : m.hasReceiver = true) (hinit : m.mustInitialize = true) {l : List Move} {i : ℕ}
    (hpath : code.Path 0 l i) {k : Option Kind}
    (hi : code.instructions[i]? = some (.branch (.leave k))) :
    (∃ e ∈ l, Constructs code v e) ∨
      (v.Holds 0 0 .top ∨ ∃ e ∈ l, Loses code v 0 e) ∧
        ∀ l₁ l₂ j slot, l = l₁ ++ l₂ → code.Path 0 l₁ j → code.Path j l₂ i →
          v.Holds j slot .uninitThis → ∃ e ∈ l₂, Loses code v slot e := by
  obtain ⟨g, entry, hentry, S⟩ := exists_solution hok
  by_cases hcall : ∃ e ∈ l, Constructs code v e
  · exact Or.inl hcall
  refine Or.inr ⟨?_, ?_⟩
  · -- the entry frame holds the receiver in local 0, and the first recorded frame is above it
    obtain ⟨f, hf, hrel⟩ := S.entry
    rcases hrel.this (entry_this hreceiver hinit hentry) with h0 | h0
    · exact Or.inr ((this_of_path S hinit hpath hi
        ⟨f, frame?_eq_some_iff.2 hf, h0⟩).resolve_left hcall)
    · exact Or.inl ⟨f, frame?_eq_some_iff.2 hf, h0⟩
  · intro l₁ l₂ j slot hl _ hpath₂ hthis
    refine (this_of_path S hinit hpath₂ hi hthis).resolve_left ?_
    rintro ⟨e, he, hc⟩
    exact hcall ⟨e, hl ▸ List.mem_append_right l₁ he, hc⟩

end Paths

/-! ### A constructor that calls another one on some of its paths -/

namespace Skipping

def owner : BinaryName := ⟨"p/C", by decide +kernel⟩

def method : Method := ⟨owner, .init, ⟨[.base .int], none⟩, ⟨1⟩⟩

/-- The constructor of the root class is called unless the argument is zero. -/
def code : Code where
  instructions := [.op (.load (.num .int) 1), .branch (.ifZero .eq 4), .op (.load .ref 0),
    .op (.invoke .special ⟨.object .object, .init, ⟨[], none⟩, false⟩), .branch (.leave none)]
  maxStack := 1
  maxLocals := 2
  handlers := []

/-- The path on which the argument is zero. -/
def path : List Move := [⟨0, .normal, 1⟩, ⟨1, .normal, 4⟩]

def hierarchy : Hierarchy := ClassTable.hierarchy ⟨[]⟩

lemma path_path : code.Path 0 path 4 := by
  refine .cons (e := ⟨0, .normal, 1⟩) ⟨_, rfl, Or.inl ⟨rfl, rfl⟩⟩ ?_
  exact .cons (e := ⟨1, .normal, 4⟩) ⟨_, rfl, Or.inr List.mem_cons_self⟩ (.nil 4)

lemma accepted :
    ∃ v, (Verify.method hierarchy .standard method code fun _ => none).outcome = .ok v :=
  exists_ok_of_toBool (by decide +kernel)

end Skipping

/-- Where the argument is zero, the sample constructor loses its receiver. -/
theorem constructs_or_loses_this_skipping : ∃ v,
    (Verify.method Skipping.hierarchy .standard Skipping.method Skipping.code
      fun _ => none).outcome = .ok v ∧
    ((∃ e ∈ Skipping.path, Constructs Skipping.code v e) ∨
      (v.Holds 0 0 .top ∨ ∃ e ∈ Skipping.path, Loses Skipping.code v 0 e) ∧
        ∀ l₁ l₂ j slot, Skipping.path = l₁ ++ l₂ → Skipping.code.Path 0 l₁ j →
          Skipping.code.Path j l₂ 4 → v.Holds j slot .uninitThis →
          ∃ e ∈ l₂, Loses Skipping.code v slot e) := by
  obtain ⟨v, hv⟩ := Skipping.accepted
  exact ⟨v, hv, constructs_or_loses_this hv (by decide +kernel) (by decide +kernel)
    Skipping.path_path (k := none) rfl⟩

/-- A constructor is accepted although, on one of its paths, it returns without a constructor
call. -/
theorem accepted_without_constructor_call : ∃ v,
    (Verify.method Skipping.hierarchy .standard Skipping.method Skipping.code
      fun _ => none).outcome = .ok v ∧
    Skipping.method.hasReceiver = true ∧ Skipping.method.mustInitialize = true ∧
    Skipping.code.Path 0 Skipping.path 4 ∧
    Skipping.code.instructions[4]? = some (.branch (.leave none)) ∧
    ∀ e ∈ Skipping.path, ¬ Constructs Skipping.code v e := by
  obtain ⟨v, hv⟩ := Skipping.accepted
  refine ⟨v, hv, by decide +kernel, by decide +kernel, Skipping.path_path, rfl, ?_⟩
  rintro e he ⟨-, insn, f, hi, -, m, rfl, -⟩
  simp only [Skipping.path, List.mem_cons, List.not_mem_nil, or_false] at he
  rcases he with rfl | rfl
  · cases hi
  · cases hi

end Bytecheck
