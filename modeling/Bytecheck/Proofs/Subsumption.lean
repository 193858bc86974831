import Mathlib.Data.List.Forall2
import Mathlib.Tactic.Common
import Bytecheck.Proofs.FrameOrder

/-!
Frames that add nothing.

A frame is below another one when merging it in changes nothing. Over a tree of classes this test
decides the order of frames that are formed as the analysis forms them. An instruction keeps the
order, and it leaves formed frames, so that one instruction can follow the other.
-/

namespace Bytecheck

variable {n : ℕ} {f f' g g' : Frame}

/-! ### Formed frames -/

/-- Frames as the analysis forms them: the stack is what its values make it, every value on it has
a type, and wide locals take two slots. -/
@[mk_iff]
structure Frame.Formed (f : Frame) : Prop where
  stack_eq : f.stack = .ofList f.stack.toList
  top : .top ∉ f.stack.toList
  bottom : .bottom ∉ f.stack.toList ++ f.locals
  paired : Paired f.locals

lemma paired_iff {l : List VType} :
    Paired l ↔ ∀ i : Fin l.length, width l[i] = 2 → l[i.1 + 1]? = some .top := by
  constructor
  · exact fun h i => h i _ (List.getElem?_eq_getElem i.2)
  · intro h i x hx
    obtain ⟨hi, rfl⟩ := List.getElem?_eq_some_iff.1 hx
    exact h ⟨i, hi⟩

instance (l : List VType) : Decidable (Paired l) := decidable_of_iff' _ paired_iff

instance : Decidable f.Formed := decidable_of_iff' _ f.formed_iff

lemma Frame.Formed.good (hf : f.Formed) : f.Good f.locals.length where
  stack := by
    refine Stack.rel_iff.2 ⟨hf.stack_eq, hf.stack_eq, List.forall₂_same.2 fun x hx => ⟨rfl, ?_, ?_⟩⟩
    · rintro rfl
      exact hf.top hx
    · rintro rfl
      exact hf.bottom (List.mem_append_left _ hx)
  left := rfl
  right := rfl
  locals := by
    intro i x y hx hy
    rw [hx] at hy
    cases hy
    have hb : x ≠ .bottom := by
      rintro rfl
      exact hf.bottom (List.mem_append_right _ (List.mem_of_getElem? hx))
    by_cases htop : x = .top
    · exact Or.inl ⟨hb, htop⟩
    · exact Or.inr ⟨rfl, htop, hb⟩
  paired := hf.paired

lemma Frame.Good.formed (hf : f.Good n) : f.Formed where
  stack_eq := hf.stack_eq
  top := fun h => (hf.stack_isValue h).1 rfl
  bottom := by
    intro h
    rcases List.mem_append.1 h with h | h
    · exact (hf.stack_isValue h).2 rfl
    · obtain ⟨i, hi⟩ := List.mem_iff_getElem?.1 h
      exact hf.local_ne_bottom hi rfl
  paired := hf.paired

/-! ### The order that a merge decides -/

/-- The first frame adds nothing to the second: merging it in leaves the second as it was. -/
def Frame.Below (h : Hierarchy) (f g : Frame) : Prop :=
  ∃ m, g.merge h f = .ok m ∧ m.same g = true

variable {t : ClassTable}

lemma ClassTable.Rooted.lower_of_join_eq (hr : t.Rooted) {x y : VType} (hx : x ≠ .bottom)
    (hy : y.IsValue) (hj : y.join t.hierarchy x = y) : Lower t x y := by
  have hle := (VType.under_iff_join_eq hr).2 hj
  refine ⟨hle, ⟨?_, hx⟩, hy⟩
  rintro rfl
  cases hle
  · exact hy.2 rfl
  · exact hy.1 rfl

lemma ClassTable.Rooted.forall₂_of_zipWith_eq (hr : t.Rooted) {l l' : List VType}
    (hlen : l.length = l'.length) (hl : ∀ x ∈ l, x.IsValue) (hb : .bottom ∉ l')
    (hj : List.zipWith (VType.join t.hierarchy) l' l = l') : List.Forall₂ (Lower t) l l' := by
  induction l generalizing l' with
  | nil =>
    cases l' with
    | nil => exact .nil
    | cons y l' => cases hlen
  | cons x l ih =>
    cases l' with
    | nil => cases hlen
    | cons y l' =>
      simp only [List.zipWith_cons_cons, List.cons.injEq, List.mem_cons, not_or] at hj hb
      have hx := hl x List.mem_cons_self
      have hle := (VType.under_iff_join_eq hr).2 hj.1
      -- only an unset slot is below an unset slot
      have htop : y ≠ .top := by
        rintro rfl
        cases hle
        exact hx.1 rfl
      exact .cons (hr.lower_of_join_eq hx.2 ⟨htop, Ne.symm hb.1⟩ hj.1)
        (ih (Nat.succ.inj hlen) (fun z hz => hl z (List.mem_cons_of_mem _ hz)) hb.2 hj.2)

lemma ClassTable.Rooted.localRel_of_joinLocal_eq (hr : t.Rooted) {x y : VType} (hx : x ≠ .bottom)
    (hj : Frame.joinLocal t.hierarchy y x = y) : LocalRel (Lower t) x y := by
  by_cases htop : y = .top
  · exact Or.inl ⟨hx, htop⟩
  · have hyb : y ≠ .bottom := hj ▸ Frame.joinLocal_ne_bottom y x
    rw [Frame.joinLocal_eq] at hj
    split at hj
    · exact absurd hj.symm htop
    · exact Or.inr (hr.lower_of_join_eq hx ⟨htop, hyb⟩ hj)

/-- A stack into which another one of the same shape is merged without a change is above it. -/
lemma ClassTable.Rooted.stack_rel_of_joins (hr : t.Rooted) (hf : f.Good n)
    (hshape : g.sameShape f = true)
    (hb : .bottom ∉ List.zipWith (VType.join t.hierarchy) g.stack.toList f.stack.toList)
    (hentries : (Frame.joins t.hierarchy g f).stack.entries = g.stack.entries) :
    Stack.Rel (Lower t) f.stack g.stack := by
  obtain ⟨hlen, hdepth⟩ := Frame.sameShape_iff.1 hshape
  have hlist : List.zipWith (VType.join t.hierarchy) g.stack.toList f.stack.toList =
      g.stack.toList := by
    have : (Frame.joins t.hierarchy g f).stack.toList = g.stack.toList := by
      unfold SlotVec.toList
      rw [hentries]
    rwa [Frame.toList_joins] at this
  rw [hlist] at hb
  have hforall := hr.forall₂_of_zipWith_eq hlen.symm (fun _ => hf.stack_isValue) hb hlist
  have hrel : Stack.Rel (Lower t) f.stack (.ofList g.stack.toList) := by
    rw [hf.stack_eq]
    exact Stack.Rel.empty.append hforall
  -- the heights agree as well, so the stack of the second frame is what its values make it
  have hstack : g.stack = .ofList g.stack.toList := by
    have h1 : (SlotVec.ofList g.stack.toList).entries = g.stack.entries := by
      rw [← hentries, Frame.joins, hlist]
    have h2 : (SlotVec.ofList g.stack.toList).height = g.stack.height := by
      rw [← hrel.height_eq (lower_alike t)]
      exact hdepth.symm
    calc g.stack = ⟨g.stack.entries, g.stack.height⟩ := rfl
      _ = .ofList g.stack.toList := by rw [← h1, ← h2]
  exact hstack ▸ hrel

/-- **The order of frames is decided by a merge.** -/
theorem ClassTable.Rooted.below_iff (hr : t.Rooted) (hf : f.Good n) (hg : g.locals.length = n) :
    f.Below t.hierarchy g ↔ Frame.Rel (Lower t) n f g := by
  have A := lower_alike t
  constructor
  · rintro ⟨m, hm, hsame⟩
    obtain ⟨hshape, hb, rfl⟩ := Frame.merge_eq_ok_iff.1 hm
    obtain ⟨hentries, hlocals⟩ := Frame.same_eq_true_iff.1 hsame
    refine ⟨hr.stack_rel_of_joins hf hshape hb hentries, hf.left, hg, ?_, hf.paired⟩
    intro i x y hx hy
    have hjoins : (Frame.joins t.hierarchy g f).locals[i]? = some y := by rw [hlocals, hy]
    simp only [Frame.joins, List.getElem?_zipWith, hx, hy, Option.some.injEq] at hjoins
    exact hr.localRel_of_joinLocal_eq (hf.local_ne_bottom hx) hjoins
  · intro hfg
    have hgood := hfg.good_right A
    have hgg := hr.upper.rel_refl hgood
    obtain ⟨m, hm, hmg⟩ := hr.exists_merge hgg hfg
    obtain ⟨hgm, -⟩ := hr.upper.rel_merge hgood hf hm
    refine ⟨m, hm, ?_⟩
    rw [hr.rel_antisymm hmg hgm]
    exact (hgood.same_iff hgood).2 rfl

/-! ### Instructions -/

/-- **Instructions are monotone.** Where an instruction succeeds on two frames of which one is below
the other, it leaves such frames. That the upper frame is formed need not be asked: it follows. -/
theorem ClassTable.Rooted.below_step (hr : t.Rooted) {m : Method} {maxStack i : ℕ}
    {insn : Instruction ℕ} (hf : f.Formed) (hlen : g.locals.length = f.locals.length)
    (hfg : f.Below t.hierarchy g)
    (hf' : Transfer.step ⟨t.hierarchy, m, maxStack⟩ i insn f = .ok f')
    (hg' : Transfer.step ⟨t.hierarchy, m, maxStack⟩ i insn g = .ok g') :
    f'.Below t.hierarchy g' ∧ f'.Formed ∧ g'.Formed ∧ g'.locals.length = f'.locals.length := by
  have A := lower_alike t
  have hrel := (hr.below_iff hf.good hlen).1 hfg
  have hstep := step_lower hrel hf' hg'
  have hgood := hstep.good_left A
  exact ⟨(hr.below_iff hgood hstep.right).2 hstep, hgood.formed, (hstep.good_right A).formed,
    hstep.right.trans hstep.left.symm⟩

/-! ### A receiver that one frame has lost -/

namespace Losing

def owner : BinaryName := ⟨"p/Heir", by decide +kernel⟩

/-- Nothing is recorded of the class, so its superclass is the root class. -/
def table : ClassTable := ⟨[]⟩

def method : Method := ⟨owner, .init, ⟨[], none⟩, ⟨1⟩⟩

/-- The call of a constructor of the superclass. -/
def call : Instruction ℕ := .op (.invoke .special ⟨.object .object, .init, ⟨[], none⟩, false⟩)

/-- A frame with a copy of the receiver in its locals. -/
def kept : Frame := ⟨[.uninitThis, .long, .top], .ofList [.ofClass owner, .uninitThis]⟩

/-- A frame that lost its locals in a merge. -/
def lost : Frame := ⟨[.top, .top, .top], .ofList [.ofClass .object, .uninitThis]⟩

/-- The copy in the locals of one frame is initialized, and there is none in the other. -/
theorem below_step_receiver : kept.Formed ∧ kept.Below table.hierarchy lost ∧
    ∃ f' g', Transfer.step ⟨table.hierarchy, method, 2⟩ 0 call kept = .ok f' ∧
      Transfer.step ⟨table.hierarchy, method, 2⟩ 0 call lost = .ok g' ∧
      f'.locals = [.ofClass owner, .long, .top] ∧ g'.locals = [.top, .top, .top] ∧
      f'.Below table.hierarchy g' := by
  have hr : table.Rooted := by decide +kernel
  have hformed : kept.Formed := by decide +kernel
  have hlen : lost.locals.length = kept.locals.length := rfl
  have hbelow : kept.Below table.hierarchy lost := ⟨lost, by decide +kernel, by decide +kernel⟩
  have hkept : Transfer.step ⟨table.hierarchy, method, 2⟩ 0 call kept =
      .ok ⟨[.ofClass owner, .long, .top], .ofList [.ofClass owner]⟩ := by decide +kernel
  have hlost : Transfer.step ⟨table.hierarchy, method, 2⟩ 0 call lost =
      .ok ⟨[.top, .top, .top], .ofList [.ofClass .object]⟩ := by decide +kernel
  exact ⟨hformed, hbelow, _, _, hkept, hlost, rfl, rfl,
    (hr.below_step hformed hlen hbelow hkept hlost).1⟩

end Losing

end Bytecheck
