import Mathlib.Logic.Relation
import Mathlib.Tactic.Common
import Bytecheck.Proofs.FixedPoint

/-!
Each entry frame is the merge of what flows into its block.

Frames that a block sent on earlier visits were merged into its successors and are still there. They
are below the frames that it sends on its last visit, because instructions are monotone, so nothing
of them is left to see: the entry frame of a block is the merge of the recorded frames that flow
into it, in any order.
-/

namespace Bytecheck.Analysis

open Relation Transfer

/-! ### What flows into a block -/

/-- The frames after the last instructions of the blocks that can be reached and have a normal edge
to the block. -/
def exitsInto (p : Problem) (a : Analysis) (b : ℕ) : List Frame :=
  p.graph.blocks.zipIdx.flatMap fun P =>
    if p.graph.reachable[P.2]? = some true ∧ (b, EdgeKind.normal) ∈ P.1.successors then
      ((a.after[P.1.stop - 1]?).join).toList
    else []

/-- The frames that exceptions at instructions that can be reached bring to handlers which begin at
the given instruction. -/
def thrownInto (p : Problem) (a : Analysis) (start : ℕ) : List Frame :=
  (List.range p.code.size).flatMap fun i =>
    match p.code.instructions[i]?, (a.before[i]?).join, (a.after[i]?).join with
    | some insn, some f, some f' =>
      if (p.graph.block? i).any fun b => p.graph.reachable[b]? = some true then
        (p.code.handlers.filter fun h => h.covers i && h.entry = start).flatMap fun h =>
          (throwing insn f f').map (handlerFrame (p.interpreter.caught h))
      else []
    | _, _, _ => []

/-- The frames that flow into a block, as recorded. -/
def inflows (p : Problem) (entry : Frame) (a : Analysis) (b : ℕ) (B : Block) : List Frame :=
  (if b = 0 then [entry] else []) ++ exitsInto p a b ++ thrownInto p a B.start

section Inflow

variable {p : Problem} {s : State} {n : ℕ} {entry x : Frame} {R : VType → VType → Prop}
  {a : Analysis} {b : ℕ} {B : Block}

/-- A stable block sends the frame to the block. -/
def Inflow (p : Problem) (s : State) (b : ℕ) (x : Frame) : Prop :=
  ∃ (u : ℕ) (P : Block) (e : Frame), p.graph.blocks[u]? = some P ∧
    s.states[u]? = some (.stable e) ∧ Sends p P e b x

lemma mem_exitsInto_iff : x ∈ exitsInto p a b ↔
    ∃ (u : ℕ) (P : Block), p.graph.blocks[u]? = some P ∧ p.graph.reachable[u]? = some true ∧
      (b, EdgeKind.normal) ∈ P.successors ∧ a.after[P.stop - 1]? = some (some x) := by
  unfold exitsInto
  simp only [List.mem_flatMap, Prod.exists, List.mem_zipIdx_iff_getElem?]
  constructor
  · rintro ⟨P, u, hP, hx⟩
    split at hx
    · rename_i h
      exact ⟨u, P, hP, h.1, h.2, by simpa [Option.join_eq_some_iff] using hx⟩
    · cases hx
  · rintro ⟨u, P, hP, h1, h2, hx⟩
    refine ⟨P, u, hP, ?_⟩
    rw [if_pos ⟨h1, h2⟩, hx]
    simp

lemma mem_thrownInto_iff {start : ℕ} : x ∈ thrownInto p a start ↔
    ∃ (i : ℕ) (insn : Instruction ℕ) (f f' : Frame) (h : Handler),
      p.code.instructions[i]? = some insn ∧ a.before[i]? = some (some f) ∧
      a.after[i]? = some (some f') ∧ p.graph.Reached i ∧ p.code.Catches i h ∧ h.entry = start ∧
      ∃ y ∈ throwing insn f f', x = handlerFrame (p.interpreter.caught h) y := by
  unfold thrownInto
  simp only [List.mem_flatMap, List.mem_range]
  constructor
  · rintro ⟨i, hi, hx⟩
    split at hx
    · rename_i insn f f' hinsn hf hf'
      split at hx
      · rename_i hreach
        simp only [List.mem_flatMap, List.mem_filter, Bool.and_eq_true, decide_eq_true_eq,
          List.mem_map] at hx
        obtain ⟨h, ⟨hh, hcov, hentry⟩, y, hy, rfl⟩ := hx
        have hreached : p.graph.Reached i := by
          simpa [FlowGraph.Reached, Option.any_eq_true] using hreach
        exact ⟨i, insn, f, f', h, hinsn, Option.join_eq_some_iff.1 hf,
          Option.join_eq_some_iff.1 hf', hreached, ⟨hi, hh, hcov⟩, hentry, y, hy, rfl⟩
      · cases hx
    · cases hx
  · rintro ⟨i, insn, f, f', h, hinsn, hf, hf', ⟨b, hb, hreach⟩, ⟨hi, hh, hcov⟩, hentry, y, hy, rfl⟩
    refine ⟨i, hi, ?_⟩
    rw [hinsn, hf, hf', hb]
    simp only [Option.join_some, Option.any_some, hreach, decide_true, if_true, List.mem_flatMap,
      List.mem_filter, Bool.and_eq_true, decide_eq_true_eq, List.mem_map]
    exact ⟨h, ⟨hh, hcov, hentry⟩, y, hy, rfl⟩

/-- When nothing waits, the frames that flow into a block are those that stable blocks send to it,
and the entry frame of the method for the first block. -/
lemma mem_inflows_iff (L : p.graph.Laid p.code) (hs : Sound p R n entry s) (hq : s.queue = [])
    (hbefore : a.before = s.before) (hafter : a.after = s.after)
    (hB : p.graph.blocks[b]? = some B) :
    x ∈ inflows p entry a b B ↔ b = 0 ∧ x = entry ∨ Inflow p s b x := by
  have hblock := L.block_of_startsAt ⟨B, hB, rfl⟩
  unfold inflows
  rw [List.mem_append, List.mem_append, mem_exitsInto_iff, mem_thrownInto_iff, hbefore, hafter,
    or_assoc]
  refine or_congr ?_ ⟨?_, ?_⟩
  · by_cases h0 : b = 0 <;> simp [h0]
  · rintro (⟨u, P, hP, hreach, hsucc, hx⟩ |
      ⟨i, insn, f, f', h, hi, hf, hf', -, hcatch, hentry, y, hy, rfl⟩)
    · obtain ⟨e, he⟩ := (hs.stable_iff L hq).2 (L.reachable.1 hreach)
      obtain ⟨f, hw, hf⟩ := (hs.recorded he hP).walk_stop L hP
      rw [hx] at hf
      cases hf
      exact ⟨u, P, e, hP, he, .exit hw hsucc⟩
    · obtain ⟨u, P, e, hP, he, hp⟩ := hs.passes_of_recorded L hq hi hf hf'
      exact ⟨u, P, e, hP, he, .thrown hp hcatch ⟨hentry ▸ hblock, y, hy, rfl⟩⟩
  · rintro ⟨u, P, e, hP, he, hsend⟩
    have hreach : ReflTransGen p.graph.Linked 0 u := (hs.stable_iff L hq).1 ⟨e, he⟩
    cases hsend with
    | exit hw hsucc =>
      obtain ⟨f, hw', hf⟩ := (hs.recorded he hP).walk_stop L hP
      rw [hw.unique hw']
      exact Or.inl ⟨u, P, hP, L.reachable.2 hreach, hsucc, hf⟩
    | thrown hp hcatch hthrow =>
      obtain ⟨ht, y, hy, rfl⟩ := hthrow
      obtain ⟨insn', f, f', hp', hf, hf'⟩ := hs.recorded he hP _ hp.walk.start_le hp.lt
      obtain ⟨rfl, rfl, rfl⟩ := hp.unique hp'
      obtain ⟨V, hV, hVentry⟩ := L.startsAt_of_block hcatch.2.1 ht
      rw [hB] at hV
      cases hV
      have hreached := L.reached_iff.2 ⟨u, P, hP, hp.walk.start_le, hp.lt, hreach⟩
      exact Or.inr ⟨_, _, _, _, _, hp.code, hf, hf', hreached, hcatch, hVentry.symm, y, hy, rfl⟩

end Inflow

/-! ### Merging what flows in -/

section Merge

variable {t : ClassTable} {n : ℕ}

/-- Frames with an upper bound have a merge; it is below the bound and above all of them. -/
lemma exists_foldlM_merge (hr : t.Rooted) {u : Frame} (xs : List Frame) {x : Frame}
    (hx : Frame.Rel (Lower t) n x u) (hxs : ∀ y ∈ xs, Frame.Rel (Lower t) n y u) :
    ∃ k, xs.foldlM (Frame.merge t.hierarchy) x = .ok k ∧ Frame.Rel (Lower t) n k u ∧
      Frame.Rel (Lower t) n x k ∧ ∀ y ∈ xs, Frame.Rel (Lower t) n y k := by
  have A := lower_alike t
  induction xs generalizing x with
  | nil => exact ⟨x, rfl, hx, hr.upper.rel_refl (hx.good_left A), by simp⟩
  | cons y xs ih =>
    have hy := hxs y List.mem_cons_self
    obtain ⟨z, hz, hzu⟩ := hr.exists_merge hx hy
    obtain ⟨hxz, hyz⟩ := hr.upper.rel_merge (hx.good_left A) (hy.good_left A) hz
    obtain ⟨k, hk, hku, hzk, hall⟩ := ih hzu fun w hw => hxs w (List.mem_cons_of_mem _ hw)
    refine ⟨k, ?_, hku, hr.upper.rel_trans hxz hzk, fun w hw => ?_⟩
    · rw [List.foldlM_cons, hz]
      exact hk
    · rcases List.mem_cons.1 hw with rfl | hw
      · exact hr.upper.rel_trans hyz hzk
      · exact hall w hw

variable {m : Method} {g : FlowGraph} {code : Code} {entry : Frame} {s : State} {k : ℕ}

/-- Where one run has ended, the entry frames of every run are below the ones that it ended with,
and below whatever is above all that flows in there. -/
lemma frame_le_of_inflows (hr : t.Rooted) (L : g.Laid code)
    (hs : Sound (problem t.hierarchy m g code) (Lower t) n entry s) (hq : s.queue = []) {s' : State}
    (hruns : Runs (problem t.hierarchy m g code)
      (initial (problem t.hierarchy m g code) entry) k s')
    {b : ℕ} {f : Frame} (hf : s'.frame? b = some f) :
    ∃ e, s.states[b]? = some (.stable e) ∧ Frame.Rel (Lower t) n f e ∧
      ∀ u, (b = 0 → Frame.Rel (Lower t) n entry u) →
        (∀ x, Inflow (problem t.hierarchy m g code) s b x → Frame.Rel (Lower t) n x u) →
        Frame.Rel (Lower t) n f u := by
  refine entry_invariant L (Q := fun b f => ∃ e, s.states[b]? = some (.stable e) ∧
    Frame.Rel (Lower t) n f e ∧ ∀ u, (b = 0 → Frame.Rel (Lower t) n entry u) →
      (∀ x, Inflow (problem t.hierarchy m g code) s b x → Frame.Rel (Lower t) n x u) →
      Frame.Rel (Lower t) n f u) ?_ ?_ ?_ hruns b f hf
  · obtain ⟨e, he, hle⟩ := hs.entry
    exact ⟨e, hs.stable_of_frame hq he, hle, fun u hu _ => hu rfl⟩
  · rintro c f₁ f₂ f₃ ⟨e₁, he₁, h1, h2⟩ ⟨e₂, he₂, h3, h4⟩ hm
    rw [he₁] at he₂
    cases he₂
    exact ⟨e₁, he₁, hr.rel_merge_left h1 h3 hm, fun u hu hflow =>
      hr.rel_merge_left (h2 u hu hflow) (h4 u hu hflow) hm⟩
  · rintro c C f target x hC ⟨e, he, hle, -⟩ - hx
    -- what a block sends from a lower frame is below what it sends from the last one
    obtain ⟨y, hy, hxy⟩ := sends_lower L hC hle (hs.recorded he hC) hx
    obtain ⟨e', he', hye'⟩ := hs.sent he hC target y hy
    exact ⟨e', hs.stable_of_frame hq he', hr.upper.rel_trans hxy hye', fun u _ hflow =>
      hr.upper.rel_trans hxy (hflow y ⟨c, C, e, hC, he, hy⟩)⟩

/-- Something flows into every block that can be reached. -/
lemma exists_inflow (L : g.Laid code)
    (hs : Sound (problem t.hierarchy m g code) (Lower t) n entry s) (hq : s.queue = []) {b : ℕ}
    (hreach : ReflTransGen g.Linked 0 b) :
    b = 0 ∨ ∃ x, Inflow (problem t.hierarchy m g code) s b x := by
  rcases ReflTransGen.cases_tail hreach with rfl | ⟨u, hu, hlink⟩
  · exact Or.inl rfl
  · obtain ⟨e, he⟩ := (hs.stable_iff L hq).2 hu
    obtain ⟨P, -, hP, -⟩ := id hlink
    obtain ⟨x, hx⟩ := (hs.recorded he hP).sends L hP hlink
    exact Or.inr ⟨x, u, P, e, hP, he, hx⟩

/-- **Join soundness.** When the analysis of a method ends, the frame recorded at the start of a
block that can be reached is the merge of the frames that flow into the block, in any order and
however often each of them is taken. Within the block, each instruction turns the frame before it
into the frame after it, and that is the frame before the next one. -/
theorem before_start_eq_merge_inflows (hr : t.Rooted) (hg : FlowGraph.build code = .ok g)
    (hentry : Frame.entry m code.maxLocals = .ok entry) {settings : Settings} {a : Analysis}
    (hrun : (run (problem t.hierarchy m g code) settings entry).outcome = .ok a) {b : ℕ} {B : Block}
    (hB : g.blocks[b]? = some B) (hreach : g.reachable[b]? = some true) :
    (∃ f, a.before[B.start]? = some (some f) ∧
      ∀ l : List Frame, (∀ x, x ∈ l ↔ x ∈ inflows (problem t.hierarchy m g code) entry a b B) →
        ∃ x xs, l = x :: xs ∧ xs.foldlM (Frame.merge t.hierarchy) x = .ok f) ∧
    ∀ i, B.start ≤ i → i < B.stop → ∃ insn f f', code.instructions[i]? = some insn ∧
      a.before[i]? = some (some f) ∧ a.after[i]? = some (some f') ∧
      Transfer.step ⟨t.hierarchy, m, code.maxStack⟩ i insn f = .ok f' ∧
      (i + 1 < B.stop → a.before[i + 1]? = some (some f')) := by
  have L := FlowGraph.build_laid hg
  have S := steady_interpreter ⟨t.hierarchy, m, code.maxStack⟩ t.hierarchy g code code.maxLocals
  obtain ⟨s, hruns, hq, hbefore, hafter⟩ := run_ok hrun
  have hs : Sound (problem t.hierarchy m g code) (Lower t) code.maxLocals entry s :=
    hruns.sound L hr.upper S (good_entry hentry)
  obtain ⟨e, he⟩ := (hs.stable_iff L hq).2 (L.reachable.1 hreach)
  have hmem : ∀ x, x ∈ inflows (problem t.hierarchy m g code) entry a b B ↔
      b = 0 ∧ x = entry ∨ Inflow (problem t.hierarchy m g code) s b x :=
    fun x => mem_inflows_iff L hs hq hbefore hafter hB
  refine ⟨⟨e, by rw [hbefore, hs.before_start L hB he], fun l hl => ?_⟩, fun i h1 h2 => ?_⟩
  · -- what flows in is below the entry frame
    have hle : ∀ x ∈ l, Frame.Rel (Lower t) code.maxLocals x e := by
      intro x hx
      rcases (hmem x).1 ((hl x).1 hx) with ⟨rfl, rfl⟩ | ⟨u, P, e', hP, he', hsend⟩
      · obtain ⟨f, hf, hle⟩ := hs.entry
        have := hs.stable_of_frame hq hf
        rw [he] at this
        cases this
        exact hle
      · obtain ⟨f, hf, hle⟩ := hs.sent he' hP b x hsend
        have := hs.stable_of_frame hq hf
        rw [he] at this
        cases this
        exact hle
    cases l with
    | nil =>
      rcases exists_inflow L hs hq (L.reachable.1 hreach) with h0 | ⟨x, hx⟩
      · exact absurd ((hl entry).2 ((hmem entry).2 (Or.inl ⟨h0, rfl⟩))) (by simp)
      · exact absurd ((hl x).2 ((hmem x).2 (Or.inr hx))) (by simp)
    | cons x xs =>
      obtain ⟨f, hf, hfe, hxf, hall⟩ := exists_foldlM_merge hr xs (hle x List.mem_cons_self)
        fun y hy => hle y (List.mem_cons_of_mem _ hy)
      have habove : ∀ y, y ∈ inflows (problem t.hierarchy m g code) entry a b B →
          Frame.Rel (Lower t) code.maxLocals y f := by
        intro y hy
        rcases List.mem_cons.1 ((hl y).2 hy) with rfl | hy
        · exact hxf
        · exact hall y hy
      obtain ⟨-, -, -, hleast⟩ := frame_le_of_inflows hr L hs hq hruns (b := b) (f := e)
        (frame?_eq he)
      have hef := hleast f (fun h0 => habove entry ((hmem entry).2 (Or.inl ⟨h0, rfl⟩)))
        fun y hy => habove y ((hmem y).2 (Or.inr hy))
      exact ⟨x, xs, rfl, by rw [hf, hr.rel_antisymm hfe hef]⟩
  · obtain ⟨insn, f, f', hp, hf, hf'⟩ := hs.recorded he hB i h1 h2
    refine ⟨insn, f, f', hp.code, by rw [hbefore, hf], by rw [hafter, hf'], hp.step, fun h3 => ?_⟩
    obtain ⟨_, f₁, _, hp', hf₁, -⟩ := hs.recorded he hB (i + 1) (by omega) h3
    rw [hbefore, hf₁, hp'.walk.unique (.next hp.walk hp.lt hp.code hp.step)]

end Merge

/-- In the sample method, two classes flow into the loop, and their merge is there. -/
theorem before_start_eq_merge_inflows_sample : ∃ a B,
    (run Sample.problem .standard Sample.entry).outcome = .ok a ∧
    Sample.problem.graph.blocks[1]? = some B ∧
    (∃ f, a.before[B.start]? = some (some f) ∧
      ∀ l : List Frame, (∀ x, x ∈ l ↔ x ∈ inflows Sample.problem Sample.entry a 1 B) →
        ∃ x xs, l = x :: xs ∧ xs.foldlM (Frame.merge Sample.table.hierarchy) x = .ok f) ∧
    ∀ i, B.start ≤ i → i < B.stop → ∃ insn f f', Sample.code.instructions[i]? = some insn ∧
      a.before[i]? = some (some f) ∧ a.after[i]? = some (some f') ∧
      Transfer.step ⟨Sample.table.hierarchy, Sample.method, Sample.code.maxStack⟩ i insn f =
        .ok f' ∧
      (i + 1 < B.stop → a.before[i + 1]? = some (some f')) := by
  obtain ⟨a, ha⟩ := Sample.run_problem
  obtain ⟨B, hB⟩ : ∃ B, (Flow.graphOf Sample.code).blocks[1]? = some B :=
    ⟨_, List.getElem?_eq_getElem (by decide +kernel)⟩
  exact ⟨a, B, ha, hB, before_start_eq_merge_inflows Sample.wellFormed_table.rooted
    Sample.build_code Sample.entry_method ha hB (by decide +kernel)⟩

end Bytecheck.Analysis
