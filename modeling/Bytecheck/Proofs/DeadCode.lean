import Mathlib.Data.List.TFAE
import Mathlib.Logic.Relation
import Mathlib.Tactic.Common
import Bytecheck.Proofs.Constructors

/-!
Dead code.

Two searches look for the code that can be reached: one over the blocks of the graph, to tell which
of them are dead, and the analysis itself, which records frames wherever it gets to. Both find the
instructions that a path of control leads to from the first one, and no others
(`Laid.reached_iff_reaches`, `Sound.recorded_or_blank`).
-/

namespace Bytecheck

open Relation

/-! ### Paths from the first instruction -/

namespace Code

variable {c : Code} {i j : ℕ}

/-- A path leads from the first instruction to the given one. -/
def Reaches (c : Code) (i : ℕ) : Prop := ∃ l, c.Path 0 l i

lemma Path.concat {l : List Move} {k : EdgeKind} {u : ℕ} (h : c.Path i l j)
    (hmove : c.Allows ⟨j, k, u⟩) : c.Path i (l ++ [⟨j, k, u⟩]) u := by
  induction h with
  | nil j => exact .cons (e := ⟨j, k, u⟩) hmove (.nil u)
  | cons ha _ ih => exact .cons ha (ih hmove)

lemma reaches_zero (c : Code) : c.Reaches 0 := ⟨[], .nil 0⟩

lemma Reaches.flow (h : c.Reaches i) (hflow : c.Flows i j) : c.Reaches j := by
  obtain ⟨l, hl⟩ := h
  exact ⟨_, hl.concat (k := .normal) hflow⟩

lemma Reaches.caught (h : c.Reaches i) {hd : Handler} (hcatch : c.Catches i hd) :
    c.Reaches hd.entry := by
  obtain ⟨l, hl⟩ := h
  exact ⟨_, hl.concat (k := .exception) ⟨hd, hcatch, rfl⟩⟩

end Code

/-! ### Blocks that can be reached -/

namespace FlowGraph

variable {c : Code} {g : FlowGraph} {b i j : ℕ} {B : Block}

/-- From the start of a block control gets to all of its instructions. -/
lemma Laid.reaches_of_start (L : g.Laid c) (hB : g.blocks[b]? = some B) (h : c.Reaches B.start)
    (h1 : B.start ≤ i) (h2 : i < B.stop) : c.Reaches i := by
  induction h1 with
  | refl => exact h
  | step h1 ih =>
    obtain ⟨o, ho⟩ := L.inner hB h1 h2
    exact (ih (by omega)).flow ⟨_, ho, Or.inl ⟨rfl, rfl⟩⟩

/-- A way along edges of the graph is a path through the code. -/
lemma Laid.reaches_of_linked (L : g.Laid c) (h : ReflTransGen g.Linked 0 b)
    (hB : g.blocks[b]? = some B) : c.Reaches B.start := by
  induction h generalizing B with
  | refl =>
    obtain ⟨T, hT, hstart⟩ := L.first
    rw [hB] at hT
    cases hT
    exact hstart ▸ c.reaches_zero
  | @tail a b _ hlink ih =>
    obtain ⟨A, kind, hA, hedge⟩ := hlink
    have hin : ∀ {i}, A.start ≤ i → i < A.stop → c.Reaches i :=
      fun h1 h2 => L.reaches_of_start hA (ih hA) h1 h2
    obtain ⟨hlt, -⟩ := L.bounds hA
    cases kind with
    | normal =>
      obtain ⟨j, hflow, T, hT, rfl⟩ := (L.exit hA).1 hedge
      rw [hB] at hT
      cases hT
      exact (hin (by omega) (by omega)).flow hflow
    | exception =>
      obtain ⟨i, hd, h1, h2, hcatch, T, hT, hentry⟩ := (L.thrown hA).1 hedge
      rw [hB] at hT
      cases hT
      exact hentry ▸ (hin h1 h2).caught hcatch

/-- **One move** of control stays in the blocks that can be reached. -/
lemma Laid.reached_of_move (L : g.Laid c) {e : Move} (he : c.Allows e) (h : g.Reached e.source) :
    g.Reached e.target := by
  obtain ⟨i, kind, j⟩ := e
  obtain ⟨b, B, hB, h1, h2, hreach⟩ := L.reached_iff.1 h
  -- the move goes to the start of a block, along an edge
  have hstart : ∀ {u}, g.StartsAt u j → (u, kind) ∈ B.successors → g.Reached j := by
    rintro u ⟨T, hT, rfl⟩ hedge
    exact L.reached_iff.2
      ⟨u, T, hT, Nat.le_refl _, (L.bounds hT).1, hreach.tail ⟨B, kind, hB, hedge⟩⟩
  cases kind with
  | normal =>
    have hflow : c.Flows i j := he
    by_cases hlast : i + 1 < B.stop
    · -- within a block there is no way but to the next instruction
      obtain ⟨o, ho⟩ := L.inner hB h1 hlast
      obtain ⟨insn, hi, ⟨-, rfl⟩ | htarget⟩ := hflow
      · exact L.reached_iff.2 ⟨b, B, hB, Nat.le_succ_of_le h1, hlast, hreach⟩
      · rw [ho] at hi
        cases hi
        cases htarget
    · have hi : i = B.stop - 1 := by
        have h2 : i < B.stop := h2
        omega
      rw [hi] at hflow
      obtain ⟨u, hu⟩ := L.flows hB hflow
      exact hstart hu ((L.exit hB).2 ⟨j, hflow, hu⟩)
  | exception =>
    obtain ⟨hd, hcatch, hentry⟩ := he
    have hentry : hd.entry = j := hentry
    obtain ⟨u, hu⟩ := L.entry hcatch.2.1
    exact hstart (hentry ▸ hu) ((L.thrown hB).2 ⟨i, hd, h1, h2, hcatch, hu⟩)

/-- **The search over blocks finds the code that paths lead to.** -/
theorem Laid.reached_iff_reaches (L : g.Laid c) : g.Reached i ↔ c.Reaches i := by
  constructor
  · intro h
    obtain ⟨b, B, hB, h1, h2, hreach⟩ := L.reached_iff.1 h
    exact L.reaches_of_start hB (L.reaches_of_linked hreach hB) h1 h2
  · rintro ⟨l, hl⟩
    have hpath : ∀ {i l j}, c.Path i l j → g.Reached i → g.Reached j := by
      intro i l j h hi
      induction h with
      | nil => exact hi
      | cons he _ ih => exact ih (L.reached_of_move he hi)
    obtain ⟨T, hT, hstart⟩ := L.first
    refine hpath hl (L.reached_iff.2 ⟨0, T, hT, Nat.le_of_eq hstart, ?_, .refl⟩)
    exact hstart ▸ (L.bounds hT).1

/-- The dead code of a graph is what is in none of the blocks that can be reached. -/
lemma dead_iff (hg : build c = .ok g) (hi : i < c.size) :
    (∃ r ∈ g.deadCode, r.1 ≤ i ∧ i < r.2) ↔ ¬ g.Reached i := by
  have L := build_laid hg
  have hlen : g.reachable.length = g.blocks.length := by
    obtain ⟨-, rfl⟩ := build_eq_ok_iff.1 hg
    rw [Flow.length_reachable, Flow.length_blocks]
  unfold deadCode
  simp only [List.mem_map, List.mem_filter, Prod.exists, Bool.not_eq_eq_eq_not, Bool.not_true]
  constructor
  · rintro ⟨x, y, ⟨B, flag, ⟨hmem, hdead⟩, hB⟩, h1, h2⟩ ⟨b', hb', hreach⟩
    cases hB
    obtain ⟨b, hb⟩ := List.mem_iff_getElem?.1 hmem
    obtain ⟨hB, hflag⟩ := List.getElem?_zip_eq_some.1 hb
    rw [L.block hB h1 h2] at hb'
    cases hb'
    rw [hflag] at hreach
    cases hreach
    cases hdead
  · intro hdead
    obtain ⟨b, B, hB, h1, h2⟩ := L.cover hi
    have hlt : b < g.reachable.length := hlen ▸ (List.getElem?_eq_some_iff.1 hB).1
    obtain ⟨flag, hflag⟩ : ∃ flag, g.reachable[b]? = some flag :=
      ⟨_, List.getElem?_eq_getElem hlt⟩
    refine ⟨B.start, B.stop, ⟨B, flag, ⟨?_, ?_⟩, rfl⟩, h1, h2⟩
    · exact List.mem_of_getElem? (List.getElem?_zip_eq_some.2 ⟨hB, hflag⟩)
    · cases flag with
      | false => rfl
      | true => exact absurd ⟨b, L.block hB h1 h2, hflag⟩ hdead

end FlowGraph

/-! ### Frames of accepted methods -/

namespace Analysis

variable {p : Problem} {R : VType → VType → Prop} {n i : ℕ} {entry : Frame} {s : State}

/-- When nothing waits, an instruction that can be reached has frames before and after it, and any
other instruction has none. -/
lemma Sound.recorded_or_blank (L : p.graph.Laid p.code) (hs : Sound p R n entry s)
    (hq : s.queue = []) (hi : i < p.code.size) :
    (p.graph.Reached i ∧ ∃ f f', s.before[i]? = some (some f) ∧ s.after[i]? = some (some f')) ∨
      ¬ p.graph.Reached i ∧ s.before[i]? = some none ∧ s.after[i]? = some none := by
  obtain ⟨b, B, hB, h1, h2⟩ := L.cover hi
  rcases hs.unvisited_or_stable hq (List.getElem?_eq_some_iff.1 hB).1 with hst | ⟨e, hst⟩
  · refine Or.inr ⟨fun hreached => ?_, hs.blank hst hB i h1 h2⟩
    obtain ⟨b', hb', hreach⟩ := hreached
    rw [L.block hB h1 h2] at hb'
    cases hb'
    obtain ⟨e, he⟩ := (hs.stable_iff L hq).2 (L.reachable.1 hreach)
    rw [hst] at he
    cases he
  · have hreach := (hs.stable_iff L hq).1 ⟨e, hst⟩
    obtain ⟨-, f, f', -, hf, hf'⟩ := hs.recorded hst hB i h1 h2
    exact Or.inl ⟨L.reached_iff.2 ⟨b, B, hB, h1, h2, hreach⟩, f, f', hf, hf'⟩

variable {h : Hierarchy} {settings : Settings} {m : Method} {code : Code}
  {lineOf? : ℕ → Option ℕ} {v : Verified}

/-- The frames of an accepted method, and what it reports as dead. -/
lemma method_recorded_or_blank
    (hok : (Verify.method h settings m code lineOf?).outcome = .ok v) (hi : i < code.size) :
    (code.Reaches i ∧ v.isDead i = false ∧
      ∃ f f', v.before[i]? = some (some f) ∧ v.after[i]? = some (some f')) ∨
    ¬ code.Reaches i ∧ v.isDead i = true ∧ v.before[i]? = some none ∧ v.after[i]? = some none := by
  obtain ⟨g, entry, a, hg, hentry, hrun, rfl⟩ := method_ok hok
  obtain ⟨s, hruns, hq, hbefore, hafter⟩ := run_ok hrun
  have L := FlowGraph.build_laid hg
  have hs : Sound (problem h m g code) Kindred code.maxLocals entry s :=
    hruns.sound L (kindred_upper h) (steady_interpreter _ _ _ _ _) (good_entry hentry)
  have hdead : Verified.isDead ⟨a.before, a.after, g.deadCode⟩ i = true ↔ ¬ code.Reaches i := by
    rw [← L.reached_iff_reaches, ← FlowGraph.dead_iff hg hi]
    simp [Verified.isDead]
  simp only [hbefore, hafter] at hdead ⊢
  rcases hs.recorded_or_blank L hq hi with ⟨hreached, hframes⟩ | ⟨hreached, hblank⟩
  · have hreaches := L.reached_iff_reaches.1 hreached
    exact Or.inl ⟨hreaches, by simpa [hreaches] using hdead, hframes⟩
  · have hreaches := mt L.reached_iff_reaches.2 hreached
    exact Or.inr ⟨hreaches, hdead.2 hreaches, hblank⟩

/-- **Dead code is the code without frames.** In an accepted method, an instruction has no frame
before it if and only if it has none after it, if and only if it is reported as dead, if and only if
no path of control leads to it from the first instruction. -/
theorem dead_tfae (hok : (Verify.method h settings m code lineOf?).outcome = .ok v)
    (hi : i < code.size) :
    [v.before[i]? = some none, v.after[i]? = some none, v.isDead i = true,
      ¬ ∃ l, code.Path 0 l i].TFAE := by
  rcases method_recorded_or_blank hok hi with
    ⟨⟨l, hl⟩, hdead, f, f', hf, hf'⟩ | ⟨hreaches, hdead, hf, hf'⟩
  · -- a path leads there, and none of the four holds
    have hpath : ∃ l, code.Path 0 l i := ⟨l, hl⟩
    exact List.tfae_of_forall False _ (by simp [hf, hf', hdead, hpath])
  · have hpath : ¬ ∃ l, code.Path 0 l i := hreaches
    exact List.tfae_of_forall True _ (by simp [hf, hf', hdead, hpath])

end Analysis

/-! ### A method with dead code -/

namespace Maze

def owner : BinaryName := ⟨"p/Maze", by decide +kernel⟩

def method : Method := ⟨owner, ⟨"run", by decide +kernel⟩, ⟨[], none⟩, ⟨8⟩⟩

/-- A loop in the range of two handlers, a loop that nothing leads to, and a return after a
throw. -/
def code : Code where
  instructions := [.op .aconstNull, .branch (.ifNull .eq 0), .branch (.leave none),
    .branch (.goto 3), .branch .athrow, .branch (.leave none)]
  maxStack := 1
  maxLocals := 0
  handlers := [⟨0, 2, 4, none⟩, ⟨1, 5, 4, none⟩]

def hierarchy : Hierarchy := ClassTable.hierarchy ⟨[]⟩

/-- The instructions of the maze that nothing leads to. -/
def dead : List (ℕ × ℕ) := [(3, 4), (5, 6)]

lemma accepted : ∃ v,
    (Verify.method hierarchy .standard method code fun _ => none).outcome = .ok v ∧
    v.deadCode = dead := map_ok_iff.1 (by decide +kernel)

end Maze

/-- The dead code of the maze has no frames, and no path leads to it. -/
theorem dead_tfae_maze : ∃ v,
    (Verify.method Maze.hierarchy .standard Maze.method Maze.code fun _ => none).outcome = .ok v ∧
    v.deadCode = Maze.dead ∧ ∀ i, i < Maze.code.size →
      [v.before[i]? = some none, v.after[i]? = some none, v.isDead i = true,
        ¬ ∃ l, Maze.code.Path 0 l i].TFAE := by
  obtain ⟨v, hv, hdead⟩ := Maze.accepted
  exact ⟨v, hv, hdead, fun i hi => Analysis.dead_tfae hv hi⟩

end Bytecheck
