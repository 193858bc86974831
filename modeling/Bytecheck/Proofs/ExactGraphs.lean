import Mathlib.Data.List.Induction
import Mathlib.Data.List.Nodup
import Mathlib.Tactic.Common
import Bytecheck.Proofs.Layout

/-!
Flow graphs say neither more nor less than the code.

The blocks of a graph follow one another through the code, and each of them starts where the code
asks for it. Every edge is a way that control can take, every way has its edge, and an edge is noted
once at each of its ends. `FlowGraph.Exact` says so in the words of the code alone; `build_exact`
says that every graph that is built is exact.
-/

namespace Bytecheck

/-- The graph is that of the code, with nothing missing and nothing added. -/
structure FlowGraph.Exact (c : Code) (g : FlowGraph) : Prop where
  first : ∃ B, g.blocks[0]? = some B ∧ B.start = 0
  nonempty : ∀ {b : ℕ} {B : Block}, g.blocks[b]? = some B → B.start < B.stop
  /-- A block starts where the one before it stops. -/
  next : ∀ {b : ℕ} {B N : Block}, g.blocks[b]? = some B → g.blocks[b + 1]? = some N →
    N.start = B.stop
  /-- The last block stops at the end of the code. -/
  last : ∀ {b : ℕ} {B : Block}, g.blocks[b]? = some B → g.blocks[b + 1]? = none → B.stop = c.size
  cover : ∀ {i : ℕ}, i < c.size → ∃ b, g.block? i = some b
  block : ∀ {i b : ℕ}, g.block? i = some b ↔
    ∃ B, g.blocks[b]? = some B ∧ B.start ≤ i ∧ i < B.stop
  start : ∀ {i : ℕ}, 0 < i →
    ((∃ (b : ℕ) (B : Block), g.blocks[b]? = some B ∧ B.start = i) ↔ i < c.size ∧ c.Leads i)
  /-- Before its last instruction a block has no branch. -/
  inner : ∀ {b i : ℕ} {B : Block} {insn : Instruction ℕ}, g.blocks[b]? = some B → B.start ≤ i →
    i + 1 < B.stop → c.instructions[i]? = some insn → insn.isBranch = false
  normal : ∀ {b s : ℕ} {B S : Block}, g.blocks[b]? = some B → g.blocks[s]? = some S →
    ((s, .normal) ∈ B.successors ↔ ∃ insn, c.instructions[B.stop - 1]? = some insn ∧
      (insn.fallsThrough = true ∧ S.start = B.stop ∨ S.start ∈ insn.targets))
  exception : ∀ {b s : ℕ} {B S : Block}, g.blocks[b]? = some B → g.blocks[s]? = some S →
    ((s, .exception) ∈ B.successors ↔
      ∃ i, B.start ≤ i ∧ i < B.stop ∧ ∃ h ∈ c.handlers, h.covers i = true ∧ h.entry = S.start)
  mirror : ∀ {b s : ℕ} {B S : Block} {k : EdgeKind}, g.blocks[b]? = some B →
    g.blocks[s]? = some S → ((s, k) ∈ B.successors ↔ (b, k) ∈ S.predecessors)
  nodup : ∀ {b : ℕ} {B : Block}, g.blocks[b]? = some B →
    B.successors.Nodup ∧ B.predecessors.Nodup
  /-- Edges have blocks at both ends. -/
  inside : ∀ {b : ℕ} {B : Block} {e : Edge}, g.blocks[b]? = some B →
    e ∈ B.successors ∨ e ∈ B.predecessors → ∃ S, g.blocks[e.1]? = some S

namespace Flow

variable {c : Code}

/-! ### Starts of blocks -/

lemma exists_block_iff {i : ℕ} :
    (∃ (b : ℕ) (B : Block), (graphOf c).blocks[b]? = some B ∧ B.start = i) ↔ i ∈ leaders c := by
  constructor
  · rintro ⟨b, B, hB, rfl⟩
    exact List.mem_of_getElem? (located_of_getElem? hB).start
  · exact fun hi => ⟨_, exists_block_of_mem_leaders hi⟩

/-! ### Both ends of an edge -/

lemma nodup_eraseDups {α : Type} [BEq α] [LawfulBEq α] (l : List α) : l.eraseDups.Nodup := by
  induction l using List.reverseRecOn with
  | nil => simp
  | append_singleton l a ih =>
    rw [eraseDups_concat]
    split
    · exact ih
    · rename_i ha
      refine List.nodup_append.2 ⟨ih, List.nodup_singleton a, fun x hx y hy hxy => ?_⟩
      rw [hxy, List.mem_singleton.1 hy, List.mem_eraseDups] at hx
      exact ha hx

lemma map_successors_blocks (c : Code) : (graphOf c).blocks.map Block.successors =
    (ranges c).map fun r => successors c (leaders c) r.1 r.2 := by
  have hsnd : ∀ {α β : Type} (l : List (α × β)), l.zipIdx.map (fun p => p.1.2) = l.map Prod.snd := by
    intro α β l
    conv_rhs => rw [← List.zipIdx_map_fst 0 l, List.map_map]
    rfl
  unfold graphOf
  rw [List.map_map]
  exact (hsnd _).trans (List.map_snd_zip (by simp))

/-- The edges out of the blocks are where the edges into them are looked up. -/
lemma predecessors_of_getElem? {b : ℕ} {B : Block} (h : (graphOf c).blocks[b]? = some B) :
    B.predecessors = predecessors ((graphOf c).blocks.map Block.successors) b := by
  rw [map_successors_blocks]
  unfold graphOf at h
  simp only [List.getElem?_map, List.getElem?_zipIdx, Option.map_eq_some_iff] at h
  obtain ⟨-, ⟨⟨⟨x, y⟩, es⟩, -, rfl⟩, rfl⟩ := h
  rw [Nat.zero_add]

variable {edges : List (List Edge)} {b p : ℕ} {k : EdgeKind}

lemma mem_predecessors_iff :
    (p, k) ∈ predecessors edges b ↔ ∃ es, edges[p]? = some es ∧ (b, k) ∈ es := by
  unfold predecessors
  simp only [List.mem_flatMap, List.mem_map, List.mem_filter, Prod.exists,
    List.mem_zipIdx_iff_getElem?, Prod.mk.injEq, decide_eq_true_eq]
  constructor
  · rintro ⟨es, j, hes, u, l, ⟨he, rfl⟩, rfl, rfl⟩
    exact ⟨es, hes, he⟩
  · rintro ⟨es, hes, he⟩
    exact ⟨es, p, hes, b, k, ⟨he, rfl⟩, rfl, rfl⟩

/-- The edges into a block come from different blocks or are of different kinds. -/
lemma nodup_predecessors (h : ∀ es ∈ edges, es.Nodup) (b : ℕ) : (predecessors edges b).Nodup := by
  unfold predecessors
  rw [List.nodup_flatMap]
  constructor
  · rintro ⟨es, j⟩ hes
    refine (List.Nodup.filter _ (h es (List.fst_mem_of_mem_zipIdx hes))).map_on ?_
    rintro ⟨u, k⟩ hu ⟨v, l⟩ hv huv
    simp only [List.mem_filter, decide_eq_true_eq] at hu hv
    simp only [Prod.mk.injEq, true_and] at huv
    rw [hu.2, hv.2, huv]
  · have hplaces : edges.zipIdx.Pairwise fun p q => p.2 ≠ q.2 := by
      rw [← List.pairwise_map (f := Prod.snd) (R := (· ≠ ·)), List.zipIdx_map_snd]
      exact List.nodup_range'
    refine hplaces.imp fun {p q} hpq => ?_
    intro e hp hq
    obtain ⟨x, -, rfl⟩ := List.mem_map.1 hp
    obtain ⟨y, -, heq⟩ := List.mem_map.1 hq
    exact hpq (congrArg Prod.fst heq).symm

lemma mirrored {S B : Block} (hB : (graphOf c).blocks[p]? = some B)
    (hS : (graphOf c).blocks[b]? = some S) : (b, k) ∈ B.successors ↔ (p, k) ∈ S.predecessors := by
  rw [predecessors_of_getElem? hS, mem_predecessors_iff, List.getElem?_map, hB]
  simp

lemma nodup_edges {B : Block} (hB : (graphOf c).blocks[b]? = some B) :
    B.successors.Nodup ∧ B.predecessors.Nodup := by
  have hall : ∀ es ∈ (graphOf c).blocks.map Block.successors, es.Nodup := by
    intro es hes
    rw [map_successors_blocks] at hes
    obtain ⟨r, -, rfl⟩ := List.mem_map.1 hes
    exact nodup_eraseDups _
  rw [predecessors_of_getElem? hB]
  exact ⟨hall _ (List.mem_map_of_mem (List.mem_of_getElem? hB)), nodup_predecessors hall b⟩

lemma exists_block_of_edge (hc : c.Sound) {B : Block} {e : Edge}
    (hB : (graphOf c).blocks[b]? = some B) (he : e ∈ B.successors ∨ e ∈ B.predecessors) :
    ∃ S, (graphOf c).blocks[e.1]? = some S := by
  rcases he with he | he
  · exact ⟨_, List.getElem?_eq_getElem (linked_lt hc ⟨B, e.2, hB, he⟩)⟩
  · rw [predecessors_of_getElem? hB] at he
    obtain ⟨es, hes, -⟩ := mem_predecessors_iff.1 he
    rw [List.getElem?_map] at hes
    obtain ⟨S, hS, -⟩ := Option.map_eq_some_iff.1 hes
    exact ⟨S, hS⟩

/-! ### Neighbouring blocks -/

lemma start_next {B N : Block} (hB : (graphOf c).blocks[b]? = some B)
    (hN : (graphOf c).blocks[b + 1]? = some N) : N.start = B.stop := by
  have hstart := (located_of_getElem? hN).start
  rcases (located_of_getElem? hB).stop with hs | ⟨hs, -⟩
  · rw [hs] at hstart
    exact (Option.some.inj hstart).symm
  · rw [hs] at hstart
    cases hstart

lemma stop_last {B : Block} (hB : (graphOf c).blocks[b]? = some B)
    (hlast : (graphOf c).blocks[b + 1]? = none) : B.stop = c.size := by
  rcases (located_of_getElem? hB).stop with hs | ⟨-, hs⟩
  · have hlt := (List.getElem?_eq_some_iff.1 hs).1
    rw [List.getElem?_eq_none_iff, length_blocks] at hlast
    omega
  · exact hs

end Flow

namespace FlowGraph

variable {c : Code} {g : FlowGraph} {b s i : ℕ} {B S : Block}

lemma startsAt_iff (hS : g.blocks[s]? = some S) {j : ℕ} : g.StartsAt s j ↔ S.start = j := by
  simp [StartsAt, hS]

lemma Laid.block_iff (L : Laid c g) :
    g.block? i = some b ↔ ∃ B, g.blocks[b]? = some B ∧ B.start ≤ i ∧ i < B.stop := by
  refine ⟨fun hb => ?_, fun ⟨B, hB, h1, h2⟩ => L.block hB h1 h2⟩
  obtain ⟨b', B, hB, h1, h2⟩ := L.cover (L.inside hb)
  rw [L.block hB h1 h2] at hb
  cases hb
  exact ⟨B, hB, h1, h2⟩

lemma Laid.isBranch_inner (L : Laid c g) {insn : Instruction ℕ} (hB : g.blocks[b]? = some B)
    (h1 : B.start ≤ i) (h2 : i + 1 < B.stop) (hi : c.instructions[i]? = some insn) :
    insn.isBranch = false := by
  obtain ⟨o, ho⟩ := L.inner hB h1 h2
  rw [ho] at hi
  cases hi
  rfl

lemma Laid.normal_iff (L : Laid c g) (hB : g.blocks[b]? = some B) (hS : g.blocks[s]? = some S) :
    (s, .normal) ∈ B.successors ↔ ∃ insn, c.instructions[B.stop - 1]? = some insn ∧
      (insn.fallsThrough = true ∧ S.start = B.stop ∨ S.start ∈ insn.targets) := by
  have hstop : B.stop - 1 + 1 = B.stop := Nat.sub_add_cancel (Nat.zero_lt_of_lt (L.bounds hB).1)
  rw [L.exit hB]
  simp only [startsAt_iff hS, exists_eq_right', Code.Flows, hstop]

lemma Laid.exception_iff (L : Laid c g) (hB : g.blocks[b]? = some B) (hS : g.blocks[s]? = some S) :
    (s, .exception) ∈ B.successors ↔
      ∃ i, B.start ≤ i ∧ i < B.stop ∧ ∃ h ∈ c.handlers, h.covers i = true ∧ h.entry = S.start := by
  rw [L.thrown hB]
  simp only [startsAt_iff hS]
  constructor
  · rintro ⟨i, h, h1, h2, ⟨-, hh, hcov⟩, heq⟩
    exact ⟨i, h1, h2, h, hh, hcov, heq.symm⟩
  · rintro ⟨i, h1, h2, h, hh, hcov, heq⟩
    exact ⟨i, h, h1, h2, ⟨Nat.lt_of_lt_of_le h2 (L.bounds hB).2, hh, hcov⟩, heq.symm⟩

/-- **Flow graphs are exact**: the blocks cut the code where it asks for it, and the edges are the
ways that control can take from block to block, each noted once at both of its ends. -/
theorem build_exact (h : build c = .ok g) : g.Exact c := by
  have L := build_laid h
  obtain ⟨hc, rfl⟩ := build_eq_ok_iff.1 h
  refine ⟨L.first, fun hB => (L.bounds hB).1, Flow.start_next, Flow.stop_last, fun hi => ?_,
    L.block_iff, fun hi => ?_, L.isBranch_inner, L.normal_iff, L.exception_iff, Flow.mirrored,
    Flow.nodup_edges, Flow.exists_block_of_edge hc⟩
  · obtain ⟨b, B, hB, h1, h2⟩ := L.cover hi
    exact ⟨b, L.block hB h1 h2⟩
  · rw [Flow.exists_block_iff, Flow.mem_leaders_iff, Flow.mem_marks_iff]
    simp [Nat.ne_of_gt hi]

/-- A switch that names its cases twice, and exception ranges that cross the blocks. -/
def crossedCode : Code where
  instructions := [.op (.load (.num .int) 0), .branch (.tableSwitch 4 0 [2, 4, 2]),
    .op (.calc (.bipush 1)), .branch (.leave (some (.num .int))), .op (.calc (.bipush 0)),
    .branch (.leave (some (.num .int)))]
  maxStack := 1
  maxLocals := 1
  handlers := [⟨0, 3, 4, none⟩, ⟨1, 2, 4, none⟩, ⟨2, 5, 5, none⟩]

def crossedGraph : FlowGraph where
  blocks :=
    [⟨0, 2, [(2, .normal), (1, .normal), (2, .exception)], []⟩,
      ⟨2, 4, [(2, .exception), (3, .exception)], [(0, .normal)]⟩,
      ⟨4, 5, [(3, .normal), (3, .exception)], [(0, .normal), (0, .exception), (1, .exception)]⟩,
      ⟨5, 6, [], [(1, .exception), (2, .normal), (2, .exception)]⟩]
  blockOf := [0, 0, 1, 1, 2, 3]
  handlersAt := [[0], [0, 1], [0, 2], [2], [2], []]
  reachable := [true, true, true, true]

/-- Two edges lead from the third block to the last: one falls through, the other throws. -/
theorem build_exact_crossed :
    build crossedCode = .ok crossedGraph ∧ crossedGraph.Exact crossedCode := by
  have hbuild : build crossedCode = .ok crossedGraph := rfl
  exact ⟨hbuild, build_exact hbuild⟩

end FlowGraph

end Bytecheck
