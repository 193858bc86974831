import Mathlib.Logic.Relation
import Mathlib.Tactic.Common
import Bytecheck.Flow.Graph
import Bytecheck.Proofs.Reachability

/-!
The layout of flow graphs.

Code without a fault is cut into blocks that follow one another and cover it. Control enters a block
at its start only and leaves it at its end, and the edges of the graph are the ways that control can
take from instruction to instruction. `Laid` says so for a code and its graph; `build_laid` is the
main statement.
-/

namespace Bytecheck

open Relation

namespace Code

/-- Control may go from the first instruction to the second, other than by an exception. -/
def Flows (c : Code) (i j : ℕ) : Prop :=
  ∃ insn, c.instructions[i]? = some insn ∧ (insn.fallsThrough = true ∧ j = i + 1 ∨ j ∈ insn.targets)

/-- An exception at the instruction may be caught by the handler. -/
def Catches (c : Code) (i : ℕ) (h : Handler) : Prop :=
  i < c.size ∧ h ∈ c.handlers ∧ h.covers i = true

/-- A block has to start at the instruction, even if it is not the first one: a branch leads there, or
the instruction before it is a branch, or handling begins there. -/
def Leads (c : Code) (i : ℕ) : Prop :=
  (∃ (j : ℕ) (insn : Instruction ℕ), c.instructions[j]? = some insn ∧
    (i ∈ insn.targets ∨ insn.isBranch = true ∧ i = j + 1)) ∨ ∃ h ∈ c.handlers, h.entry = i

/-- What holds of code without a fault. -/
structure Sound (c : Code) : Prop where
  nonempty : 0 < c.size
  target : ∀ {i j : ℕ} {insn : Instruction ℕ}, c.instructions[i]? = some insn →
    j ∈ insn.targets → j < c.size
  last : ∀ {i : ℕ} {insn : Instruction ℕ}, c.instructions[i]? = some insn →
    insn.fallsThrough = true → i + 1 < c.size
  entry : ∀ {h}, h ∈ c.handlers → h.entry < c.size
  range : ∀ {h}, h ∈ c.handlers → h.start < h.stop ∧ h.stop ≤ c.size
  access : ∀ {i slot slots : ℕ} {o : Op}, c.instructions[i]? = some (.op o) →
    o.localAccess = some (slot, slots) → slot + slots ≤ c.maxLocals
  plain : ∀ {i : ℕ} {b : Branch ℕ}, c.instructions[i]? = some (.branch b) → b.isSubroutine = false

lemma lt_size {c : Code} {i : ℕ} {insn : Instruction ℕ} (h : c.instructions[i]? = some insn) :
    i < c.size := (List.getElem?_eq_some_iff.1 h).1

lemma Sound.flows_lt {c : Code} (hc : c.Sound) {i j : ℕ} (h : c.Flows i j) : j < c.size := by
  obtain ⟨insn, hi, ⟨hf, rfl⟩ | hj⟩ := h
  · exact hc.last hi hf
  · exact hc.target hi hj

end Code

namespace Flow

variable {c : Code}

/-! ### Code without a fault -/

lemma instructionFault_eq_none_iff {i : ℕ} {insn : Instruction ℕ} :
    instructionFault c i insn = none ↔
      (∀ b, insn = .branch b → b.isSubroutine = false) ∧ (∀ j ∈ insn.targets, j < c.size) ∧
        ∀ o, insn = .op o → ∀ slot slots, o.localAccess = some (slot, slots) →
          slot + slots ≤ c.maxLocals := by
  cases insn with
  | branch b =>
    cases hb : b.isSubroutine <;> simp [instructionFault, Instruction.targets, hb]
  | op o =>
    rcases ho : o.localAccess with _ | ⟨slot, slots⟩ <;>
      simp [instructionFault, Instruction.targets, ho]

lemma handlerFault_eq_none_iff {k : ℕ} {h : Handler} :
    handlerFault c k h = none ↔ h.start < h.stop ∧ h.stop ≤ c.size ∧ h.entry < c.size := by
  unfold handlerFault
  split_ifs <;> simp <;> omega

lemma sound_of_firstFault (h : firstFault c = none) : c.Sound := by
  unfold firstFault at h
  simp only [Option.orElse_eq_orElse, Option.orElse_eq_or, Option.or_eq_none_iff] at h
  obtain ⟨hinsn, hend, hhandlers⟩ := h
  have hinsn : ∀ {i insn}, c.instructions[i]? = some insn → instructionFault c i insn = none :=
    fun hi => List.findSome?_eq_none_iff.1 hinsn (_, _) (List.mem_zipIdx_iff_getElem?.2 hi)
  have hhandlers : ∀ {h}, h ∈ c.handlers → ∃ k, handlerFault c k h = none := by
    intro h hh
    obtain ⟨k, hk⟩ := List.mem_iff_getElem?.1 hh
    exact ⟨k, List.findSome?_eq_none_iff.1 hhandlers (h, k) (List.mem_zipIdx_iff_getElem?.2 hk)⟩
  have hlast : ∀ i, c.instructions.getLast? = some i → i.fallsThrough = false := by
    intro i hi
    unfold endFault at hend
    rw [hi] at hend
    cases hf : i.fallsThrough with
    | false => rfl
    | true => simp [hf] at hend
  refine ⟨?_, fun hi hj => (instructionFault_eq_none_iff.1 (hinsn hi)).2.1 _ hj, ?_, ?_, ?_,
    fun hi ha => (instructionFault_eq_none_iff.1 (hinsn hi)).2.2 _ rfl _ _ ha,
    fun hi => (instructionFault_eq_none_iff.1 (hinsn hi)).1 _ rfl⟩
  · unfold endFault at hend
    cases hl : c.instructions.getLast? with
    | none => simp [hl] at hend
    | some i => exact List.length_pos_of_mem (List.mem_of_getLast? hl)
  · intro i insn hi hf
    by_contra hn
    have hlt := Code.lt_size hi
    unfold Code.size at hn hlt
    have : c.instructions.getLast? = some insn := by
      rw [List.getLast?_eq_getElem?, ← hi]
      congr 1
      omega
    rw [hlast insn this] at hf
    cases hf
  · intro h hh
    obtain ⟨k, hk⟩ := hhandlers hh
    exact (handlerFault_eq_none_iff.1 hk).2.2
  · intro h hh
    obtain ⟨k, hk⟩ := hhandlers hh
    exact ⟨(handlerFault_eq_none_iff.1 hk).1, (handlerFault_eq_none_iff.1 hk).2.1⟩

lemma endFault_of_sound (hc : c.Sound) : endFault c = none := by
  unfold endFault
  cases hl : c.instructions.getLast? with
  | none =>
    have hpos := hc.nonempty
    rw [Code.size, List.getLast?_eq_none_iff.1 hl] at hpos
    cases hpos
  | some insn =>
    -- what falls through is not the last instruction
    have hlast : insn.fallsThrough = false := by
      by_contra hf
      rw [List.getLast?_eq_getElem?] at hl
      have hlt := hc.last hl (by simpa using hf)
      unfold Code.size at hlt
      omega
    simp [hlast]

/-- Code has no fault if and only if it is sound. -/
lemma firstFault_eq_none_iff : firstFault c = none ↔ c.Sound := by
  refine ⟨sound_of_firstFault, fun hc => ?_⟩
  unfold firstFault
  simp only [Option.orElse_eq_orElse, Option.orElse_eq_or, Option.or_eq_none_iff,
    List.findSome?_eq_none_iff, Prod.forall, List.mem_zipIdx_iff_getElem?]
  refine ⟨fun insn i hi => instructionFault_eq_none_iff.2 ⟨?_, fun j => hc.target hi, ?_⟩,
    endFault_of_sound hc, fun h k hk => ?_⟩
  · rintro b rfl
    exact hc.plain hi
  · rintro o rfl slot slots ha
    exact hc.access hi ha
  · have hh := List.mem_of_getElem? hk
    exact handlerFault_eq_none_iff.2 ⟨(hc.range hh).1, (hc.range hh).2, hc.entry hh⟩

/-! ### Cutting a sorted list -/

section Cuts

variable {l : List ℕ} {i b : ℕ}

/-- Position `b` is the last one of the list that holds a number up to `i`. -/
def LastUpTo (l : List ℕ) (i b : ℕ) : Prop :=
  (∃ x, l[b]? = some x ∧ x ≤ i) ∧ ∀ y, l[b + 1]? = some y → i < y

lemma exists_lastUpTo {x : ℕ} (hx : x ≤ i) : ∃ b, LastUpTo (x :: l) i b := by
  induction l generalizing x with
  | nil => exact ⟨0, ⟨x, rfl, hx⟩, by simp⟩
  | cons y l ih =>
    by_cases hy : y ≤ i
    · obtain ⟨b, ⟨z, hz, hzi⟩, hnext⟩ := ih hy
      exact ⟨b + 1, ⟨z, hz, hzi⟩, hnext⟩
    · refine ⟨0, ⟨x, rfl, hx⟩, fun z hz => ?_⟩
      cases hz
      omega

/-- In a strictly ascending list, counting the numbers up to `i` finds that position. -/
lemma blockAt_of_lastUpTo (hl : l.Pairwise (· < ·)) (h : LastUpTo l i b) : blockAt l i = b := by
  obtain ⟨⟨x, hx, hxi⟩, hnext⟩ := h
  have hlt := (List.getElem?_eq_some_iff.1 hx).1
  rw [List.pairwise_iff_getElem] at hl
  have hupTo : ∀ y ∈ l.take (b + 1), y ≤ i := by
    intro y hy
    obtain ⟨k, hk, rfl⟩ := List.mem_take_iff_getElem.1 hy
    have hkb : k < b ∨ k = b := by omega
    rcases hkb with hkb | rfl
    · have := hl k b (by omega) hlt hkb
      rw [List.getElem?_eq_getElem hlt] at hx
      cases hx
      omega
    · rw [List.getElem?_eq_getElem hlt] at hx
      cases hx
      exact hxi
  have hafter : ∀ y ∈ l.drop (b + 1), ¬ y ≤ i := by
    intro y hy
    obtain ⟨k, hk, rfl⟩ := List.mem_drop_iff_getElem.1 hy
    have hb : b + 1 < l.length := by omega
    have h1 := hnext _ (List.getElem?_eq_getElem hb)
    have hkb : k = 0 ∨ 0 < k := by omega
    rcases hkb with rfl | hkb
    · simpa using h1
    · have := hl (b + 1) (b + 1 + k) hb (by omega) (by omega)
      omega
  unfold blockAt
  rw [← List.take_append_drop (b + 1) l, List.filter_append,
    List.filter_eq_self.2 (by simpa using hupTo), List.filter_eq_nil_iff.2 (by simpa using hafter)]
  simp
  omega

end Cuts

/-! ### Leaders -/

lemma mem_leaders_iff {i : ℕ} : i ∈ leaders c ↔ i < c.size ∧ i ∈ marks c := by
  simp [leaders]

lemma pairwise_leaders (c : Code) : (leaders c).Pairwise (· < ·) :=
  List.Pairwise.filter _ List.pairwise_lt_range

lemma leaders_eq_cons (h : 0 < c.size) : ∃ l, leaders c = 0 :: l := by
  unfold leaders
  obtain ⟨n, hn⟩ := Nat.exists_eq_succ_of_ne_zero (Nat.ne_of_gt h)
  rw [hn, Nat.succ_eq_add_one, List.range_succ_eq_map, List.filter_cons_of_pos (by simp [marks])]
  exact ⟨_, rfl⟩

lemma mem_marks_iff {i : ℕ} : i ∈ marks c ↔ i = 0 ∨ c.Leads i := by
  unfold marks Code.Leads
  simp only [List.cons_append, List.mem_cons, List.mem_append, List.mem_flatMap, List.mem_map,
    Prod.exists, List.mem_zipIdx_iff_getElem?]
  refine or_congr_right (or_congr_left ?_)
  constructor
  · rintro ⟨insn, j, hj, ht | hb⟩
    · exact ⟨j, insn, hj, Or.inl ht⟩
    · split at hb
      · rename_i hbranch
        exact ⟨j, insn, hj, Or.inr ⟨hbranch, List.mem_singleton.1 hb⟩⟩
      · cases hb
  · rintro ⟨j, insn, hj, ht | ⟨hbranch, rfl⟩⟩
    · exact ⟨insn, j, hj, Or.inl ht⟩
    · exact ⟨insn, j, hj, Or.inr (by simp [hbranch])⟩

lemma mem_marks_of_target {i j : ℕ} {insn : Instruction ℕ} (hi : c.instructions[i]? = some insn)
    (hj : j ∈ insn.targets) : j ∈ marks c :=
  mem_marks_iff.2 (Or.inr (Or.inl ⟨i, insn, hi, Or.inl hj⟩))

lemma mem_marks_of_branch {i : ℕ} {b : Branch ℕ} (hi : c.instructions[i]? = some (.branch b)) :
    i + 1 ∈ marks c :=
  mem_marks_iff.2 (Or.inr (Or.inl ⟨i, .branch b, hi, Or.inr ⟨rfl, rfl⟩⟩))

lemma mem_marks_of_handler {h : Handler} (hh : h ∈ c.handlers) : h.entry ∈ marks c :=
  mem_marks_iff.2 (Or.inr (Or.inr ⟨h, hh, rfl⟩))

/-! ### Blocks -/

/-- Where the block with a number lies: from its leader to the next one, or to the end. -/
structure Located (c : Code) (b : ℕ) (B : Block) : Prop where
  start : (leaders c)[b]? = some B.start
  stop : (leaders c)[b + 1]? = some B.stop ∨ (leaders c)[b + 1]? = none ∧ B.stop = c.size
  successors : B.successors = successors c (leaders c) B.start B.stop

lemma getElem?_ranges {b x y : ℕ} : (ranges c)[b]? = some (x, y) ↔
    (leaders c)[b]? = some x ∧
      ((leaders c)[b + 1]? = some y ∨ (leaders c)[b + 1]? = none ∧ y = c.size) := by
  unfold ranges
  simp only [List.getElem?_zip_eq_some, List.getElem?_append, List.length_drop, List.getElem?_drop]
  refine and_congr_right fun hx => ?_
  have hlt := (List.getElem?_eq_some_iff.1 hx).1
  rw [Nat.add_comm 1 b]
  by_cases hb : b < (leaders c).length - 1
  · rw [if_pos hb, List.getElem?_eq_getElem (by omega)]
    simp
  · rw [if_neg hb, List.getElem?_eq_none (by omega : (leaders c).length ≤ b + 1),
      show b - ((leaders c).length - 1) = 0 by omega]
    simp [eq_comm]

lemma length_ranges (c : Code) : (ranges c).length = (leaders c).length := by
  simp [ranges]
  omega

lemma length_blocks (c : Code) : (graphOf c).blocks.length = (leaders c).length := by
  simp [graphOf, length_ranges]

lemma length_reachable (c : Code) : (graphOf c).reachable.length = (leaders c).length := by
  simp [graphOf, length_ranges]

lemma located_of_getElem? {b : ℕ} {B : Block} (h : (graphOf c).blocks[b]? = some B) :
    Located c b B := by
  unfold graphOf at h
  simp only [List.getElem?_map, List.getElem?_zipIdx, Option.map_eq_some_iff] at h
  obtain ⟨-, ⟨⟨⟨x, y⟩, es⟩, hz, rfl⟩, rfl⟩ := h
  obtain ⟨hr, he⟩ := List.getElem?_zip_eq_some.1 hz
  obtain ⟨hx, hy⟩ := getElem?_ranges.1 hr
  refine ⟨hx, hy, ?_⟩
  rw [List.getElem?_map, hr] at he
  exact (Option.some.inj he).symm

namespace Located

variable {b i : ℕ} {B : Block}

lemma bounds (h : Located c b B) : B.start < B.stop ∧ B.stop ≤ c.size := by
  have hstart := (mem_leaders_iff.1 (List.mem_of_getElem? h.start)).1
  rcases h.stop with hs | ⟨-, hs⟩
  · refine ⟨?_, Nat.le_of_lt (mem_leaders_iff.1 (List.mem_of_getElem? hs)).1⟩
    obtain ⟨h1, h2⟩ := List.getElem?_eq_some_iff.1 h.start
    obtain ⟨h3, h4⟩ := List.getElem?_eq_some_iff.1 hs
    have := List.pairwise_iff_getElem.1 (pairwise_leaders c) b (b + 1) h1 h3 (by omega)
    omega
  · omega

lemma blockAt_eq (h : Located c b B) (h1 : B.start ≤ i) (h2 : i < B.stop) :
    blockAt (leaders c) i = b := by
  refine blockAt_of_lastUpTo (pairwise_leaders c) ⟨⟨B.start, h.start, h1⟩, fun y hy => ?_⟩
  rcases h.stop with hs | ⟨hs, -⟩
  · rw [hs] at hy
    cases hy
    exact h2
  · rw [hs] at hy
    cases hy

lemma not_mem_leaders (h : Located c b B) (h1 : B.start < i) (h2 : i < B.stop) :
    i ∉ leaders c := by
  intro hi
  obtain ⟨k, hk⟩ := List.mem_iff_getElem?.1 hi
  obtain ⟨hkl, hke⟩ := List.getElem?_eq_some_iff.1 hk
  obtain ⟨hbl, hbe⟩ := List.getElem?_eq_some_iff.1 h.start
  have hsorted := List.pairwise_iff_getElem.1 (pairwise_leaders c)
  have hbk : b < k := by
    by_contra hn
    rcases Nat.lt_or_ge k b with hkb | hkb
    · have := hsorted k b hkl hbl hkb
      omega
    · have : k = b := by omega
      subst this
      omega
  rcases h.stop with hs | ⟨hs, -⟩
  · obtain ⟨hsl, hse⟩ := List.getElem?_eq_some_iff.1 hs
    have hk' : b + 1 < k ∨ b + 1 = k := by omega
    rcases hk' with hk' | rfl
    · have := hsorted (b + 1) k hsl hkl hk'
      omega
    · omega
  · have := List.getElem?_eq_none_iff.1 hs
    omega

/-- Within a block there are operations only, save for its last instruction. -/
lemma inner (h : Located c b B) (h1 : B.start ≤ i) (h2 : i + 1 < B.stop) :
    ∃ o, c.instructions[i]? = some (.op o) := by
  have hstop := h.bounds.2
  obtain ⟨insn, hi⟩ : ∃ insn, c.instructions[i]? = some insn :=
    ⟨_, List.getElem?_eq_getElem (show i < c.size by omega)⟩
  cases insn with
  | op o => exact ⟨o, hi⟩
  | branch br =>
    have := h.not_mem_leaders (Nat.lt_succ_of_le h1) h2
    exact absurd (mem_leaders_iff.2 ⟨by omega, mem_marks_of_branch hi⟩) this

end Located

/-- The block that starts at a leader. -/
lemma exists_block_of_mem_leaders {i : ℕ} (h : i ∈ leaders c) :
    ∃ B, (graphOf c).blocks[blockAt (leaders c) i]? = some B ∧ B.start = i := by
  obtain ⟨b, hb⟩ := List.mem_iff_getElem?.1 h
  have hlt : b < (graphOf c).blocks.length := by
    rw [length_blocks]
    exact (List.getElem?_eq_some_iff.1 hb).1
  have hB := List.getElem?_eq_getElem hlt
  have hloc := located_of_getElem? hB
  have hstart := hloc.start
  rw [hb] at hstart
  injection hstart with hstart
  rw [hloc.blockAt_eq (Nat.le_of_eq hstart.symm) (hstart ▸ hloc.bounds.1)]
  exact ⟨_, hB, hstart.symm⟩

lemma exists_block_of_lt {i : ℕ} (h : i < c.size) :
    ∃ B, (graphOf c).blocks[blockAt (leaders c) i]? = some B ∧ B.start ≤ i ∧ i < B.stop := by
  obtain ⟨l, hl⟩ := leaders_eq_cons (c := c) (by omega)
  obtain ⟨b, hb⟩ := exists_lastUpTo (l := l) (Nat.zero_le i)
  rw [← hl] at hb
  rw [blockAt_of_lastUpTo (pairwise_leaders c) hb]
  obtain ⟨⟨x, hx, hxi⟩, hnext⟩ := hb
  have hlt : b < (graphOf c).blocks.length := by
    rw [length_blocks]
    exact (List.getElem?_eq_some_iff.1 hx).1
  have hB := List.getElem?_eq_getElem hlt
  have hloc := located_of_getElem? hB
  refine ⟨_, hB, ?_, ?_⟩
  · have := hloc.start
    rw [hx] at this
    injection this with this
    omega
  · rcases hloc.stop with hs | ⟨-, hs⟩
    · exact hnext _ hs
    · omega

/-! ### Edges -/

lemma mem_exits_iff (hc : c.Sound) {stop j : ℕ} (hs : 0 < stop) :
    j ∈ exits c stop ↔ c.Flows (stop - 1) j := by
  unfold exits Code.Flows
  cases hi : c.instructions[stop - 1]? with
  | none => simp
  | some insn =>
    have hstop : stop - 1 + 1 = stop := by omega
    have hlast : insn.fallsThrough = true → stop < c.size := fun h => hstop ▸ hc.last hi h
    simp only [List.mem_append, Option.some.injEq, exists_eq_left', hstop]
    refine or_congr_left ?_
    cases hf : insn.fallsThrough with
    | false => simp
    | true => simp [hlast hf]

lemma mem_handlerEntries_iff {start stop j : ℕ} (hs : stop ≤ c.size) :
    j ∈ handlerEntries c start stop ↔
      ∃ i h, start ≤ i ∧ i < stop ∧ c.Catches i h ∧ h.entry = j := by
  unfold handlerEntries Code.Catches
  simp only [List.mem_flatMap, List.mem_range'_1, List.mem_map, List.mem_filter]
  constructor
  · rintro ⟨i, ⟨h1, h2⟩, h, ⟨hh, hcov⟩, rfl⟩
    exact ⟨i, h, h1, by omega, ⟨by omega, hh, hcov⟩, rfl⟩
  · rintro ⟨i, h, h1, h2, ⟨-, hh, hcov⟩, rfl⟩
    exact ⟨i, ⟨h1, by omega⟩, h, ⟨hh, hcov⟩, rfl⟩

lemma mem_covering_iff {i place : ℕ} :
    place ∈ covering c i ↔ ∃ h, c.handlers[place]? = some h ∧ h.covers i = true := by
  unfold covering
  simp only [List.mem_map, List.mem_filter, Prod.exists, List.mem_zipIdx_iff_getElem?]
  constructor
  · rintro ⟨h, k, ⟨hk, hcov⟩, rfl⟩
    exact ⟨h, hk, hcov⟩
  · rintro ⟨h, hk, hcov⟩
    exact ⟨h, place, ⟨hk, hcov⟩, rfl⟩

/-- The graph keeps the handlers of every instruction. -/
lemma handlers_graphOf {i : ℕ} (hi : i < c.size) : (graphOf c).handlers i = covering c i := by
  simp [FlowGraph.handlers, graphOf, hi]

lemma mem_successors_iff {start stop u : ℕ} {k : EdgeKind} :
    (u, k) ∈ successors c (leaders c) start stop ↔
      (k = .normal ∧ ∃ j ∈ exits c stop, blockAt (leaders c) j = u) ∨
        (k = .exception ∧ ∃ j ∈ handlerEntries c start stop, blockAt (leaders c) j = u) := by
  unfold successors
  simp only [List.mem_eraseDups, List.mem_append, List.mem_map, Prod.mk.injEq]
  constructor
  · rintro (⟨j, hj, rfl, rfl⟩ | ⟨j, hj, rfl, rfl⟩)
    · exact Or.inl ⟨rfl, j, hj, rfl⟩
    · exact Or.inr ⟨rfl, j, hj, rfl⟩
  · rintro (⟨rfl, j, hj, rfl⟩ | ⟨rfl, j, hj, rfl⟩)
    · exact Or.inl ⟨j, hj, rfl, rfl⟩
    · exact Or.inr ⟨j, hj, rfl, rfl⟩

lemma eraseDups_concat {α : Type} [BEq α] [LawfulBEq α] (l : List α) (a : α) [Decidable (a ∈ l)] :
    (l ++ [a]).eraseDups = if a ∈ l then l.eraseDups else l.eraseDups ++ [a] := by
  by_cases ha : a ∈ l <;> simp [List.eraseDups_append, List.eraseDups_cons, List.removeAll, ha]

end Flow

/-! ### Graphs -/

namespace FlowGraph

/-- An edge of the graph leads from the first block to the second. -/
def Linked (g : FlowGraph) (b u : ℕ) : Prop :=
  ∃ B k, g.blocks[b]? = some B ∧ (u, k) ∈ B.successors

/-- The block with the number starts at the instruction. -/
def StartsAt (g : FlowGraph) (u j : ℕ) : Prop := ∃ T, g.blocks[u]? = some T ∧ T.start = j

/-- The instruction is in a block that can be reached. -/
def Reached (g : FlowGraph) (i : ℕ) : Prop :=
  ∃ b, g.block? i = some b ∧ g.reachable[b]? = some true

/-- What a flow graph says about its code. -/
structure Laid (c : Code) (g : FlowGraph) : Prop where
  sound : c.Sound
  first : g.StartsAt 0 0
  bounds : ∀ {b : ℕ} {B : Block}, g.blocks[b]? = some B → B.start < B.stop ∧ B.stop ≤ c.size
  /-- The blocks are disjoint, and `block?` finds them. -/
  block : ∀ {b i : ℕ} {B : Block}, g.blocks[b]? = some B → B.start ≤ i → i < B.stop →
    g.block? i = some b
  inside : ∀ {b i : ℕ}, g.block? i = some b → i < c.size
  /-- The blocks cover the code. -/
  cover : ∀ {i : ℕ}, i < c.size →
    ∃ (b : ℕ) (B : Block), g.blocks[b]? = some B ∧ B.start ≤ i ∧ i < B.stop
  /-- Branches stand at the end of blocks only. -/
  inner : ∀ {b i : ℕ} {B : Block}, g.blocks[b]? = some B → B.start ≤ i → i + 1 < B.stop →
    ∃ o, c.instructions[i]? = some (.op o)
  /-- Normal edges lead to where control may go from the end. -/
  exit : ∀ {b u : ℕ} {B : Block}, g.blocks[b]? = some B →
    ((u, .normal) ∈ B.successors ↔ ∃ j, c.Flows (B.stop - 1) j ∧ g.StartsAt u j)
  /-- Exception edges lead to the handlers of the instructions. -/
  thrown : ∀ {b u : ℕ} {B : Block}, g.blocks[b]? = some B →
    ((u, .exception) ∈ B.successors ↔
      ∃ i h, B.start ≤ i ∧ i < B.stop ∧ c.Catches i h ∧ g.StartsAt u h.entry)
  handlers : ∀ {i place : ℕ}, place ∈ g.handlers i ↔
    ∃ h, c.handlers[place]? = some h ∧ c.Catches i h
  /-- Control goes to starts of blocks only. -/
  flows : ∀ {b j : ℕ} {B : Block}, g.blocks[b]? = some B → c.Flows (B.stop - 1) j →
    ∃ u, g.StartsAt u j
  entry : ∀ {h}, h ∈ c.handlers → ∃ u, g.StartsAt u h.entry
  reachable : ∀ {b : ℕ}, g.reachable[b]? = some true ↔ ReflTransGen g.Linked 0 b

end FlowGraph

namespace Flow

variable {c : Code}

open FlowGraph

lemma blockAt_of_startsAt {u j : ℕ} (h : (graphOf c).StartsAt u j) : blockAt (leaders c) j = u := by
  obtain ⟨T, hT, rfl⟩ := h
  have hloc := located_of_getElem? hT
  exact hloc.blockAt_eq (Nat.le_refl _) hloc.bounds.1

lemma startsAt_of_mem_marks {j : ℕ} (hj : j < c.size) (hm : j ∈ marks c) :
    (graphOf c).StartsAt (blockAt (leaders c) j) j :=
  exists_block_of_mem_leaders (mem_leaders_iff.2 ⟨hj, hm⟩)

/-- After the end of a block another one starts. -/
lemma mem_marks_of_flows {b j : ℕ} {B : Block} (hB : (graphOf c).blocks[b]? = some B)
    (hj : c.Flows (B.stop - 1) j) (hlt : j < c.size) : j ∈ marks c := by
  have hloc := located_of_getElem? hB
  obtain ⟨insn, hi, ⟨-, rfl⟩ | ht⟩ := hj
  · have := hloc.bounds
    rcases hloc.stop with hs | ⟨-, hs⟩
    · rw [Nat.sub_add_cancel (by omega)]
      exact (mem_leaders_iff.1 (List.mem_of_getElem? hs)).2
    · omega
  · exact mem_marks_of_target hi ht

lemma mem_successors_normal_iff (hc : c.Sound) {b u : ℕ} {B : Block}
    (hB : (graphOf c).blocks[b]? = some B) :
    (u, EdgeKind.normal) ∈ B.successors ↔
      ∃ j, c.Flows (B.stop - 1) j ∧ (graphOf c).StartsAt u j := by
  have hloc := located_of_getElem? hB
  have hpos : 0 < B.stop := Nat.zero_lt_of_lt hloc.bounds.1
  rw [hloc.successors, mem_successors_iff]
  simp only [true_and, reduceCtorEq, false_and, or_false, mem_exits_iff hc hpos]
  constructor
  · rintro ⟨j, hj, rfl⟩
    have hlt := hc.flows_lt hj
    exact ⟨j, hj, startsAt_of_mem_marks hlt (mem_marks_of_flows hB hj hlt)⟩
  · rintro ⟨j, hj, hu⟩
    exact ⟨j, hj, blockAt_of_startsAt hu⟩

lemma mem_successors_exception_iff (hc : c.Sound) {b u : ℕ} {B : Block}
    (hB : (graphOf c).blocks[b]? = some B) :
    (u, EdgeKind.exception) ∈ B.successors ↔
      ∃ i h, B.start ≤ i ∧ i < B.stop ∧ c.Catches i h ∧ (graphOf c).StartsAt u h.entry := by
  have hloc := located_of_getElem? hB
  rw [hloc.successors, mem_successors_iff]
  simp only [true_and, reduceCtorEq, false_and, false_or, mem_handlerEntries_iff hloc.bounds.2]
  constructor
  · rintro ⟨-, ⟨i, h, h1, h2, hcat, rfl⟩, rfl⟩
    exact ⟨i, h, h1, h2, hcat,
      startsAt_of_mem_marks (hc.entry hcat.2.1) (mem_marks_of_handler hcat.2.1)⟩
  · rintro ⟨i, h, h1, h2, hcat, hu⟩
    exact ⟨h.entry, ⟨i, h, h1, h2, hcat, rfl⟩, blockAt_of_startsAt hu⟩

lemma linked_lt (hc : c.Sound) {b u : ℕ} (h : (graphOf c).Linked b u) :
    u < (graphOf c).blocks.length := by
  obtain ⟨B, k, hB, hu⟩ := h
  have hstarts : ∃ j, (graphOf c).StartsAt u j := by
    cases k with
    | normal =>
      obtain ⟨j, -, hj⟩ := (mem_successors_normal_iff hc hB).1 hu
      exact ⟨j, hj⟩
    | exception =>
      obtain ⟨-, h, -, -, -, hj⟩ := (mem_successors_exception_iff hc hB).1 hu
      exact ⟨h.entry, hj⟩
  obtain ⟨-, T, hT, -⟩ := hstarts
  exact (List.getElem?_eq_some_iff.1 hT).1

/-- The edges that the search for reachable blocks follows. -/
lemma mem_next_iff {b u : ℕ} :
    u ∈ ((((ranges c).map fun r => successors c (leaders c) r.1 r.2)[b]?).getD []).map Prod.fst ↔
      (graphOf c).Linked b u := by
  unfold Linked
  by_cases hb : b < (graphOf c).blocks.length
  · have hB := List.getElem?_eq_getElem hb
    have hloc := located_of_getElem? hB
    have hr := getElem?_ranges.2 ⟨hloc.start, hloc.stop⟩
    simp only [List.getElem?_map, hr, hB, Option.map_some, Option.getD_some, ← hloc.successors,
      List.mem_map, Prod.exists, Option.some.injEq]
    constructor
    · rintro ⟨v, k, hv, rfl⟩
      exact ⟨_, k, rfl, hv⟩
    · rintro ⟨B, k, rfl, hu⟩
      exact ⟨u, k, hu, rfl⟩
  · have hnone : (ranges c)[b]? = none :=
      List.getElem?_eq_none (by rw [length_ranges, ← length_blocks]; omega)
    simp [hnone, List.getElem?_eq_none (Nat.le_of_not_lt hb)]

lemma reachable_iff (hc : c.Sound) {b : ℕ} :
    (graphOf c).reachable[b]? = some true ↔ ReflTransGen (graphOf c).Linked 0 b := by
  have hlinks : Reach.Links (fun b =>
      ((((ranges c).map fun r => successors c (leaders c) r.1 r.2)[b]?).getD []).map Prod.fst) =
      (graphOf c).Linked := by
    funext b u
    exact propext mem_next_iff
  have hdom : ∀ a b, b ∈ ((((ranges c).map fun r =>
      successors c (leaders c) r.1 r.2)[a]?).getD []).map Prod.fst →
      a ∈ List.range (ranges c).length := by
    intro a b hab
    obtain ⟨B, -, hB, -⟩ := mem_next_iff.1 hab
    rw [List.mem_range, length_ranges, ← length_blocks]
    exact (List.getElem?_eq_some_iff.1 hB).1
  have hmem : b ∈ Reach.closure _ (ranges c).length 0 ↔ _ :=
    Reach.mem_closure_iff hdom (Nat.le_of_eq List.length_range)
  rw [hlinks] at hmem
  rw [← hmem]
  unfold graphOf
  rw [List.getElem?_map, Option.map_eq_some_iff]
  constructor
  · rintro ⟨a, ha, hb⟩
    rw [List.contains_iff_mem] at hb
    obtain ⟨h1, h2⟩ := List.getElem?_eq_some_iff.1 ha
    rw [List.getElem_range] at h2
    rwa [h2]
  · intro hb
    have hlt : b < (ranges c).length := by
      rw [length_ranges, ← length_blocks]
      rcases ReflTransGen.cases_tail (hmem.1 hb) with rfl | ⟨a, -, hab⟩
      · obtain ⟨l, hl⟩ := leaders_eq_cons hc.nonempty
        rw [length_blocks, hl]
        simp
      · exact linked_lt hc hab
    exact ⟨b, List.getElem?_range hlt, List.contains_iff_mem.2 hb⟩

/-- **The graph of code without a fault is laid out along the code.** -/
theorem laid_graphOf (hc : c.Sound) : Laid c (graphOf c) where
  sound := hc
  first := by
    obtain ⟨l, hl⟩ := leaders_eq_cons hc.nonempty
    obtain ⟨T, hT⟩ : ∃ T, (graphOf c).blocks[0]? = some T :=
      ⟨_, List.getElem?_eq_getElem (by rw [length_blocks, hl]; simp)⟩
    have hstart := (located_of_getElem? hT).start
    rw [hl] at hstart
    exact ⟨T, hT, (Option.some.inj hstart).symm⟩
  bounds := fun hB => (located_of_getElem? hB).bounds
  block := by
    intro b i B hB h1 h2
    have hloc := located_of_getElem? hB
    have hi : i < c.size := Nat.lt_of_lt_of_le h2 hloc.bounds.2
    simp [FlowGraph.block?, graphOf, hi, hloc.blockAt_eq h1 h2]
  inside := by
    intro b i h
    have hlt := (List.getElem?_eq_some_iff.1 h).1
    simpa [graphOf] using hlt
  cover := fun hi => ⟨_, exists_block_of_lt hi⟩
  inner := fun hB => (located_of_getElem? hB).inner
  exit := mem_successors_normal_iff hc
  thrown := mem_successors_exception_iff hc
  handlers := by
    intro i place
    by_cases hi : i < c.size
    · rw [handlers_graphOf hi, mem_covering_iff]
      refine exists_congr fun h => and_congr_right fun hh => ?_
      exact ⟨fun hcov => ⟨hi, List.mem_of_getElem? hh, hcov⟩, fun hcat => hcat.2.2⟩
    · have hnone : (List.range c.size)[i]? = none := List.getElem?_eq_none (by simpa using hi)
      simp only [FlowGraph.handlers, graphOf, List.getElem?_map, hnone, Option.map_none,
        Option.getD_none, List.not_mem_nil, false_iff]
      rintro ⟨h, -, hcat⟩
      exact hi hcat.1
  flows := fun hB hj =>
    ⟨_, startsAt_of_mem_marks (hc.flows_lt hj) (mem_marks_of_flows hB hj (hc.flows_lt hj))⟩
  entry := fun hh => ⟨_, startsAt_of_mem_marks (hc.entry hh) (mem_marks_of_handler hh)⟩
  reachable := reachable_iff hc

end Flow

namespace FlowGraph

lemma Laid.reached_iff {c : Code} {g : FlowGraph} (L : Laid c g) {i : ℕ} :
    g.Reached i ↔ ∃ (b : ℕ) (B : Block), g.blocks[b]? = some B ∧ B.start ≤ i ∧ i < B.stop ∧
      ReflTransGen g.Linked 0 b := by
  constructor
  · rintro ⟨b, hb, hreach⟩
    obtain ⟨b', B, hB, h1, h2⟩ := L.cover (L.inside hb)
    have hb' := L.block hB h1 h2
    rw [hb] at hb'
    cases hb'
    exact ⟨b, B, hB, h1, h2, L.reachable.1 hreach⟩
  · rintro ⟨b, B, hB, h1, h2, hreach⟩
    exact ⟨b, L.block hB h1 h2, L.reachable.2 hreach⟩

lemma Laid.block_of_startsAt {c : Code} {g : FlowGraph} (L : Laid c g) {u j : ℕ}
    (h : g.StartsAt u j) : g.block? j = some u := by
  obtain ⟨T, hT, rfl⟩ := h
  exact L.block hT (Nat.le_refl _) (L.bounds hT).1

/-- Handlers begin at the start of their blocks. -/
lemma Laid.startsAt_of_block {c : Code} {g : FlowGraph} (L : Laid c g) {h : Handler}
    (hh : h ∈ c.handlers) {u : ℕ} (hu : g.block? h.entry = some u) : g.StartsAt u h.entry := by
  obtain ⟨v, hv⟩ := L.entry hh
  have huv := L.block_of_startsAt hv
  rw [hu] at huv
  cases huv
  exact hv

/-- Sound code has a graph, and no other code has one. -/
lemma build_eq_ok_iff {c : Code} {g : FlowGraph} :
    build c = .ok g ↔ c.Sound ∧ g = Flow.graphOf c := by
  rw [← Flow.firstFault_eq_none_iff]
  unfold build
  cases Flow.firstFault c with
  | none => simp [eq_comm]
  | some f => simp

lemma build_laid {c : Code} {g : FlowGraph} (h : build c = .ok g) : Laid c g := by
  obtain ⟨hc, rfl⟩ := build_eq_ok_iff.1 h
  exact Flow.laid_graphOf hc

end FlowGraph

end Bytecheck
