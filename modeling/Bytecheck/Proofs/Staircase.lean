import Mathlib.Tactic.Common
import Mathlib.Tactic.Ring
import Bytecheck.Proofs.Ceiling

/-!
Methods that the ceiling on visits rejects.

The ceiling grows with the blocks and the slots of a method and not with the depth of the class
tree. In a staircase, the handlers of one instruction catch the classes of a chain, and each handler
jumps to the one that catches the next class down the chain. One class after the other is sent down
the stairs, so that the visits grow with the square of the blocks: no factor of blocks and slots is
enough for all methods.
-/

namespace Bytecheck

open Relation Analysis

namespace Staircase

variable {n i : ℕ} {c d : BinaryName}

/-! ### A chain of classes -/

lemma parts_replicate (n : ℕ) :
    BinaryName.parts (List.replicate n 'E') = [List.replicate n 'E'] := by
  induction n with
  | zero => rfl
  | succ n ih =>
    rw [List.replicate_succ, BinaryName.parts, if_neg (by decide), ih]

lemma isLegal_replicate (n : ℕ) :
    BinaryName.isLegal (String.ofList (List.replicate (n + 1) 'E')).toList = true := by
  rw [String.toList_ofList, BinaryName.isLegal, parts_replicate]
  simp only [List.all_cons, List.all_nil, Bool.and_true, UnqualifiedName.isLegal_iff]
  refine ⟨by simp, fun c hc => ?_⟩
  rw [List.eq_of_mem_replicate hc]
  decide

/-- The classes of the chain: the root, the class of exceptions, and classes below it. -/
def level : ℕ → BinaryName
  | 0 => .object
  | 1 => .throwable
  | n + 2 => ⟨String.ofList (List.replicate (n + 1) 'E'), isLegal_replicate n⟩

lemma level_ne_of_mem (hc : 'j' ∈ c.text.toList) : level (n + 2) ≠ c := by
  rintro rfl
  rw [level, String.toList_ofList] at hc
  cases List.eq_of_mem_replicate hc

lemma level_injective : Function.Injective level := by
  have hobject : 'j' ∈ (level 0).text.toList := by decide +kernel
  have hthrowable : 'j' ∈ (level 1).text.toList := by decide +kernel
  have hne : level 0 ≠ level 1 := by decide +kernel
  intro i j h
  match i, j with
  | 0, 0 => rfl
  | 1, 1 => rfl
  | 0, 1 => exact absurd h hne
  | 1, 0 => exact absurd h.symm hne
  | n + 2, 0 => exact absurd h (level_ne_of_mem hobject)
  | n + 2, 1 => exact absurd h (level_ne_of_mem hthrowable)
  | 0, n + 2 => exact absurd h.symm (level_ne_of_mem hobject)
  | 1, n + 2 => exact absurd h.symm (level_ne_of_mem hthrowable)
  | i + 2, j + 2 =>
    have htext := congrArg (fun c => c.text.toList.length) h
    simp only [level, String.toList_ofList, List.length_replicate] at htext
    omega

def info : ℕ → ClassInfo
  | 0 => ⟨level 0, none, [], .ofClass⟩
  | n + 1 => ⟨level (n + 1), some (level n), [], .ofClass⟩

lemma name_info (i : ℕ) : (info i).name = level i := by cases i <;> rfl

/-- The chain, down to the class with the given number. -/
def table (n : ℕ) : ClassTable := ⟨(List.range (n + 1)).map info⟩

lemma find?_table (h : i ≤ n) : (table n).find? (level i) = some (info i) := by
  have hrange : (List.range (n + 1)).find? ((fun c => decide (c.name = level i)) ∘ info) =
      some i := by
    refine List.find?_range_eq_some.2 ⟨by simp [name_info], List.mem_range.2 (by omega), ?_⟩
    intro j hj
    have hne : level j ≠ level i := fun h => absurd (level_injective h) (by omega)
    simp [name_info, hne]
  simp only [ClassTable.find?, table, List.find?_map, hrange, Option.map_some]

/-- Only the classes of the chain are recorded. -/
lemma exists_level {k : ClassInfo} (h : (table n).find? c = some k) :
    ∃ i ≤ n, c = level i ∧ k = info i := by
  obtain ⟨i, hi, rfl⟩ := List.mem_map.1 (List.mem_of_find?_eq_some h)
  have hname : (info i).name = c := by simpa using List.find?_some h
  exact ⟨i, by simpa [Nat.lt_succ_iff] using hi, by rw [← hname, name_info], rfl⟩

lemma extends_iff : (table n).Extends c d ↔ ∃ i < n, c = level (i + 1) ∧ d = level i := by
  unfold ClassTable.Extends ClassTable.superclass
  constructor
  · intro h
    obtain ⟨k, hk, hd⟩ := Option.bind_eq_some_iff.1 h
    obtain ⟨i, hi, rfl, rfl⟩ := exists_level hk
    cases i with
    | zero => cases hd
    | succ i => exact ⟨i, hi, rfl, (Option.some.inj hd).symm⟩
  · rintro ⟨i, hi, rfl, rfl⟩
    rw [find?_table hi]
    rfl

lemma isInterface_table (n : ℕ) (c : BinaryName) : (table n).isInterface c = false := by
  unfold ClassTable.isInterface
  cases hf : (table n).find? c with
  | none => rfl
  | some k =>
    obtain ⟨i, -, -, rfl⟩ := exists_level hf
    have hflags : (info i).flags = .ofClass := by cases i <;> rfl
    rw [Option.map_some, Option.getD_some, ClassInfo.isInterface, hflags]
    decide

lemma wellFormed_table (n : ℕ) : (table n).WellFormed where
  root := by
    have h : (table n).find? .object = some (info 0) := find?_table (Nat.zero_le n)
    simp [ClassTable.links, h, info]
  acyclic := by
    -- every link goes up the chain
    have hup : ∀ {c d}, TransGen (table n).Extends c d →
        ∃ i j, c = level i ∧ d = level j ∧ j < i := by
      intro c d h
      induction h with
      | single h =>
        obtain ⟨i, -, rfl, rfl⟩ := extends_iff.1 h
        exact ⟨i + 1, i, rfl, rfl, Nat.lt_succ_self i⟩
      | tail _ h ih =>
        obtain ⟨i, -, rfl, rfl⟩ := extends_iff.1 h
        obtain ⟨j, k, rfl, hk, hlt⟩ := ih
        have := level_injective hk
        exact ⟨j, i, rfl, rfl, by omega⟩
    intro c h
    obtain ⟨i, j, rfl, hj, hlt⟩ := hup h
    exact absurd (level_injective hj) (by omega)
  parent := fun _ d _ => isInterface_table n d
  interface := fun c _ h _ => by
    rw [isInterface_table] at h
    cases h

/-! ### Frames -/

/-- The entry frame of a handler: there is an exception of a class of the chain on the stack. -/
def frame (i : ℕ) : Frame := ⟨[], .ofList [.ofClass (level (i + 1))]⟩

lemma same_frame (i : ℕ) : (frame i).same (frame (i + 1)) = false := by
  have hne : level (i + 1) ≠ level (i + 2) := fun h => absurd (level_injective h) (by omega)
  simp [Frame.same, SlotVec.same, frame, SlotVec.ofList, SlotVec.append, SlotVec.push,
    VType.ofClass, hne]

/-- Where a class meets the next one up the chain, the upper one is left. -/
lemma merge_frame (h : i + 2 ≤ n) :
    (frame (i + 1)).merge (table n).hierarchy (frame i) = .ok (frame i) := by
  have hunder : VType.Under (table n) (.ofClass (level (i + 2))) (.ofClass (level (i + 1))) := by
    refine .object (.object (Or.inr (Or.inr ⟨isInterface_table n _, .single ?_⟩)))
    exact extends_iff.2 ⟨i + 1, h, rfl, rfl⟩
  have hjoin : (VType.ofClass (level (i + 2))).join (table n).hierarchy
      (.ofClass (level (i + 1))) = .ofClass (level (i + 1)) :=
    VType.join_eq_right (wellFormed_table n).rooted hunder
  have hstack : Frame.joinStack (table n).hierarchy (frame (i + 1)).stack.entries.reverse
      (frame i).stack.toList = .ok [.ofClass (level (i + 1))] := by
    unfold frame
    simp only [SlotVec.toList_ofList]
    unfold Frame.joinStack
    dsimp only [SlotVec.ofList, SlotVec.append, List.foldl, SlotVec.push, SlotVec.empty,
      List.reverse, List.reverseAux]
    rw [hjoin]
    rfl
  have hshape : (frame (i + 1)).sameShape (frame i) = true := by
    simp [Frame.sameShape, Frame.depth, frame, SlotVec.ofList, SlotVec.append, SlotVec.push,
      SlotVec.size, VType.ofClass, width]
  rw [Frame.merge_eq, if_pos hshape, hstack]
  rfl

/-! ### Code -/

def owner : BinaryName := ⟨"p/Stairs", by decide +kernel⟩

def method : Method := ⟨owner, ⟨"fall", by decide +kernel⟩, ⟨[], none⟩, ⟨8⟩⟩

/-- The first two instructions return, and all others go one instruction back. -/
def instruction (i : ℕ) : Instruction ℕ :=
  if i ≤ 1 then .branch (.leave none) else .branch (.goto (i - 1))

/-- The handlers of the first instruction, for the classes of the chain from its end. -/
def handler (n k : ℕ) : Handler := ⟨0, 1, k + 1, some (level (n - k))⟩

def code (n : ℕ) : Code where
  instructions := (List.range (n + 1)).map instruction
  maxStack := 1
  maxLocals := 0
  handlers := (List.range n).map (handler n)

lemma size_code (n : ℕ) : (code n).size = n + 1 := by simp [code, Code.size]

lemma getElem?_code (h : i ≤ n) : (code n).instructions[i]? = some (instruction i) := by
  simp [code, List.getElem?_range (Nat.lt_succ_of_le h)]

lemma instruction_of_getElem? {insn : Instruction ℕ} (h : (code n).instructions[i]? = some insn) :
    insn = instruction i := by
  have hlt := Code.lt_size h
  rw [size_code] at hlt
  rw [getElem?_code (Nat.le_of_lt_succ hlt)] at h
  exact (Option.some.inj h).symm

lemma exists_branch (i : ℕ) : ∃ b, instruction i = .branch b ∧ b.isSubroutine = false ∧
    b.fallsThrough = false ∧ b.targets = if i ≤ 1 then [] else [i - 1] := by
  unfold instruction
  by_cases h : i ≤ 1
  · exact ⟨.leave none, by simp [h, Branch.isSubroutine, Branch.fallsThrough, Branch.targets]⟩
  · exact ⟨.goto (i - 1), by simp [h, Branch.isSubroutine, Branch.fallsThrough, Branch.targets]⟩

lemma targets_instruction (i : ℕ) : (instruction i).targets = if i ≤ 1 then [] else [i - 1] := by
  obtain ⟨b, hb, -, -, ht⟩ := exists_branch i
  rw [hb]
  exact ht

lemma fallsThrough_instruction (i : ℕ) : (instruction i).fallsThrough = false := by
  obtain ⟨b, hb, -, hf, -⟩ := exists_branch i
  rw [hb]
  exact hf

lemma sound_code (n : ℕ) : (code n).Sound where
  nonempty := by simp [size_code]
  target := by
    intro i j insn hi hj
    have hlt := Code.lt_size hi
    rw [instruction_of_getElem? hi, targets_instruction] at hj
    split at hj
    · cases hj
    · rw [List.mem_singleton.1 hj]
      omega
  last := by
    intro i insn hi hf
    rw [instruction_of_getElem? hi, fallsThrough_instruction] at hf
    cases hf
  entry := by
    intro h hh
    obtain ⟨k, hk, rfl⟩ := List.mem_map.1 hh
    rw [size_code]
    exact Nat.succ_lt_succ (List.mem_range.1 hk)
  range := by
    intro h hh
    obtain ⟨k, -, rfl⟩ := List.mem_map.1 hh
    rw [size_code]
    exact ⟨Nat.one_pos, Nat.le_add_left 1 n⟩
  access := by
    intro i slot slots o hi
    obtain ⟨b, hb, -⟩ := exists_branch i
    rw [← instruction_of_getElem? hi] at hb
    cases hb
  plain := by
    intro i b hi
    obtain ⟨b', hb, hplain, -⟩ := exists_branch i
    rw [← instruction_of_getElem? hi] at hb
    cases hb
    exact hplain

lemma build_code (n : ℕ) : FlowGraph.build (code n) = .ok (Flow.graphOf (code n)) :=
  FlowGraph.build_eq_ok_iff.2 ⟨sound_code n, rfl⟩

/-! ### The graph -/

/-- Every instruction is a block. -/
lemma leaders_code (n : ℕ) : Flow.leaders (code n) = List.range (n + 1) := by
  unfold Flow.leaders
  rw [size_code]
  refine List.filter_eq_self.2 fun i hi => List.contains_iff_mem.2 ?_
  cases i with
  | zero => simp [Flow.marks]
  | succ i =>
    obtain ⟨b, hb, -⟩ := exists_branch i
    have hlt := List.mem_range.1 hi
    refine Flow.mem_marks_of_branch (b := b) ?_
    rw [getElem?_code (by omega), hb]

lemma blockAt_code (h : i ≤ n) : Flow.blockAt (Flow.leaders (code n)) i = i := by
  refine Flow.blockAt_of_lastUpTo (Flow.pairwise_leaders _) ⟨⟨i, ?_, Nat.le_refl i⟩, fun y hy => ?_⟩
  · rw [leaders_code, List.getElem?_range (Nat.lt_succ_of_le h)]
  · rw [leaders_code] at hy
    obtain ⟨hlt, rfl⟩ := List.getElem?_eq_some_iff.1 hy
    rw [List.getElem_range]
    exact Nat.lt_succ_self i

lemma covers_handler (n k i : ℕ) : (handler n k).covers i = decide (i = 0) := by
  simp [handler, Handler.covers]

lemma exits_code (h : i ≤ n) : Flow.exits (code n) (i + 1) = if i ≤ 1 then [] else [i - 1] := by
  unfold Flow.exits
  rw [Nat.add_sub_cancel, getElem?_code h]
  simp [fallsThrough_instruction, targets_instruction]

/-- Normal edges lead one block back, from the third block on. -/
lemma normal_successors (h : i ≤ n) :
    (Flow.successors (code n) (Flow.leaders (code n)) i (i + 1)).filter (fun e => e.2 = .normal) =
      if i ≤ 1 then [] else [(i - 1, .normal)] := by
  cases i with
  | zero =>
    -- there are edges to handlers only
    rw [if_pos (Nat.zero_le 1)]
    refine List.filter_eq_nil_iff.2 ?_
    rintro ⟨u, k⟩ hu
    rcases Flow.mem_successors_iff.1 hu with ⟨-, j, hj, -⟩ | ⟨rfl, -⟩
    · rw [exits_code h] at hj
      cases hj
    · simp
  | succ i =>
    have hhandlers : Flow.handlerEntries (code n) (i + 1) (i + 1 + 1) = [] := by
      simp [Flow.handlerEntries, code, covers_handler]
    unfold Flow.successors
    rw [exits_code h, hhandlers]
    split
    · rfl
    · simp only [List.map_cons, List.map_nil, List.append_nil,
        blockAt_code (show i + 1 - 1 ≤ n by omega)]
      rfl

lemma exists_block (h : i ≤ n) : ∃ B, (Flow.graphOf (code n)).blocks[i]? = some B ∧ B.start = i ∧
    B.stop = i + 1 ∧ B.successors.filter (fun e => e.2 = .normal) =
      if i ≤ 1 then [] else [(i - 1, .normal)] := by
  have hlt : i < (Flow.graphOf (code n)).blocks.length := by
    rw [Flow.length_blocks, leaders_code, List.length_range]
    omega
  have hB := List.getElem?_eq_getElem hlt
  have hloc := Flow.located_of_getElem? hB
  have hstart : i = (Flow.graphOf (code n)).blocks[i].start := by
    have := hloc.start
    rwa [leaders_code, List.getElem?_range (by omega), Option.some.injEq] at this
  have hstop : (Flow.graphOf (code n)).blocks[i].stop = i + 1 := by
    have := hloc.stop
    rw [leaders_code, size_code] at this
    rcases this with h | ⟨h, hsize⟩
    · obtain ⟨hlt, h⟩ := List.getElem?_eq_some_iff.1 h
      rw [← h, List.getElem_range]
    · have := List.getElem?_eq_none_iff.1 h
      rw [List.length_range] at this
      omega
  refine ⟨_, hB, hstart.symm, hstop, ?_⟩
  rw [hloc.successors, ← hstart, hstop, normal_successors h]

lemma size_graph (n : ℕ) : (Flow.graphOf (code n)).size = n + 1 := by
  rw [FlowGraph.size, Flow.length_blocks, leaders_code, List.length_range]

lemma block?_graph (h : i ≤ n) : (Flow.graphOf (code n)).block? i = some i := by
  obtain ⟨B, hB, hstart, hstop, -⟩ := exists_block h
  exact (Flow.laid_graphOf (sound_code n)).block hB (Nat.le_of_eq hstart) (by omega)

lemma handlers_first (n : ℕ) : (Flow.graphOf (code n)).handlers 0 = List.range n := by
  have hall : (code n).handlers.zipIdx.filter (fun p => p.1.covers 0) =
      (code n).handlers.zipIdx := by
    refine List.filter_eq_self.2 fun p hp => ?_
    obtain ⟨k, -, hk⟩ := List.mem_map.1 (List.fst_mem_of_mem_zipIdx hp)
    rw [← hk, covers_handler]
    rfl
  simp only [FlowGraph.handlers, Flow.graphOf, size_code, List.getElem?_map,
    List.getElem?_range (Nat.succ_pos n), Option.map_some, Option.getD_some, Flow.covering, hall]
  simp [code, List.range_eq_range']

lemma handlers_later (hi : 0 < i) : (Flow.graphOf (code n)).handlers i = [] := by
  refine List.eq_nil_iff_forall_not_mem.2 fun k hk => ?_
  obtain ⟨h, hk, hcatch⟩ := (Flow.laid_graphOf (sound_code n)).handlers.1 hk
  obtain ⟨k, -, rfl⟩ := List.mem_map.1 (List.mem_of_getElem? hk)
  have := hcatch.2.2
  rw [covers_handler, decide_eq_true_eq] at this
  omega

/-! ### Visits -/

def problem (n : ℕ) : Problem :=
  Analysis.problem (table n).hierarchy method (Flow.graphOf (code n)) (code n)

/-- The frame on entry to the method. -/
def entry : Frame := ⟨[], .empty⟩

lemma entry_method (n : ℕ) : Frame.entry method (code n).maxLocals = .ok entry := by
  change Frame.entry method 0 = .ok entry
  decide +kernel

/-- No instruction changes the frame. -/
lemma step_instruction (n i j : ℕ) {f : Frame} (hf : f.depth ≤ 1) :
    (problem n).interpreter.step i (instruction j) f = .ok f := by
  have hreturn : Transfer.returnAllowed method f = true := by
    have hinit : method.mustInitialize = false := by decide +kernel
    simp [Transfer.returnAllowed, hinit]
  have heffect : Transfer.effect ⟨(table n).hierarchy, method, 1⟩ i (instruction j) f = .ok f := by
    unfold instruction
    split
    · simp only [Transfer.effect, Transfer.stepBranch, hreturn, if_true]
      rfl
    · rfl
  change Transfer.step ⟨(table n).hierarchy, method, 1⟩ i (instruction j) f = .ok f
  unfold Transfer.step
  rw [heffect]
  exact if_neg (Nat.not_lt.2 hf)

/-- What is sent along normal edges by a block. -/
lemma visit_later {s : State} {f : Frame} (hpos : 0 < i) (hi : i ≤ n)
    (hs : s.states[i]? = some (.queued f)) (hf : f.depth ≤ 1) :
    (visit (problem n) s i).outcome =
      ((if i ≤ 1 then [] else [(i - 1, EdgeKind.normal)]).foldlM
        (fun s e => propagate (problem n) s e.1 f)
        { s with
          states := s.states.set i (.stable f)
          before := s.before.set i (some f)
          after := s.after.set i (some f) }).outcome := by
  obtain ⟨B, hB, hstart, hstop, hsucc⟩ := exists_block hi
  have hblock : (problem n).graph.blocks[i]? = some B := hB
  have hcode : (problem n).code.instructions[i]? = some (instruction i) := getElem?_code hi
  have hhandlers : (problem n).graph.handlers i = [] := handlers_later hpos
  unfold visit
  simp only [hblock, hs, Option.bind_some, BlockState.frame?]
  rw [if_neg (by omega)]
  unfold visitBlock
  rw [hsucc, hstart, hstop, Nat.add_sub_cancel_left]
  unfold visitInstruction
  simp only [List.range'_one, List.foldlM_cons, List.foldlM_nil, hcode, hhandlers,
    step_instruction n i i hf, Traced.outcome_bind, Traced.outcome_note, Traced.outcome_lift,
    Traced.outcome_pure]
  rfl

lemma depth_frame (k : ℕ) : (frame k).depth ≤ 1 := Nat.le_refl 1

/-- The last stair sends nothing. -/
lemma visit_last {s : State} {k : ℕ} (hn : 1 ≤ n) (hs : s.states[1]? = some (.queued (frame k))) :
    ∃ s', (visit (problem n) s 1).outcome = .ok s' ∧ s'.queue = s.queue ∧
      s'.states = s.states.set 1 (.stable (frame k)) := by
  rw [visit_later Nat.one_pos hn hs (depth_frame k)]
  exact ⟨_, rfl, rfl, rfl⟩

/-- A stair that is stable is woken by the next class up the chain. -/
lemma propagate_stair {s : State} {t k : ℕ} (hk : k + 2 ≤ n)
    (hs : s.states[t]? = some (.stable (frame (k + 1)))) :
    (propagate (problem n) s t (frame k)).outcome = .ok { s with
      states := s.states.set t (.queued (frame k)), queue := s.queue ++ [t] } := by
  have hmerge : (frame (k + 1)).merge (problem n).hierarchy (frame k) = .ok (frame k) :=
    merge_frame hk
  have hentry : ∀ place, (mergeEntry (problem n) place (frame (k + 1)) (frame k)).outcome =
      .ok (true, frame k) := by
    intro place
    rw [outcome_mergeEntry, hmerge]
    simp [Except.mapError, Except.map, same_frame]
  unfold propagate
  simp only [hs, Traced.outcome_bind, hentry]
  rfl

/-- A class that comes down a stair wakes the next one. -/
lemma visit_stair {s : State} {k : ℕ} (h2 : 2 ≤ i) (hi : i ≤ n) (hk : k + 2 ≤ n)
    (hs : s.states[i]? = some (.queued (frame k)))
    (hnext : s.states[i - 1]? = some (.stable (frame (k + 1)))) :
    ∃ s', (visit (problem n) s i).outcome = .ok s' ∧ s'.queue = s.queue ++ [i - 1] ∧
      s'.states = (s.states.set i (.stable (frame k))).set (i - 1) (.queued (frame k)) := by
  have hset : (s.states.set i (.stable (frame k)))[i - 1]? = some (.stable (frame (k + 1))) := by
    rw [List.getElem?_set_ne (by omega), hnext]
  rw [visit_later (by omega) hi hs (depth_frame k), if_neg (by omega), List.foldlM_cons,
    Traced.outcome_bind, propagate_stair hk hset]
  exact ⟨_, rfl, rfl, rfl⟩

lemma caught_handler {k : ℕ} (hk : k < n) :
    handlerFrame (Transfer.caught (handler n k)) entry = frame (n - (k + 1)) := by
  have : n - (k + 1) + 1 = n - k := by omega
  rw [frame, this]
  rfl

/-- An exception of the first instruction wakes the stairs one after the other. -/
lemma foldlM_handlers {s : State} {k m : ℕ} (hk : k + m = n)
    (hs : ∀ b, k < b → b ≤ n → s.states[b]? = some .unvisited) :
    ∃ s', ((List.range' k m).foldlM (propagateTo (problem n) 0 (instruction 0) entry entry)
        s).outcome = .ok s' ∧ s'.queue = s.queue ++ List.range' (k + 1) m ∧
      (∀ b ≤ k, s'.states[b]? = s.states[b]?) ∧
      ∀ b, k < b → b ≤ n → s'.states[b]? = some (.queued (frame (n - b))) := by
  induction m generalizing k s with
  | zero => exact ⟨s, rfl, by simp, fun _ _ => rfl, fun b h1 h2 => by omega⟩
  | succ m ih =>
    have hhandler : (problem n).code.handlers[k]? = some (handler n k) := by
      change (code n).handlers[k]? = some (handler n k)
      simp [code, List.getElem?_range (show k < n by omega)]
    have hblock : (problem n).graph.block? (handler n k).entry = some (k + 1) :=
      block?_graph (show k + 1 ≤ n by omega)
    have hwake := hs (k + 1) (by omega) (by omega)
    have hlt := (List.getElem?_eq_some_iff.1 hwake).1
    -- the handler in this place wakes its stair
    have hstep : (propagateTo (problem n) 0 (instruction 0) entry entry s k).outcome = .ok { s with
        states := s.states.set (k + 1) (.queued (frame (n - (k + 1))))
        queue := s.queue ++ [k + 1] } := by
      unfold propagateTo
      simp only [hhandler]
      rw [if_neg (show ¬ (problem n).code.maxStack < 1 from Nat.lt_irrefl 1)]
      simp only [hblock]
      have hthrow : throwing (instruction 0) entry entry = [entry] := rfl
      rw [hthrow]
      simp only [List.foldlM_cons, List.foldlM_nil, propagate, hwake]
      rw [show (problem n).interpreter.caught = Transfer.caught from rfl,
        caught_handler (show k < n by omega)]
      rfl
    obtain ⟨s', hs', hqueue, hbefore, hafter⟩ := ih (k := k + 1) (s := { s with
        states := s.states.set (k + 1) (.queued (frame (n - (k + 1))))
        queue := s.queue ++ [k + 1] }) (by omega) (by
      intro b h1 h2
      rw [List.getElem?_set_ne (by omega)]
      exact hs b (by omega) h2)
    refine ⟨s', ?_, ?_, ?_, ?_⟩
    · rw [List.range'_succ, List.foldlM_cons, Traced.outcome_bind, hstep]
      exact hs'
    · simp [hqueue, List.range'_succ]
    · intro b hb
      rw [hbefore b (by omega), List.getElem?_set_ne (by omega)]
    · intro b h1 h2
      by_cases hb : b = k + 1
      · rw [hb, hbefore (k + 1) (Nat.le_refl _), List.getElem?_set_self hlt]
      · exact hafter b (by omega) h2

/-- After the first visit all stairs wait, in order. -/
lemma visit_first (n : ℕ) : ∃ s', (visit (problem n) { initial (problem n) entry with queue := [] }
      0).outcome = .ok s' ∧ s'.queue = List.range' 1 n ∧
    ∀ b, 0 < b → b ≤ n → s'.states[b]? = some (.queued (frame (n - b))) := by
  obtain ⟨B, hB, hstart, hstop, hsucc⟩ := exists_block (Nat.zero_le n)
  have hblock : (problem n).graph.blocks[0]? = some B := hB
  have hcode : (problem n).code.instructions[0]? = some (instruction 0) :=
    getElem?_code (Nat.zero_le n)
  have hhandlers : (problem n).graph.handlers 0 = List.range n := handlers_first n
  have hsize : (problem n).graph.size = n + 1 := size_graph n
  have hstates : (initial (problem n) entry).states =
      .queued entry :: List.replicate n .unvisited := by
    rw [initial, hsize, List.replicate_succ, List.set_cons_zero]
  have hframe : ((initial (problem n) entry).states[0]?).bind BlockState.frame? = some entry := by
    rw [hstates]
    rfl
  obtain ⟨s', hs', hqueue, -, hafter⟩ := foldlM_handlers (n := n) (k := 0) (m := n)
    (s := { initial (problem n) entry with
      queue := [], states := (initial (problem n) entry).states.set 0 (.stable entry) })
    (Nat.zero_add n) (by
      intro b h1 h2
      obtain ⟨b, rfl⟩ := Nat.exists_eq_succ_of_ne_zero (Nat.ne_of_gt h1)
      simp only [hstates, List.set_cons_zero, Nat.succ_eq_add_one, List.getElem?_cons_succ]
      exact List.getElem?_replicate_of_lt (by omega))
  -- there is one instruction, which sends to its handlers only
  unfold visit
  simp only [hblock, hframe]
  rw [if_neg (by omega)]
  unfold visitBlock
  rw [hsucc, hstart, hstop]
  unfold visitInstruction
  rw [← List.range_eq_range'] at hs'
  simp only [Nat.zero_add, Nat.sub_zero, List.range'_one, List.foldlM_cons, List.foldlM_nil, hcode,
    hhandlers, step_instruction n 0 0 (show entry.depth ≤ 1 from Nat.zero_le 1),
    Traced.outcome_bind, Traced.outcome_note, Traced.outcome_lift, Traced.outcome_pure]
  simp only [bind, Except.bind, Except.mapError, hs']
  exact ⟨_, rfl, by simpa using hqueue, hafter⟩

/-! ### Rounds -/

/-- The stairs that wait after stair `i`, in the round of the first `r` stairs. -/
def rest (r i : ℕ) : List ℕ := List.range' (i + 1) (r - i) ++ List.range' 1 (i - 2)

/-- The state in a round when stair `i` is next. The stairs before it have been visited, and all but
the last of them were woken by the visit after theirs. The stairs above `r` have seen the whole
chain. -/
structure Round (n r i : ℕ) (s : State) : Prop where
  queue : s.queue = List.range' i (r + 1 - i) ++ List.range' 1 (i - 2)
  woken : ∀ b, 0 < b → b + 1 < i → s.states[b]? = some (.queued (frame (r - 1 - b)))
  passed : ∀ b, 0 < b → b ≤ n → b + 1 = i ∨ r < b → s.states[b]? = some (.stable (frame (r - b)))
  waiting : ∀ b, i ≤ b → b ≤ r → s.states[b]? = some (.queued (frame (r - b)))

namespace Round

variable {r : ℕ} {s : State}

lemma queue_eq (h : Round n r i s) (hi : i ≤ r) : s.queue = i :: rest r i := by
  rw [h.queue, show r + 1 - i = r - i + 1 by omega, List.range'_succ, List.cons_append, rest]

/-- The last stair comes first in a round, and wakes nothing. -/
lemma after_last {s' : State} (h : Round n r 1 s) (hr : 1 ≤ r) (hqueue : s'.queue = rest r 1)
    (hstates : s'.states = s.states.set 1 (.stable (frame (r - 1)))) : Round n r 2 s' := by
  have hlt := (List.getElem?_eq_some_iff.1 (h.waiting 1 (Nat.le_refl 1) hr)).1
  refine ⟨?_, fun b h1 h2 => by omega, fun b h1 h2 h3 => ?_, fun b h1 h2 => ?_⟩
  · rw [hqueue, rest, show r + 1 - 2 = r - 1 by omega]
  · rw [hstates]
    by_cases hb : b = 1
    · rw [hb, List.getElem?_set_self hlt]
    · rw [List.getElem?_set_ne (by omega)]
      exact h.passed b h1 h2 (by omega)
  · rw [hstates, List.getElem?_set_ne (by omega)]
    exact h.waiting b (by omega) h2

/-- Any other stair wakes the one before it. -/
lemma after_stair {s' : State} (h : Round n r i s) (h2 : 2 ≤ i) (hi : i ≤ r)
    (hqueue : s'.queue = rest r i ++ [i - 1])
    (hstates : s'.states =
      (s.states.set i (.stable (frame (r - i)))).set (i - 1) (.queued (frame (r - i)))) :
    Round n r (i + 1) s' := by
  have hlt := (List.getElem?_eq_some_iff.1 (h.waiting i (Nat.le_refl i) hi)).1
  refine ⟨?_, fun b h1 h2 => ?_, fun b h1 h2 h3 => ?_, fun b h1 h2 => ?_⟩
  · have hconcat : List.range' 1 (i + 1 - 2) = List.range' 1 (i - 2) ++ [i - 1] := by
      rw [show i + 1 - 2 = i - 2 + 1 by omega, List.range'_concat,
        show 1 + 1 * (i - 2) = i - 1 by omega]
    rw [hqueue, hconcat, rest, show r + 1 - (i + 1) = r - i by omega, List.append_assoc]
  · rw [hstates]
    by_cases hb : b = i - 1
    · have hlt' : i - 1 < (s.states.set i (.stable (frame (r - i)))).length := by
        rw [List.length_set]
        omega
      rw [hb, List.getElem?_set_self hlt', show r - 1 - (i - 1) = r - i by omega]
    · rw [List.getElem?_set_ne (by omega), List.getElem?_set_ne (by omega)]
      exact h.woken b h1 (by omega)
  · rw [hstates, List.getElem?_set_ne (by omega)]
    by_cases hb : b = i
    · rw [hb, List.getElem?_set_self hlt]
    · rw [List.getElem?_set_ne (by omega)]
      exact h.passed b h1 h2 (by omega)
  · rw [hstates, List.getElem?_set_ne (by omega), List.getElem?_set_ne (by omega)]
    exact h.waiting b (by omega) h2

/-- **One visit** of a round. -/
lemma step (h : Round n r i s) (hpos : 0 < i) (hi : i ≤ r) (hr : r ≤ n) :
    ∃ s', (visit (problem n) { s with queue := rest r i } i).outcome = .ok s' ∧
      Round n r (i + 1) s' := by
  have hstate := h.waiting i (Nat.le_refl i) hi
  by_cases h1 : i = 1
  · subst h1
    obtain ⟨s', hvisit, hq, hstates⟩ := visit_last (n := n) (hi.trans hr)
      (s := { s with queue := rest r 1 }) hstate
    exact ⟨s', hvisit, h.after_last hi hq hstates⟩
  · have hnext := h.passed (i - 1) (by omega) (by omega) (by omega)
    rw [show r - (i - 1) = r - i + 1 by omega] at hnext
    obtain ⟨s', hvisit, hq, hstates⟩ := visit_stair (n := n) (k := r - i) (by omega) (by omega)
      (by omega) (s := { s with queue := rest r i }) hstate hnext
    exact ⟨s', hvisit, h.after_stair (by omega) hi hq hstates⟩

/-- At the end of a round the next one starts, with one stair less. -/
lemma next (h : Round n (r + 1) (r + 2) s) : Round n r 1 s where
  queue := by
    rw [h.queue]
    simp
  woken := fun b h1 h2 => by omega
  passed := by
    intro b h1 h2 h3
    rw [h.passed b h1 h2 (by omega), show r + 1 - b = r - b by omega]
  waiting := by
    intro b h1 h2
    rw [h.woken b h1 (by omega), Nat.add_sub_cancel]

/-- **The rest of a round**: every stair that waits is visited once. -/
lemma drains_round {m : ℕ} (hr : r ≤ n)
    (hend : ∀ s, Round n r (r + 1) s → ∃ s', Drains (problem n) s m (.ok s')) (k : ℕ) :
    ∀ i s, 0 < i → i + k = r + 1 → Round n r i s →
      ∃ s', Drains (problem n) s (m + k) (.ok s') := by
  induction k with
  | zero =>
    intro i s hpos hi h
    rw [show i = r + 1 by omega] at h
    exact hend s h
  | succ k ih =>
    intro i s hpos hi h
    obtain ⟨s', hvisit, h'⟩ := h.step hpos (by omega) hr
    obtain ⟨s'', hdrains⟩ := ih (i + 1) s' (Nat.succ_pos i) (by omega) h'
    exact ⟨s'', .visit (h.queue_eq (by omega)) hvisit hdrains⟩

/-- **All rounds**: the visits that are left at the start of a round. -/
lemma drains_rounds (hr : r ≤ n) : ∃ m, 2 * m = r * (r + 1) ∧
    ∀ s, Round n r 1 s → ∃ s', Drains (problem n) s m (.ok s') := by
  induction r with
  | zero => exact ⟨0, rfl, fun s h => ⟨s, .done (by simpa using h.queue)⟩⟩
  | succ r ih =>
    obtain ⟨m, hm, hdrains⟩ := ih (by omega)
    refine ⟨m + (r + 1), by rw [Nat.mul_add, hm]; ring, fun s h => ?_⟩
    exact drains_round hr (fun s' h' => hdrains s' h'.next) (r + 1) 1 s Nat.one_pos (by omega) h

end Round

/-- **The visits of a staircase**: one for the first block, and as many for each stair as there are
classes from its own to the top of the chain. -/
theorem drains_problem (n : ℕ) : ∃ m s, 2 * m = n * (n + 1) ∧
    Drains (problem n) (initial (problem n) entry) (m + 1) (.ok s) := by
  obtain ⟨s, hvisit, hqueue, hstates⟩ := visit_first n
  have hround : Round n n 1 s :=
    ⟨by simp [hqueue], fun b h1 h2 => by omega, fun b h1 h2 h3 => by omega, hstates⟩
  obtain ⟨m, hm, hdrains⟩ := Round.drains_rounds (Nat.le_refl n)
  obtain ⟨s', hs'⟩ := hdrains s hround
  exact ⟨m, s', hm, .visit rfl hvisit hs'⟩

/-! ### Ceilings -/

variable {settings : Settings} {lineOf? : ℕ → Option ℕ}

lemma ceiling_problem (settings : Settings) (n : ℕ) : ceiling (problem n) settings =
    min (settings.iterationFactor * (n + 1) * 2) Settings.maxLimit := by
  have hsize : (problem n).graph.size = n + 1 := size_graph n
  rw [ceiling, hsize]
  rfl

lemma outcome_method :
    (Verify.method (table n).hierarchy settings method (code n) lineOf?).outcome =
      ((run (problem n) settings entry).outcome.map fun a =>
        ⟨a.before, a.after, (Flow.graphOf (code n)).deadCode⟩).mapError fun cause =>
          ⟨cause, cause.instruction.bind lineOf?⟩ :=
  method_of_run (build_code n) (entry_method n)

/-- **No factor is enough**: a staircase with four times as many stairs is rejected. -/
theorem limit_reached (h : n = 4 * settings.iterationFactor) :
    (Verify.method (table n).hierarchy settings method (code n) lineOf?).outcome =
      .error ⟨.internal none (.iterationLimit (ceiling (problem n) settings)), none⟩ := by
  obtain ⟨m, s, hm, hdrains⟩ := drains_problem n
  have hlt : ¬ m + 1 ≤ ceiling (problem n) settings := by
    have hle : ceiling (problem n) settings ≤ settings.iterationFactor * (n + 1) * 2 := by
      rw [ceiling_problem]
      exact Nat.min_le_left _ _
    have hdouble : 2 * (settings.iterationFactor * (n + 1) * 2) = 2 * m := by
      rw [hm, h]
      ring
    omega
  rw [outcome_method, run_of_drains hdrains settings, if_neg hlt]
  rfl

/-- The same staircase is accepted as soon as the factor is greater by one. -/
theorem limit_not_reached (h : n + 4 = 4 * settings.iterationFactor)
    (hmax : settings.iterationFactor * (n + 1) * 2 ≤ Settings.maxLimit) :
    ∃ v, (Verify.method (table n).hierarchy settings method (code n) lineOf?).outcome = .ok v := by
  obtain ⟨m, s, hm, hdrains⟩ := drains_problem n
  have hle : m + 1 ≤ ceiling (problem n) settings := by
    rw [ceiling_problem, Nat.min_eq_left hmax]
    have hdouble : 2 * (settings.iterationFactor * (n + 1) * 2) = 2 * m + 4 * (n + 1) := by
      calc 2 * (settings.iterationFactor * (n + 1) * 2)
          = 4 * settings.iterationFactor * (n + 1) := by ring
        _ = n * (n + 1) + 4 * (n + 1) := by rw [← h, Nat.add_mul]
        _ = 2 * m + 4 * (n + 1) := by rw [hm]
    omega
  rw [outcome_method, run_of_drains hdrains settings, if_pos hle]
  exact ⟨_, rfl⟩

end Staircase

/-- The standard ceiling rejects a method over a well-formed class table, and a higher one accepts
it. -/
theorem standard_limit_reached_staircase :
    (Staircase.table 32).WellFormed ∧
    FlowGraph.build (Staircase.code 32) = .ok (Flow.graphOf (Staircase.code 32)) ∧
    (Verify.method (Staircase.table 32).hierarchy .standard Staircase.method (Staircase.code 32)
      fun _ => none).outcome = .error ⟨.internal none (.iterationLimit 528), none⟩ ∧
    ∃ v, (Verify.method (Staircase.table 32).hierarchy ⟨9, true⟩ Staircase.method
      (Staircase.code 32) fun _ => none).outcome = .ok v := by
  have hceiling : ceiling (Staircase.problem 32) .standard = 528 := by
    rw [Staircase.ceiling_problem]
    rfl
  have hfactor : 32 = 4 * Settings.standard.iterationFactor := rfl
  refine ⟨Staircase.wellFormed_table 32, Staircase.build_code 32, ?_, ?_⟩
  · rw [Staircase.limit_reached hfactor, hceiling]
  · exact Staircase.limit_not_reached rfl (by decide)

end Bytecheck
