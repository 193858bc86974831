import Mathlib.Data.List.Sort
import Mathlib.Tactic.Common
import Bytecheck.Proofs.Tiling

/-!
What exception tables cover.

A table is read in byte offsets and used in instruction indices. The offsets at which instructions
start, with the end of the code behind them, ascend; so an entry in indices covers an instruction if
and only if the entry in offsets covers its first byte. The rest of an entry is kept as well: a
range is empty in indices when it is empty in offsets, and handling begins within the code unless it
begins at its end.
-/

namespace Bytecheck

namespace RawHandler

/-- Whether a byte is in the range of the entry. -/
def covers (r : RawHandler) (pc : ℕ) : Bool := r.startPc ≤ pc && pc < r.endPc

/-- The entries of a table that cover a byte, by their place in the table. -/
def covering (table : List RawHandler) (pc : ℕ) : List ℕ :=
  (table.zipIdx.filter fun p => p.1.covers pc).map Prod.snd

end RawHandler

namespace DecodedCode

open Decode

variable {pool : ConstantPool} {bytes : List UInt8} {d : DecodedCode} {r : RawHandler} {h : Handler}
  {k pc : ℕ}

/-! ### Bounds of instructions -/

/-- Where instructions start, and where the last one ends. -/
def bounds (d : DecodedCode) : List ℕ := d.offsets ++ [d.length]

lemma Tiles.sortedLT_bounds (T : d.Tiles pool bytes) : d.bounds.SortedLT := by
  rw [List.sortedLT_iff_pairwise, bounds, List.pairwise_append]
  refine ⟨T.ascending, List.pairwise_singleton _ _, fun p hp q hq => ?_⟩
  rw [List.mem_singleton.1 hq]
  exact T.within p hp

/-- Bounds are in the order of their places. -/
lemma Tiles.lt_iff (T : d.Tiles pool bytes) {a b p q : ℕ} (ha : d.bounds[a]? = some p)
    (hb : d.bounds[b]? = some q) : a < b ↔ p < q := by
  obtain ⟨_, rfl⟩ := List.getElem?_eq_some_iff.1 ha
  obtain ⟨_, rfl⟩ := List.getElem?_eq_some_iff.1 hb
  exact T.sortedLT_bounds.getElem_lt_getElem_iff.symm

lemma getElem?_bounds (hk : d.offsets[k]? = some pc) : d.bounds[k]? = some pc := by
  rw [bounds, List.getElem?_append_left (List.getElem?_eq_some_iff.1 hk).1, hk]

/-- Ascending offsets are in the order of their places. -/
lemma le_iff (h : d.offsets.Pairwise (· < ·)) {a b p q : ℕ} (ha : d.offsets[a]? = some p)
    (hb : d.offsets[b]? = some q) : a ≤ b ↔ p ≤ q := by
  obtain ⟨_, rfl⟩ := List.getElem?_eq_some_iff.1 ha
  obtain ⟨_, rfl⟩ := List.getElem?_eq_some_iff.1 hb
  exact h.sortedLT.getElem_le_getElem_iff.symm

lemma Tiles.getElem?_bounds_length (T : d.Tiles pool bytes) :
    d.bounds[d.instructions.length]? = some d.length := by
  rw [T.paired, bounds, List.getElem?_concat_length]

/-- The boundary at an offset is the place of the offset among the bounds. -/
lemma Tiles.getElem?_of_boundaryOf? (T : d.Tiles pool bytes) (hk : d.boundaryOf? pc = some k) :
    d.bounds[k]? = some pc := by
  unfold boundaryOf? at hk
  split at hk
  · rename_i hpc
    cases hk
    rw [hpc]
    exact T.getElem?_bounds_length
  · exact getElem?_bounds (getElem?_of_indexOf? hk)

/-! ### Entries in indices -/

/-- An entry in indices stands for an entry in offsets. -/
structure Translates (d : DecodedCode) (r : RawHandler) (h : Handler) : Prop where
  start : d.bounds[h.start]? = some r.startPc
  stop : d.bounds[h.stop]? = some r.endPc
  entry : d.bounds[h.entry]? = some r.handlerPc

lemma Tiles.translates (T : d.Tiles pool bytes) {constants : ConstantPool} {n : ℕ}
    (hh : d.handler constants n r = .ok h) : d.Translates r h := by
  have hbound : ∀ {pc k : ℕ}, d.boundary n pc = .ok k → d.bounds[k]? = some pc := by
    intro pc k hk
    unfold boundary at hk
    split at hk
    · rename_i hb
      cases hk
      exact T.getElem?_of_boundaryOf? hb
    · cases hk
  obtain ⟨catches, -, hh⟩ := bind_ok_iff.1 hh
  obtain ⟨start, hstart, hh⟩ := bind_ok_iff.1 hh
  obtain ⟨stop, hstop, hh⟩ := bind_ok_iff.1 hh
  obtain ⟨entry, hentry, hh⟩ := bind_ok_iff.1 hh
  cases hh
  exact ⟨hbound hstart, hbound hstop, hbound hentry⟩

namespace Translates

/-- **Coverage is kept**: an instruction is covered when its first byte is. -/
lemma covers_eq (t : d.Translates r h) (T : d.Tiles pool bytes) (hk : d.offsets[k]? = some pc) :
    h.covers k = r.covers pc := by
  have hk := getElem?_bounds hk
  unfold Handler.covers RawHandler.covers
  rw [decide_eq_decide.2 (T.lt_iff hk t.stop)]
  congr 1
  rw [decide_eq_decide, ← Nat.not_lt, ← Nat.not_lt, T.lt_iff hk t.start]

lemma start_lt_stop_iff (t : d.Translates r h) (T : d.Tiles pool bytes) :
    h.start < h.stop ↔ r.startPc < r.endPc := T.lt_iff t.start t.stop

lemma le_length (t : d.Translates r h) (T : d.Tiles pool bytes) :
    h.stop ≤ d.instructions.length ∧ h.entry ≤ d.instructions.length := by
  have hlen : d.bounds.length = d.instructions.length + 1 := by simp [bounds, T.paired]
  have hstop := (List.getElem?_eq_some_iff.1 t.stop).1
  have hentry := (List.getElem?_eq_some_iff.1 t.entry).1
  omega

lemma length_le_entry_iff (t : d.Translates r h) (T : d.Tiles pool bytes) :
    d.instructions.length ≤ h.entry ↔ r.handlerPc = d.length := by
  have hlast := T.getElem?_bounds_length
  constructor
  · intro hle
    have hentry := t.entry
    rw [Nat.le_antisymm (t.le_length T).2 hle, hlast] at hentry
    exact (Option.some.inj hentry).symm
  · intro hpc
    rw [← Nat.not_lt, T.lt_iff t.entry hlast, hpc]
    exact Nat.lt_irrefl _

/-- What is wrong with an entry in indices can be told from the entry in offsets. -/
lemma handlerFault_eq (t : d.Translates r h) (T : d.Tiles pool bytes) {c : Code}
    (hc : c.instructions = d.instructions) (n : ℕ) :
    Flow.handlerFault c n h =
      if r.endPc ≤ r.startPc then some (.invalidExceptionRange n h.start h.stop)
      else if r.handlerPc = d.length then some (.invalidHandlerTarget n h.entry) else none := by
  have hsize : c.size = d.instructions.length := by rw [Code.size, hc]
  have hrange : (h.stop ≤ h.start ∨ d.instructions.length < h.stop) ↔ r.endPc ≤ r.startPc := by
    have hstop := (t.le_length T).1
    have hlt := t.start_lt_stop_iff T
    omega
  unfold Flow.handlerFault
  simp only [hsize, hrange, t.length_le_entry_iff T]

end Translates

/-! ### Tables -/

/-- Where two lists agree place by place, the same places are picked. -/
lemma places_congr {α β : Type} {P : α → Bool} {Q : β → Bool} {l : List α} {l' : List β}
    (hl : List.Forall₂ (fun a b => P a = Q b) l l') (n : ℕ) :
    ((l.zipIdx n).filter fun p => P p.1).map Prod.snd =
      ((l'.zipIdx n).filter fun p => Q p.1).map Prod.snd := by
  induction hl generalizing n with
  | nil => rfl
  | @cons a b l l' hab _ ih =>
    rw [List.zipIdx_cons, List.zipIdx_cons, List.filter_cons, List.filter_cons, hab]
    cases Q b with
    | true => simp [ih]
    | false => simp [ih]

lemma Tiles.translates_toCode (T : d.Tiles pool bytes) {constants : ConstantPool}
    {maxStack maxLocals : ℕ} {table : List RawHandler} {c : Code}
    (hc : d.toCode constants maxStack maxLocals table = .ok c) :
    List.Forall₂ d.Translates table c.handlers := by
  obtain ⟨handlers, hhandlers, hc⟩ := bind_ok_iff.1 hc
  cases hc
  rw [← List.zipIdx_map_fst 0 table, List.forall₂_map_left_iff]
  exact (mapM_ok_iff.1 hhandlers).imp fun p h hp => T.translates hp

/-- The handlers of an instruction are the entries that cover its first byte. -/
lemma Tiles.covering_eq (T : d.Tiles pool bytes) {table : List RawHandler} {c : Code}
    (ht : List.Forall₂ d.Translates table c.handlers) (hk : d.offsets[k]? = some pc) :
    Flow.covering c k = RawHandler.covering table pc := by
  have hagree : List.Forall₂ (fun r h => r.covers pc = h.covers k) table c.handlers :=
    ht.imp fun _ _ t => (t.covers_eq T hk).symm
  exact (places_congr hagree 0).symm

/-- The handlers in a flow graph are the entries that cover the first byte, in the order of the
table. -/
lemma Tiles.handlers_eq (T : d.Tiles pool bytes) {constants : ConstantPool}
    {maxStack maxLocals : ℕ} {table : List RawHandler} {c : Code} {g : FlowGraph}
    (hc : d.toCode constants maxStack maxLocals table = .ok c) (hg : FlowGraph.build c = .ok g)
    (hk : d.offsets[k]? = some pc) : g.handlers k = RawHandler.covering table pc := by
  obtain ⟨-, rfl⟩ := FlowGraph.build_eq_ok_iff.1 hg
  have hlt : k < c.size := by
    rw [Code.size, instructions_toCode hc, T.paired]
    exact (List.getElem?_eq_some_iff.1 hk).1
  rw [Flow.handlers_graphOf hlt]
  exact T.covering_eq (T.translates_toCode hc) hk

/-- What becomes of code that is sound but for an entry of its exception table, in terms of the
entry in offsets. -/
lemma Tiles.firstFault_toCode (T : d.Tiles pool bytes) {constants : ConstantPool}
    {maxStack maxLocals n : ℕ} {table : List RawHandler} {c : Code}
    (hc : d.toCode constants maxStack maxLocals table = .ok c) (hr : table[n]? = some r)
    (hrest : (c.without n).Sound) : ∃ h : Handler, Flow.firstFault c =
      if r.endPc ≤ r.startPc then some (.invalidExceptionRange n h.start h.stop)
      else if r.handlerPc = d.length then some (.invalidHandlerTarget n h.entry) else none := by
  obtain ⟨hlen, hall⟩ := List.forall₂_iff_get.1 (T.translates_toCode hc)
  obtain ⟨hn, rfl⟩ := List.getElem?_eq_some_iff.1 hr
  have hn' : n < c.handlers.length := hlen ▸ hn
  have hfault := Flow.firstFault_of_without hrest (List.getElem?_eq_getElem hn')
  exact ⟨_, hfault.trans ((hall n hn hn').handlerFault_eq T (instructions_toCode hc) n)⟩

/-- **Bringing the exception table to indices keeps what it covers**, for code arrays whose offsets
fit. An entry in indices covers an instruction if and only if the entry in offsets covers its first
byte, and the handlers of an instruction in the flow graph are the entries that do so, in the order
of the table. When the rest of the code is sound, the range of an entry is reported if it is empty
in offsets, and else its handler if it is at the end of the code array; otherwise there is a flow
graph. -/
theorem covers_iff_of_ofBytes (hb : bytes.length < 4294967296) (hd : ofBytes pool bytes = .ok d) :
    (∀ (constants : ConstantPool) (n : ℕ) (r : RawHandler) (h : Handler),
      d.handler constants n r = .ok h → ∀ k pc, d.offsets[k]? = some pc →
        (h.covers k = true ↔ r.startPc ≤ pc ∧ pc < r.endPc)) ∧
    ∀ (constants : ConstantPool) (maxStack maxLocals : ℕ) (table : List RawHandler) (c : Code),
      d.toCode constants maxStack maxLocals table = .ok c →
      (∀ g, FlowGraph.build c = .ok g → ∀ k pc, d.offsets[k]? = some pc →
        g.handlers k = RawHandler.covering table pc) ∧
      ∀ n r, table[n]? = some r → (c.without n).Sound →
        ((∃ start stop, FlowGraph.build c = .error (.invalidExceptionRange n start stop)) ↔
          r.endPc ≤ r.startPc) ∧
        (r.startPc < r.endPc →
          ((∃ entry, FlowGraph.build c = .error (.invalidHandlerTarget n entry)) ↔
            r.handlerPc = d.length)) ∧
        (r.startPc < r.endPc → r.handlerPc ≠ d.length → ∃ g, FlowGraph.build c = .ok g) := by
  have T := tiles_of_ofBytes hb hd
  constructor
  · intro constants n r h hh k pc hk
    rw [(T.translates hh).covers_eq T hk]
    simp [RawHandler.covers]
  · intro constants maxStack maxLocals table c hc
    refine ⟨fun g hg k pc hk => T.handlers_eq hc hg hk, fun n r hr hrest => ?_⟩
    obtain ⟨h, hfault⟩ := T.firstFault_toCode hc hr hrest
    simp only [FlowGraph.build_error_iff, hfault]
    refine ⟨?_, fun hlt => ?_, fun hlt hpc => ?_⟩
    · by_cases hrange : r.endPc ≤ r.startPc
      · simp [hrange]
      · by_cases hpc : r.handlerPc = d.length <;> simp [hrange, hpc]
    · by_cases hpc : r.handlerPc = d.length <;> simp [Nat.not_le.2 hlt, hpc]
    · rw [if_neg (Nat.not_le.2 hlt), if_neg hpc] at hfault
      exact ⟨_, FlowGraph.build_eq_ok_iff.2 ⟨Flow.sound_of_firstFault hfault, rfl⟩⟩

/-- The loop, with an entry before one that covers its first two instructions. -/
def guardedCode (h : Handler) : Code := ⟨loopCode.instructions, 1, 1, [h, ⟨0, 2, 2, none⟩]⟩

lemma toCode_guarded {r : RawHandler} {h : Handler}
    (hh : loopCode.handler ConstantTable.empty.pool 0 r = .ok h) :
    loopCode.toCode ConstantTable.empty.pool 1 1 [r, ⟨0, 20, 20, 0⟩] = .ok (guardedCode h) := by
  have hsecond : loopCode.handler ConstantTable.empty.pool 1 ⟨0, 20, 20, 0⟩ =
      .ok ⟨0, 2, 2, none⟩ := by decide +kernel
  exact bind_ok_iff.2 ⟨_, mapM_ok_iff.2 (.cons hh (.cons hsecond .nil)), rfl⟩

lemma sound_guarded (h : Handler) : ((guardedCode h).without 0).Sound :=
  Flow.firstFault_eq_none_iff.1 rfl

/-- In the loop, a range may reach the end of the code array. A handler may not begin there, and a
range may not be empty. -/
theorem covers_iff_of_ofBytes_loop :
    ofBytes ConstantTable.empty.pool loopBytes = .ok loopCode ∧
      (∃ g, FlowGraph.build (guardedCode ⟨1, 4, 3, none⟩) = .ok g ∧
        ∀ k pc, loopCode.offsets[k]? = some pc →
          g.handlers k = RawHandler.covering [⟨1, 24, 23, 0⟩, ⟨0, 20, 20, 0⟩] pc) ∧
      (∃ entry, FlowGraph.build (guardedCode ⟨1, 4, 4, none⟩) =
        .error (.invalidHandlerTarget 0 entry)) ∧
      ∃ start stop, FlowGraph.build (guardedCode ⟨2, 2, 3, none⟩) =
        .error (.invalidExceptionRange 0 start stop) := by
  obtain ⟨-, hcode⟩ := covers_iff_of_ofBytes (by decide) ofBytes_loop
  obtain ⟨hcovers, hreaching⟩ := hcode _ 1 1 _ _
    (toCode_guarded (r := ⟨1, 24, 23, 0⟩) (h := ⟨1, 4, 3, none⟩) (by decide +kernel))
  obtain ⟨-, hlate⟩ := hcode _ 1 1 _ _
    (toCode_guarded (r := ⟨1, 24, 24, 0⟩) (h := ⟨1, 4, 4, none⟩) (by decide +kernel))
  obtain ⟨-, hempty⟩ := hcode _ 1 1 _ _
    (toCode_guarded (r := ⟨20, 20, 23, 0⟩) (h := ⟨2, 2, 3, none⟩) (by decide +kernel))
  obtain ⟨g, hg⟩ := (hreaching 0 _ rfl (sound_guarded _)).2.2 (by decide) (by decide)
  exact ⟨ofBytes_loop, ⟨g, hg, hcovers g hg⟩,
    ((hlate 0 _ rfl (sound_guarded _)).2.1 (by decide)).2 rfl,
    (hempty 0 _ rfl (sound_guarded _)).1.2 (by decide)⟩

/-- Where the length is kept as zero, zero is the end of the code array. -/
lemma handler_idle {n : ℕ} (hlow : 12 ≤ n) (hhigh : n ≤ 4294967297) (hn : word n = 0) :
    (idleCode n).handler ConstantTable.empty.pool 0 ⟨5, 0, 5, 0⟩ = .ok ⟨5, n, 5, none⟩ := by
  have hlength : (idleCode n).length = 0 := hn
  have hsize : (idleCode n).instructions.length = n := List.length_replicate
  have hfive : (idleCode n).boundary 0 5 = .ok 5 := by
    rw [boundary, boundaryOf?, hlength, if_neg (by decide), indexOf?_idle hhigh (by omega)]
  have hend : (idleCode n).boundary 0 0 = .ok n := by
    rw [boundary, boundaryOf?, hlength, if_pos rfl, hsize]
  exact bind_ok_iff.2 ⟨none, rfl, bind_ok_iff.2 ⟨5, hfive, bind_ok_iff.2 ⟨n, hend,
    bind_ok_iff.2 ⟨5, hfive, rfl⟩⟩⟩⟩

/-- In a code array of 2³² bytes, a range from the sixth byte to the first one covers instructions.
-/
theorem covers_in_long_code :
    ofBytes ConstantTable.empty.pool (List.replicate 4294967296 0) = .ok (idleCode 4294967296) ∧
      (idleCode 4294967296).handler ConstantTable.empty.pool 0 ⟨5, 0, 5, 0⟩ =
        .ok ⟨5, 4294967296, 5, none⟩ ∧
      ¬ ∀ k pc, (idleCode 4294967296).offsets[k]? = some pc →
        ((⟨5, 4294967296, 5, none⟩ : Handler).covers k = true ↔ 5 ≤ pc ∧ pc < 0) := by
  refine ⟨ofBytes_idle _ _, handler_idle (by decide) (by decide) rfl, fun hall => ?_⟩
  have hoffset := getElem?_offsets_idle (show 7 < 4294967296 by decide)
  exact absurd ((hall 7 _ hoffset).1 rfl).2 (Nat.not_lt_zero _)

end DecodedCode

end Bytecheck
