import Mathlib.Data.List.GetD
import Mathlib.Tactic.Common
import Bytecheck.Proofs.CodeFaults
import Bytecheck.Proofs.Labels

/-!
Decoded code as a tiling of the code array.

A reader sees the bytes it takes and no others. So the bytes of an instruction make a tile that is
read in the same way whatever stands behind it, and decoding succeeds exactly when tiles cover the
code array from its start to its end. The labels then are indices of tiles, and each one leads to
the byte that its branch was read to go to.
-/

namespace Bytecheck

namespace Decode

namespace Reader

variable {ε α : Type} {short : ε} {r : Reader ε α} {bytes rest : List UInt8} {a : α}

lemma run_append (h : r.run short bytes = .ok (a, rest)) (behind : List UInt8) :
    r.run short (bytes ++ behind) = .ok (a, rest ++ behind) := by
  induction r generalizing bytes with
  | done b =>
    cases h
    rfl
  | fail e => cases h
  | byte next ih =>
    cases bytes with
    | nil => cases h
    | cons b bytes => exact ih b h

/-- What a reader returns depends on the bytes it takes only. -/
lemma run_ok_iff :
    r.run short bytes = .ok (a, rest) ↔
      ∃ used, bytes = used ++ rest ∧ r.run short used = .ok (a, []) := by
  constructor
  · intro h
    induction r generalizing bytes with
    | done b =>
      cases h
      exact ⟨[], rfl, rfl⟩
    | fail e => cases h
    | byte next ih =>
      cases bytes with
      | nil => cases h
      | cons b bytes =>
        obtain ⟨used, rfl, hused⟩ := ih b h
        exact ⟨b :: used, rfl, hused⟩
  · rintro ⟨used, rfl, hused⟩
    exact run_append hused rest

/-- Whatever the reader returns has the property. -/
def All (P : α → Prop) : Reader ε α → Prop
  | .done a => P a
  | .fail _ => True
  | .byte next => ∀ b, (next b).All P

lemma All.run {P : α → Prop} (hr : r.All P) (h : r.run short bytes = .ok (a, rest)) : P a := by
  induction r generalizing bytes with
  | done b =>
    cases h
    exact hr
  | fail e => cases h
  | byte next ih =>
    cases bytes with
    | nil => cases h
    | cons b bytes => exact ih b (hr b) h

@[simp] lemma all_pure {P : α → Prop} : (pure a : Reader ε α).All P ↔ P a := Iff.rfl

@[simp] lemma all_fail {P : α → Prop} (e : ε) : (.fail e : Reader ε α).All P := trivial

lemma all_of_forall {P : α → Prop} (hP : ∀ a, P a) : r.All P := by
  induction r with
  | done a => exact hP a
  | fail e => trivial
  | byte next ih => exact ih

@[simp] lemma all_true (r : Reader ε α) : r.All fun _ => True := all_of_forall fun _ => trivial

@[simp] lemma all_ite {P : α → Prop} {p : Prop} [Decidable p] {r' : Reader ε α} :
    (if p then r else r').All P ↔ (p → r.All P) ∧ (¬ p → r'.All P) := by
  split
  · rename_i hp
    simp [hp]
  · rename_i hp
    simp [hp]

@[simp] lemma all_bind {β : Type} {P : β → Prop} {f : α → Reader ε β} :
    (r >>= f).All P ↔ r.All fun a => (f a).All P := by
  induction r with
  | done a => exact Iff.rfl
  | fail e => exact Iff.rfl
  | byte next ih => exact forall_congr' ih

end Reader

/-! ### Tiles -/

variable {pool : ConstantPool} {offset : ℕ} {bytes : List UInt8} {l : List (ℕ × Relative)}

lemma word_of_lt {n : ℕ} (h : n < 4294967296) : word n = n := Nat.mod_eq_of_lt h

/-- Tiles cover the bytes from an offset on: each one is read as an instruction, and the next one
starts where it ends. -/
inductive Tiled (pool : ConstantPool) : ℕ → List UInt8 → List (ℕ × Relative) → Prop
  | nil (offset : ℕ) : Tiled pool offset [] []
  | cons {offset : ℕ} {opcode : UInt8} {operands rest : List UInt8} {i : Relative}
      {l : List (ℕ × Relative)} :
      instruction pool offset opcode.toNat operands = .ok (i, []) →
      Tiled pool (offset + (operands.length + 1)) rest l →
      Tiled pool offset (opcode :: (operands ++ rest)) ((offset, i) :: l)

lemma instructions_cons (pool : ConstantPool) (offset : ℕ) (opcode : UInt8) (bytes : List UInt8) :
    instructions pool offset (opcode :: bytes) =
      (instruction pool offset opcode.toNat bytes).mapError (OpcodeFault.at (word offset)) >>=
        fun p => (instructions pool (offset + (bytes.length - p.2.length + 1)) p.2).map
          ((offset, p.1) :: ·) := by
  rw [instructions]
  split
  · rename_i f hf
    rw [hf]
    rfl
  · rename_i i rest hi
    dsimp only
    conv_rhs => rw [hi]
    rfl

/-- Where the bytes behind a first tile end. -/
lemma Tiled.end_eq (offset : ℕ) (opcode : UInt8) (operands rest : List UInt8) :
    offset + (opcode :: (operands ++ rest)).length =
      offset + (operands.length + 1) + rest.length := by
  simp only [List.length_cons, List.length_append]
  omega

/-- Tiles in front are read first. -/
lemma Tiled.instructions_append (h : Tiled pool offset bytes l) (behind : List UInt8) :
    instructions pool offset (bytes ++ behind) =
      (instructions pool (offset + bytes.length) behind).map (l ++ ·) := by
  induction h with
  | nil offset =>
    rw [List.nil_append, List.length_nil, Nat.add_zero]
    cases instructions pool offset behind <;> rfl
  | @cons offset opcode operands rest i l hi _ ih =>
    have hread : instruction pool offset opcode.toNat (operands ++ (rest ++ behind)) =
        .ok (i, rest ++ behind) := Reader.run_append hi _
    have hsize : (operands ++ (rest ++ behind)).length - (rest ++ behind).length + 1 =
        operands.length + 1 := by simp
    rw [List.cons_append, List.append_assoc, instructions_cons, hread]
    change (instructions pool (offset + _) (rest ++ behind)).map _ = _
    rw [hsize, ih, Tiled.end_eq]
    cases instructions pool (offset + (operands.length + 1) + rest.length) behind <;> rfl

/-- The instructions of some bytes are read if and only if they are tiles of them. -/
lemma instructions_ok_iff : instructions pool offset bytes = .ok l ↔ Tiled pool offset bytes l := by
  constructor
  · intro h
    fun_induction instructions pool offset bytes generalizing l with
    | case1 offset =>
      cases h
      exact .nil offset
    | case2 => cases h
    | case3 offset opcode bytes i rest hi _ size =>
      rename_i ih
      obtain ⟨l, hl, rfl⟩ := map_ok_iff.1 h
      obtain ⟨operands, rfl, hoperands⟩ := Reader.run_ok_iff.1 hi
      have hsize : size = operands.length + 1 := by simp [size]
      exact .cons hoperands (hsize ▸ ih hl)
  · intro h
    have hread := h.instructions_append []
    rw [List.append_nil, instructions] at hread
    rw [hread]
    exact congrArg Except.ok (List.append_nil l)

namespace Tiled

lemma bounds (h : Tiled pool offset bytes l) :
    ∀ p ∈ l, offset ≤ p.1 ∧ p.1 < offset + bytes.length := by
  induction h with
  | nil => simp
  | cons _ _ ih =>
    simp only [List.mem_cons, forall_eq_or_imp, List.length_cons, List.length_append]
    refine ⟨⟨Nat.le_refl _, by omega⟩, fun p hp => ?_⟩
    have := ih p hp
    omega

lemma ascending (h : Tiled pool offset bytes l) : (l.map Prod.fst).Pairwise (· < ·) := by
  induction h with
  | nil => simp
  | cons _ hl ih =>
    rw [List.map_cons, List.pairwise_cons]
    refine ⟨fun o ho => ?_, ih⟩
    obtain ⟨p, hp, rfl⟩ := List.mem_map.1 ho
    have := hl.bounds p hp
    omega

/-- Offsets are kept as they are where they fit. -/
lemma kept_eq (h : Tiled pool offset bytes l) (hb : offset + bytes.length ≤ 4294967296) :
    kept l = l := by
  refine (List.map_congr_left fun p hp => ?_).trans (List.map_id l)
  have := h.bounds p hp
  rw [word_of_lt (by omega), id]

lemma head? (h : Tiled pool offset bytes l) :
    (l.map Prod.fst).head? = if bytes = [] then none else some offset := by
  cases h <;> simp

/-- Tiles are cut where the bytes are. -/
lemma append_iff {l₁ l₂ : List (ℕ × Relative)} :
    Tiled pool offset bytes (l₁ ++ l₂) ↔ ∃ b₁ b₂, bytes = b₁ ++ b₂ ∧ Tiled pool offset b₁ l₁ ∧
      Tiled pool (offset + b₁.length) b₂ l₂ := by
  constructor
  · intro h
    induction l₁ generalizing offset bytes with
    | nil => exact ⟨[], bytes, rfl, .nil offset, h⟩
    | cons p l₁ ih =>
      rw [List.cons_append] at h
      cases h with
      | @cons _ opcode operands rest i _ hi hl =>
        obtain ⟨b₁, b₂, rfl, h₁, h₂⟩ := ih hl
        refine ⟨opcode :: (operands ++ b₁), b₂, by simp, .cons hi h₁, ?_⟩
        rw [end_eq]
        exact h₂
  · rintro ⟨b₁, b₂, rfl, h₁, h₂⟩
    induction h₁ with
    | nil => exact h₂
    | @cons offset opcode operands rest i l hi _ ih =>
      rw [end_eq] at h₂
      rw [List.cons_append, List.append_assoc]
      exact .cons hi (ih h₂)

/-- The tile at a place: where it starts behind the tiles in front of it, how it is read, and that
the next one starts where it ends. -/
lemma exists_tile (h : Tiled pool 0 bytes l) {k p : ℕ} {i : Relative} (hk : l[k]? = some (p, i)) :
    ∃ before opcode operands behind, bytes = before ++ opcode :: (operands ++ behind) ∧
      before.length = p ∧ Tiled pool 0 before (l.take k) ∧
      instruction pool p opcode.toNat operands = .ok (i, []) ∧
      ((l.map Prod.fst)[k + 1]?).getD bytes.length = p + (operands.length + 1) := by
  obtain ⟨hlt, heq⟩ := List.getElem?_eq_some_iff.1 hk
  rw [← List.take_append_drop k l, List.drop_eq_getElem_cons hlt, heq] at h
  obtain ⟨before, rest, rfl, hbefore, hrest⟩ := append_iff.1 h
  rw [Nat.zero_add] at hrest
  cases hrest with
  | @cons _ opcode operands behind _ _ hi hbehind =>
    refine ⟨before, opcode, operands, behind, rfl, rfl, hbefore, hi, ?_⟩
    have hnext : (l.map Prod.fst)[k + 1]? = ((l.drop (k + 1)).map Prod.fst).head? := by simp
    rw [hnext, hbehind.head?]
    by_cases hb : behind = []
    · rw [if_pos hb, hb]
      simp
    · rw [if_neg hb]
      rfl

end Tiled

end Decode

/-! ### Decoded code -/

namespace DecodedCode

open Decode

variable {pool : ConstantPool} {bytes : List UInt8} {d : DecodedCode}

/-- The instructions as they were read: each with its offset, and with distances for labels. -/
def raw (d : DecodedCode) : List (ℕ × Relative) :=
  (d.offsets.zip d.instructions).map fun p => (p.1, p.2.map (distance d.offsets p.1))

lemma map_fst_raw (h : d.instructions.length = d.offsets.length) :
    d.raw.map Prod.fst = d.offsets := by
  rw [raw, List.map_map]
  exact List.map_fst_zip (Nat.le_of_eq h.symm)

lemma getElem?_raw {k p : ℕ} {i : Instruction ℕ} (hp : d.offsets[k]? = some p)
    (hi : d.instructions[k]? = some i) : d.raw[k]? = some (p, i.map (distance d.offsets p)) := by
  simp [raw, List.getElem?_zip_eq_some, hp, hi]

/-- Instructions that relabelling gives, in terms of what it was given. -/
lemma forall₂_relabel_iff {offsets : List ℕ} {read : List (ℕ × Relative)}
    {is : List (Instruction ℕ)} :
    List.Forall₂ (fun p i => relabel offsets p.1 p.2 = .ok i) read is ↔
      is.length = read.length ∧ (∀ i ∈ is, ∀ t ∈ i.targets, Found offsets t) ∧
        ((read.map Prod.fst).zip is).map (fun p => (p.1, p.2.map (distance offsets p.1))) = read := by
  induction read generalizing is with
  | nil => cases is <;> simp
  | cons p read ih =>
    obtain ⟨offset, r⟩ := p
    cases is with
    | nil => simp
    | cons i is =>
      rw [List.forall₂_cons, ih, relabel_undoneBy offsets offset r i]
      simp only [List.length_cons, Nat.add_right_cancel_iff, List.mem_cons, forall_eq_or_imp,
        List.map_cons, List.zip_cons_cons, List.cons.injEq, Prod.mk.injEq, true_and]
      tauto

/-- Decoding succeeds with a result if and only if there are tiles of the code array that are kept
as the instructions of the result, before they were relabelled, and every label is found. -/
lemma ofBytes_ok_iff_kept :
    ofBytes pool bytes = .ok d ↔ d.length = word bytes.length ∧
      d.instructions.length = d.offsets.length ∧
      (∀ i ∈ d.instructions, ∀ t ∈ i.targets, Found d.offsets t) ∧
      ∃ read, Tiled pool 0 bytes read ∧ d.raw = kept read := by
  constructor
  · intro h
    obtain ⟨_, hkept, h⟩ := bind_ok_iff.1 h
    obtain ⟨read, hread, rfl⟩ := map_ok_iff.1 hkept
    obtain ⟨is, his, h⟩ := bind_ok_iff.1 h
    cases h
    obtain ⟨hlen, hlabels, hraw⟩ := forall₂_relabel_iff.1 (mapM_ok_iff.1 his)
    exact ⟨rfl, by simpa using hlen, hlabels, read, instructions_ok_iff.1 hread, hraw⟩
  · rintro ⟨hlength, hlen, hlabels, read, htiled, hraw⟩
    have hoffsets := map_fst_raw hlen
    have hrelabel : List.Forall₂ (fun p i => relabel d.offsets p.1 p.2 = .ok i) d.raw
        d.instructions := by
      rw [forall₂_relabel_iff, hoffsets]
      exact ⟨by simp [raw, hlen], hlabels, rfl⟩
    rw [hraw] at hoffsets hrelabel
    refine bind_ok_iff.2 ⟨kept read, map_ok_iff.2 ⟨read, instructions_ok_iff.2 htiled, rfl⟩, ?_⟩
    dsimp only
    rw [hoffsets]
    refine bind_ok_iff.2 ⟨d.instructions, mapM_ok_iff.2 hrelabel, ?_⟩
    rw [← hlength]
    rfl

/-- The offsets of code arrays that they fit ascend. -/
lemma ascending_offsets (hb : bytes.length ≤ 4294967296) (h : ofBytes pool bytes = .ok d) :
    d.offsets.Pairwise (· < ·) := by
  obtain ⟨-, hlen, -, read, htiled, hraw⟩ := ofBytes_ok_iff_kept.1 h
  rw [← map_fst_raw hlen, hraw, htiled.kept_eq (by omega)]
  exact htiled.ascending

/-- The bytes that an instruction was read from. -/
lemma exists_tile_of_ofBytes (h : ofBytes pool bytes = .ok d) {k p : ℕ} {i : Instruction ℕ}
    (hp : d.offsets[k]? = some p) (hi : d.instructions[k]? = some i) :
    ∃ before opcode operands behind, bytes = before ++ opcode :: (operands ++ behind) ∧
      word before.length = p ∧
      instruction pool before.length opcode.toNat operands =
        .ok (i.map (distance d.offsets p), []) := by
  obtain ⟨-, -, -, read, htiled, hraw⟩ := ofBytes_ok_iff_kept.1 h
  have hk := getElem?_raw hp hi
  rw [hraw, kept, List.getElem?_map, Option.map_eq_some_iff] at hk
  obtain ⟨⟨q, r⟩, hk, heq⟩ := hk
  obtain ⟨hq, rfl⟩ := Prod.mk.inj heq
  obtain ⟨before, opcode, operands, behind, hbytes, rfl, -, hread, -⟩ := htiled.exists_tile hk
  exact ⟨before, opcode, operands, behind, hbytes, hq, hread⟩

/-- Decoding a code array whose offsets fit: it is tiled by the instructions of the result, before
they were relabelled, and every label is an index of one. -/
lemma ofBytes_ok_iff (hb : bytes.length < 4294967296) :
    ofBytes pool bytes = .ok d ↔ d.length = bytes.length ∧
      d.instructions.length = d.offsets.length ∧
      (∀ i ∈ d.instructions, ∀ t ∈ i.targets, t < d.offsets.length) ∧ Tiled pool 0 bytes d.raw := by
  rw [ofBytes_ok_iff_kept, word_of_lt hb]
  refine and_congr_right fun _ => and_congr_right fun hlen => ?_
  constructor
  · rintro ⟨hlabels, read, htiled, hraw⟩
    rw [htiled.kept_eq (by omega)] at hraw
    exact ⟨fun i hi t ht => (hlabels i hi t ht).lt_length, hraw ▸ htiled⟩
  · rintro ⟨hlabels, htiled⟩
    have ha : d.offsets.Pairwise (· < ·) := map_fst_raw hlen ▸ htiled.ascending
    refine ⟨fun i hi t ht => (found_iff ha).2 (hlabels i hi t ht), d.raw, htiled, ?_⟩
    exact (htiled.kept_eq (by omega)).symm

/-- Where an instruction ends: where the next one starts, or at the end of the code array. -/
def stop (d : DecodedCode) (k : ℕ) : ℕ := (d.offsets[k + 1]?).getD d.length

/-- The instructions tile the code array. Their labels are the indices of instructions: read again
at its offset, an instruction has for each label the distance to the instruction that the label
stands for. -/
structure Tiles (pool : ConstantPool) (bytes : List UInt8) (d : DecodedCode) : Prop where
  length_eq : d.length = bytes.length
  paired : d.instructions.length = d.offsets.length
  ascending : d.offsets.Pairwise (· < ·)
  start : d.offsets.head? = if bytes = [] then none else some 0
  within : ∀ p ∈ d.offsets, p < d.length
  tile : ∀ k p i, d.offsets[k]? = some p → d.instructions[k]? = some i →
    ∃ opcode operands, bytes.drop p = opcode :: operands ∧
      instruction pool p opcode.toNat operands =
        .ok (i.map (distance d.offsets p), bytes.drop (d.stop k))
  label : ∀ i ∈ d.instructions, ∀ t ∈ i.targets, t < d.instructions.length

lemma tiles_of_ofBytes (hb : bytes.length < 4294967296) (h : ofBytes pool bytes = .ok d) :
    d.Tiles pool bytes := by
  obtain ⟨hlength, hlen, hlabels, htiled⟩ := (ofBytes_ok_iff hb).1 h
  have hoffsets := map_fst_raw hlen
  refine ⟨hlength, hlen, hoffsets ▸ htiled.ascending, hoffsets ▸ htiled.head?, ?_, ?_,
    hlen ▸ hlabels⟩
  · intro p hp
    rw [← hoffsets] at hp
    obtain ⟨q, hq, rfl⟩ := List.mem_map.1 hp
    have := htiled.bounds q hq
    omega
  · intro k p i hp hi
    obtain ⟨before, opcode, operands, behind, rfl, rfl, -, hread, hstop⟩ :=
      htiled.exists_tile (getElem?_raw hp hi)
    rw [hoffsets, ← hlength] at hstop
    have hdrop : (before ++ opcode :: (operands ++ behind)).drop (d.stop k) = behind := by
      rw [stop, hstop]
      simp
    refine ⟨opcode, operands ++ behind, by simp, ?_⟩
    rw [hdrop]
    exact Reader.run_append hread behind

lemma Tiles.stop_bounds (h : d.Tiles pool bytes) {k p : ℕ} (hp : d.offsets[k]? = some p) :
    p < d.stop k ∧ d.stop k ≤ d.length := by
  have hmem : ∀ {k q}, d.offsets[k]? = some q → q < d.length :=
    fun hq => h.within _ (List.mem_of_getElem? hq)
  unfold stop
  cases hq : d.offsets[k + 1]? with
  | none => exact ⟨hmem hp, Nat.le_refl _⟩
  | some q =>
    obtain ⟨hk, rfl⟩ := List.getElem?_eq_some_iff.1 hp
    obtain ⟨hk', rfl⟩ := List.getElem?_eq_some_iff.1 hq
    exact ⟨List.pairwise_iff_getElem.1 h.ascending k (k + 1) hk hk' (by omega),
      Nat.le_of_lt (hmem hq)⟩

/-- From every place on, the instructions tile the rest of the code array. -/
lemma Tiles.tiled_drop (h : d.Tiles pool bytes) {k n : ℕ} (hk : k + n = d.offsets.length) :
    Tiled pool ((d.offsets[k]?).getD d.length) (bytes.drop ((d.offsets[k]?).getD d.length))
      (d.raw.drop k) := by
  induction n generalizing k with
  | zero =>
    have hend : (d.offsets[k]?).getD d.length = d.length := by
      rw [List.getElem?_eq_none (by omega)]
      rfl
    have hraw : d.raw.drop k = [] := List.drop_eq_nil_of_le (by simp [raw]; omega)
    rw [hend, hraw, h.length_eq, List.drop_length]
    exact .nil _
  | succ n ih =>
    have hrest : Tiled pool (d.stop k) (bytes.drop (d.stop k)) (d.raw.drop (k + 1)) := ih (by omega)
    obtain ⟨p, hp⟩ : ∃ p, d.offsets[k]? = some p := ⟨_, List.getElem?_eq_getElem (by omega)⟩
    obtain ⟨i, hi⟩ : ∃ i, d.instructions[k]? = some i :=
      ⟨_, List.getElem?_eq_getElem (by rw [h.paired]; omega)⟩
    obtain ⟨opcode, operands, hdrop, hread⟩ := h.tile k p i hp hi
    obtain ⟨used, rfl, hused⟩ := Reader.run_ok_iff.1 hread
    obtain ⟨hlt, heq⟩ := List.getElem?_eq_some_iff.1 (getElem?_raw hp hi)
    -- the bytes taken reach up to the next instruction
    have hnext : p + (used.length + 1) = d.stop k := by
      have hlen := congrArg List.length hdrop
      have hstop := h.stop_bounds hp
      have hlength := h.length_eq
      simp only [List.length_drop, List.length_cons, List.length_append] at hlen
      omega
    rw [hp, Option.getD_some, hdrop, List.drop_eq_getElem_cons hlt, heq]
    refine .cons hused ?_
    rw [hnext]
    exact hrest

/-- **Decoding is tiling**: a code array decodes to a result if and only if the result tiles it. -/
lemma ofBytes_ok_iff_tiles (hb : bytes.length < 4294967296) :
    ofBytes pool bytes = .ok d ↔ d.Tiles pool bytes := by
  refine ⟨tiles_of_ofBytes hb, fun h => ?_⟩
  have htiled := h.tiled_drop (k := 0) (Nat.zero_add _)
  have hstart : (d.offsets[0]?).getD d.length = 0 := by
    rw [← List.head?_eq_getElem?, h.start, h.length_eq]
    by_cases hb : bytes = [] <;> simp [hb]
  rw [hstart, List.drop_zero, List.drop_zero] at htiled
  exact (ofBytes_ok_iff hb).2 ⟨h.length_eq, h.paired, h.paired ▸ h.label, htiled⟩

end DecodedCode

/-! ### Jump targets of decoded code -/

/-- A jump target that is reported is out of range. -/
lemma Flow.exists_of_invalidJumpTarget {c : Code} {index target : ℕ}
    (h : firstFault c = some (.invalidJumpTarget index target)) :
    ∃ i ∈ c.instructions, target ∈ i.targets ∧ c.size ≤ target := by
  cases breaks_of_firstFault h with
  | invalidJumpTarget hi ht hout => exact ⟨_, List.mem_of_getElem? hi, ht, hout⟩

namespace DecodedCode

open Decode

variable {pool : ConstantPool} {bytes : List UInt8} {d : DecodedCode}

lemma instructions_toCode {maxStack maxLocals : ℕ} {table : List RawHandler} {c : Code}
    (h : d.toCode pool maxStack maxLocals table = .ok c) : c.instructions = d.instructions := by
  obtain ⟨handlers, -, h⟩ := bind_ok_iff.1 h
  cases h
  rfl

/-- **Decoding tiles the code array**: a code array whose offsets fit decodes to a result if and
only if the instructions of the result tile it, with labels that are indices of instructions. The
index found at an offset is the place of the offset, and no flow graph of the result has a jump
target out of range. -/
theorem ofBytes_tiles_and_resolves (hb : bytes.length < 4294967296) :
    (ofBytes pool bytes = .ok d ↔ d.Tiles pool bytes) ∧
      (ofBytes pool bytes = .ok d →
        (∀ offset k, d.indexOf? offset = some k ↔ d.offsets[k]? = some offset) ∧
          ∀ (constants : ConstantPool) (maxStack maxLocals : ℕ) (table : List RawHandler) (c : Code),
            d.toCode constants maxStack maxLocals table = .ok c →
            ∀ index target, FlowGraph.build c ≠ .error (.invalidJumpTarget index target)) := by
  refine ⟨ofBytes_ok_iff_tiles hb, fun h => ⟨fun offset k => ?_, ?_⟩⟩
  · exact Decode.indexOf?_eq_some_iff (tiles_of_ofBytes hb h).ascending
  · intro constants maxStack maxLocals table c hc index target hbuild
    obtain ⟨i, hi, ht, hsize⟩ := Flow.exists_of_invalidJumpTarget (FlowGraph.build_error_iff.1 hbuild)
    rw [Code.size, instructions_toCode hc] at hsize
    rw [instructions_toCode hc] at hi
    have := (tiles_of_ofBytes hb h).label i hi target ht
    omega

/-- A switch in a loop: a number picks the way back to the start, or the way out. -/
def loopBytes : List UInt8 :=
  [0x1a, 0xaa, 0, 0, 0, 0, 0, 22, 0, 0, 0, 0, 0, 0, 0, 0, 0, 0, 0, 19, 0xa7, 0xff, 0xec, 0xb1]

def loopCode : DecodedCode where
  instructions := [.op (.load (.num .int) 0), .branch (.tableSwitch 3 0 [2]), .branch (.goto 0),
    .branch (.leave none)]
  offsets := [0, 1, 20, 23]
  length := 24

lemma ofBytes_loop : ofBytes ConstantTable.empty.pool loopBytes = .ok loopCode := by decide +kernel

/-- The loop decodes: its switch is padded, and its branches go forward and back. -/
theorem ofBytes_tiles_and_resolves_loop :
    loopBytes.length < 4294967296 ∧ ofBytes ConstantTable.empty.pool loopBytes = .ok loopCode ∧
      loopCode.Tiles ConstantTable.empty.pool loopBytes ∧
      (∀ offset k, loopCode.indexOf? offset = some k ↔ loopCode.offsets[k]? = some offset) ∧
      loopCode.toCode ConstantTable.empty.pool 1 1 [] = .ok ⟨loopCode.instructions, 1, 1, []⟩ ∧
      ∀ index target, FlowGraph.build ⟨loopCode.instructions, 1, 1, []⟩ ≠
        .error (.invalidJumpTarget index target) := by
  obtain ⟨htiles, hrest⟩ := @ofBytes_tiles_and_resolves ConstantTable.empty.pool loopBytes loopCode
    (by decide)
  obtain ⟨hindex, hbuild⟩ := hrest ofBytes_loop
  have hcode : loopCode.toCode ConstantTable.empty.pool 1 1 [] =
      .ok ⟨loopCode.instructions, 1, 1, []⟩ := rfl
  exact ⟨by decide, ofBytes_loop, htiles.1 ofBytes_loop, hindex, hcode, hbuild _ 1 1 [] _ hcode⟩

/-! ### Long code arrays

Where offsets do not fit, they start again at zero. Code arrays that do nothing show what this
leads to. -/

/-- Code that does nothing, some number of times. -/
def idleCode (n : ℕ) : DecodedCode where
  instructions := List.replicate n (.op .nop)
  offsets := (List.range n).map word
  length := word n

lemma tiled_idle (pool : ConstantPool) (offset n : ℕ) :
    Tiled pool offset (List.replicate n 0)
      ((List.range' offset n).map fun p => (p, .op .nop)) := by
  induction n generalizing offset with
  | zero => exact .nil offset
  | succ n ih =>
    have hread : instruction pool offset (0 : UInt8).toNat [] = .ok (.op .nop, []) := rfl
    exact .cons hread (ih (offset + 1))

lemma ofBytes_idle (pool : ConstantPool) (n : ℕ) :
    ofBytes pool (List.replicate n 0) = .ok (idleCode n) := by
  refine ofBytes_ok_iff_kept.2 ⟨?_, by simp [idleCode], ?_, _, tiled_idle pool 0 n, ?_⟩
  · rw [List.length_replicate]
    rfl
  · intro i hi
    rw [List.eq_of_mem_replicate hi]
    simp [Instruction.targets]
  · refine List.ext_getElem (by simp [raw, idleCode, kept]) fun k _ _ => ?_
    simp [raw, idleCode, kept, Instruction.map]

lemma getElem?_offsets_idle {n k : ℕ} (hk : k < n) : (idleCode n).offsets[k]? = some (word k) := by
  simp [idleCode, hk]

/-- The search turns to the first half at once. There all offsets are as they should be, even when
there is one too many of them. -/
lemma indexOf?_idle {n k : ℕ} (hn : n ≤ 4294967297) (hk : k < n / 2) :
    (idleCode n).indexOf? k = some k := by
  have hoffset : ∀ j ≤ n / 2, (idleCode n).offsets.getD j 0 = j := by
    intro j hj
    rw [List.getD_eq_getElem?_getD, getElem?_offsets_idle (by omega), word_of_lt (by omega),
      Option.getD_some]
  have hrest : search (idleCode n).offsets k 0 n = k := by
    rw [search, if_neg (by omega), Nat.zero_add, if_pos (by rw [hoffset _ (Nat.le_refl _)]; exact hk)]
    refine search_eq (by omega) fun j _ hj => ?_
    rw [hoffset j (by omega)]
  have hlen : (idleCode n).offsets.length = n := by simp [idleCode]
  have hfound := getElem?_offsets_idle (show k < n by omega)
  rw [word_of_lt (by omega)] at hfound
  rw [DecodedCode.indexOf?, Decode.indexOf?, hlen, hrest, if_pos hfound]

end DecodedCode

end Bytecheck
