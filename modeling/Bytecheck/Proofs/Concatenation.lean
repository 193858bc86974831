import Mathlib.Data.List.GetD
import Mathlib.Tactic.Common
import Bytecheck.Proofs.Tiling

/-!
Code arrays put together.

A tile is read in the same way at every offset, but for the padding of switches, which depends on
the offset modulo four. So tiles stay tiles when they are moved by a multiple of four, and two code
arrays of which the first has such a length decode side by side. The distances of branches are the
same; only the indices that they lead to move, by the number of instructions in front.
-/

namespace Bytecheck

namespace Decode

variable {pool : ConstantPool} {offset m : ℕ} {bytes : List UInt8} {l : List (ℕ × Relative)}

/-- An instruction is read at an offset as it is at one that is a multiple of four further on. -/
lemma instruction_add (hm : 4 ∣ m) (pool : ConstantPool) (offset : ℕ) :
    instruction pool (offset + m) = instruction pool offset := by
  have hpadding : padding (offset + m) = padding offset := by
    unfold padding
    omega
  funext opcode bytes
  rw [instruction, hpadding, instruction]

/-- Tiles that are moved. -/
lemma Tiled.add (hm : 4 ∣ m) (h : Tiled pool offset bytes l) :
    Tiled pool (offset + m) bytes (l.map fun p => (p.1 + m, p.2)) := by
  induction h with
  | nil offset => exact .nil _
  | @cons offset opcode operands rest i l hi _ ih =>
    refine .cons (by rwa [instruction_add hm]) ?_
    rw [Nat.add_right_comm]
    exact ih

lemma distance_append_left {offsets more : List ℕ} {index : ℕ} (h : index < offsets.length) :
    distance (offsets ++ more) offset index = distance offsets offset index := by
  rw [distance, List.getD_append _ _ _ _ h, distance]

lemma distance_append_right {front offsets : List ℕ} {index : ℕ} (h : index < offsets.length) :
    distance (front ++ offsets.map (· + m)) (offset + m) (index + front.length) =
      distance offsets offset index := by
  rw [distance, List.getD_append_right _ _ _ _ (Nat.le_add_left _ _), Nat.add_sub_cancel, distance,
    List.getD_eq_getElem _ _ h, List.getD_eq_getElem _ _ (by simpa using h), List.getElem_map]
  omega

end Decode

namespace DecodedCode

open Decode

variable {pool : ConstantPool} {d₁ d₂ : DecodedCode} {c₁ c₂ : List UInt8}

/-- Decoded code behind decoded code: its labels move by the number of instructions in front, its
offsets by the number of bytes. -/
def append (d₁ d₂ : DecodedCode) : DecodedCode where
  instructions := d₁.instructions ++
    d₂.instructions.map (Instruction.map (· + d₁.instructions.length))
  offsets := d₁.offsets ++ d₂.offsets.map (· + d₁.length)
  length := d₁.length + d₂.length

instance : Append DecodedCode := ⟨append⟩

lemma instructions_append (d₁ d₂ : DecodedCode) : (d₁ ++ d₂).instructions = d₁.instructions ++
    d₂.instructions.map (Instruction.map (· + d₁.instructions.length)) := rfl

lemma offsets_append (d₁ d₂ : DecodedCode) :
    (d₁ ++ d₂).offsets = d₁.offsets ++ d₂.offsets.map (· + d₁.length) := rfl

section

variable (h₁ : d₁.instructions.length = d₁.offsets.length)
  (hl₁ : ∀ i ∈ d₁.instructions, ∀ t ∈ i.targets, t < d₁.offsets.length)
  (hl₂ : ∀ i ∈ d₂.instructions, ∀ t ∈ i.targets, t < d₂.offsets.length)

include h₁ hl₁ hl₂

/-- Labels of decoded code side by side are indices of instructions. -/
lemma label_append {i : Instruction ℕ} (hi : i ∈ (d₁ ++ d₂).instructions) :
    ∀ t ∈ i.targets, t < (d₁ ++ d₂).offsets.length := by
  have hlen : (d₁ ++ d₂).offsets.length = d₁.offsets.length + d₂.offsets.length := by
    simp [offsets_append]
  intro t ht
  rcases List.mem_append.1 hi with hi | hi
  · have := hl₁ i hi t ht
    omega
  · obtain ⟨j, hj, rfl⟩ := List.mem_map.1 hi
    rw [Instruction.targets_map] at ht
    obtain ⟨u, hu, rfl⟩ := List.mem_map.1 ht
    have := hl₂ j hj u hu
    omega

/-- Side by side, instructions are read as they are apart. -/
lemma raw_append :
    (d₁ ++ d₂).raw = d₁.raw ++ d₂.raw.map fun p => (p.1 + d₁.length, p.2) := by
  unfold raw
  rw [offsets_append, instructions_append, List.zip_append h₁.symm, List.map_append]
  congr 1
  · refine List.map_congr_left fun p hp => ?_
    have hi := (List.of_mem_zip hp).2
    exact congrArg (Prod.mk p.1)
      (Instruction.map_congr fun t ht => distance_append_left (hl₁ p.2 hi t ht))
  · rw [List.zip_map, List.map_map, List.map_map]
    refine List.map_congr_left fun p hp => ?_
    have hi := (List.of_mem_zip hp).2
    refine congrArg (Prod.mk (p.1 + d₁.length)) ?_
    rw [Prod.map_snd, Instruction.map_map]
    refine Instruction.map_congr fun t ht => ?_
    rw [h₁]
    exact distance_append_right (hl₂ p.2 hi t ht)

end

/-- **Decoding is a homomorphism**: code arrays put together decode to their decodings put together,
if the first one keeps the alignment of the second and the offsets of both fit. -/
theorem ofBytes_append (h : 4 ∣ c₁.length) (hb : c₁.length + c₂.length < 4294967296)
    (h₁ : ofBytes pool c₁ = .ok d₁) (h₂ : ofBytes pool c₂ = .ok d₂) :
    ofBytes pool (c₁ ++ c₂) = .ok (d₁ ++ d₂) := by
  obtain ⟨hlength₁, hlen₁, hlabels₁, htiled₁⟩ := (ofBytes_ok_iff (by omega)).1 h₁
  obtain ⟨hlength₂, hlen₂, hlabels₂, htiled₂⟩ := (ofBytes_ok_iff (by omega)).1 h₂
  have hb : (c₁ ++ c₂).length < 4294967296 := by rwa [List.length_append]
  refine (ofBytes_ok_iff hb).2 ⟨?_, ?_, fun i => label_append hlen₁ hlabels₁ hlabels₂, ?_⟩
  · rw [List.length_append, ← hlength₁, ← hlength₂]
    rfl
  · simp [instructions_append, offsets_append, hlen₁, hlen₂]
  · rw [raw_append hlen₁ hlabels₁ hlabels₂, hlength₁]
    exact Tiled.append_iff.2 ⟨c₁, c₂, rfl, htiled₁, htiled₂.add h⟩

/-- The loop, twice: the second copy is padded as the first one is, and its branches stay in it. -/
theorem ofBytes_append_loop : 4 ∣ loopBytes.length ∧
    loopBytes.length + loopBytes.length < 4294967296 ∧
    ofBytes ConstantTable.empty.pool loopBytes = .ok loopCode ∧
    ofBytes ConstantTable.empty.pool (loopBytes ++ loopBytes) = .ok (loopCode ++ loopCode) :=
  have hlength : 4 ∣ loopBytes.length := by decide
  have hfits : loopBytes.length + loopBytes.length < 4294967296 := by decide
  ⟨hlength, hfits, ofBytes_loop, ofBytes_append hlength hfits ofBytes_loop ofBytes_loop⟩

end DecodedCode

end Bytecheck
