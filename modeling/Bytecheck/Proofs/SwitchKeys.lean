import Mathlib.Data.Int.Notation
import Mathlib.Tactic.Common
import Bytecheck.Proofs.Tiling

/-!
Keys of lookup switches.

The cases of a lookup switch are read one after another, each a key and a distance. Reading four
bytes as a number is undone by writing the number, so the operands of a switch can be told from the
cases it is read as: they are the cases, written in their order. Nothing compares the keys. So they
ascend where they do in the code array, and every list of keys is decoded from some code array.
-/

namespace Bytecheck

namespace Decode

/-- The numbers that four bytes can hold. -/
def IsWord (w : ℤ) : Prop := -2147483648 ≤ w ∧ w < 2147483648

/-- A number in four bytes as a two's complement, the most significant byte first. -/
def wordBytes (w : ℤ) : List UInt8 :=
  let n := (w % 4294967296).toNat
  [.ofNat (n / 16777216), .ofNat (n / 65536), .ofNat (n / 256), .ofNat n]

/-- Four bytes as a number, the most significant byte first. -/
def bigEndian (a b c d : UInt8) : ℕ :=
  (a.toNat * 256 + b.toNat) * 65536 + (c.toNat * 256 + d.toNat)

lemma bigEndian_lt (a b c d : UInt8) : bigEndian a b c d < 4294967296 := by
  have := a.toNat_lt
  have := b.toNat_lt
  have := c.toNat_lt
  have := d.toNat_lt
  unfold bigEndian
  omega

lemma signed_eq (n : ℕ) :
    Reader.signed 32 n = if n < 2147483648 then (n : ℤ) else (n : ℤ) - 4294967296 := rfl

lemma signed_emod {n : ℕ} (hn : n < 4294967296) : (Reader.signed 32 n % 4294967296).toNat = n := by
  rw [signed_eq]
  split <;> omega

lemma isWord_signed {n : ℕ} (hn : n < 4294967296) : IsWord (Reader.signed 32 n) := by
  rw [signed_eq, IsWord]
  split <;> omega

lemma wordBytes_signed (a b c d : UInt8) :
    wordBytes (Reader.signed 32 (bigEndian a b c d)) = [a, b, c, d] := by
  have := a.toNat_lt
  have := b.toNat_lt
  have := c.toNat_lt
  have := d.toNat_lt
  unfold wordBytes
  rw [signed_emod (bigEndian_lt a b c d)]
  simp only [List.cons.injEq, ← UInt8.toNat_inj, UInt8.toNat_ofNat', bigEndian, and_true]
  omega

lemma exists_wordBytes {w : ℤ} (hw : IsWord w) :
    ∃ a b c d, wordBytes w = [a, b, c, d] ∧ Reader.signed 32 (bigEndian a b c d) = w := by
  refine ⟨_, _, _, _, rfl, ?_⟩
  obtain ⟨hlow, hhigh⟩ := hw
  simp only [bigEndian, UInt8.toNat_ofNat', signed_eq]
  split <;> omega

/-- A case of a lookup switch as it is written. -/
def caseBytes (c : ℤ × ℤ) : List UInt8 := wordBytes c.1 ++ wordBytes c.2

namespace Reader

variable {ε α β : Type} {short : ε} {bytes rest : List UInt8}

lemma run_bind (r : Reader ε α) (f : α → Reader ε β) :
    (r >>= f).run short bytes = r.run short bytes >>= fun p => (f p.1).run short p.2 := by
  induction r generalizing bytes with
  | done a => rfl
  | fail e => rfl
  | byte next ih =>
    cases bytes with
    | nil => rfl
    | cons b bytes => exact ih b

/-- The reader takes what the values with the property are written as, and nothing else. -/
def Undoes (r : Reader ε α) (p : α → Prop) (write : α → List UInt8) : Prop :=
  ∀ short bytes a rest, r.run short bytes = .ok (a, rest) ↔ p a ∧ bytes = write a ++ rest

section Sequences

variable {γ : Type} {r : Reader ε α} {p : α → Prop} {write : α → List UInt8}

/-- Two readers, one after the other. -/
lemma Undoes.run_both {r' : Reader ε β} {p' : β → Prop} {write' : β → List UInt8}
    (h : Undoes r p write) (h' : Undoes r' p' write') (f : α → β → γ) (c : γ) :
    (do return f (← r) (← r') : Reader ε γ).run short bytes = .ok (c, rest) ↔
      ∃ a b, f a b = c ∧ p a ∧ p' b ∧ bytes = write a ++ (write' b ++ rest) := by
  simp only [run_bind, bind_ok_iff, Prod.exists, h short, h' short]
  constructor
  · rintro ⟨a, mid, ⟨ha, rfl⟩, b, last, ⟨hb, rfl⟩, hc⟩
    cases hc
    exact ⟨a, b, rfl, ha, hb, rfl⟩
  · rintro ⟨a, b, rfl, ha, hb, rfl⟩
    exact ⟨a, _, ⟨ha, rfl⟩, b, rest, ⟨hb, rfl⟩, rfl⟩

/-- The same reader, some number of times. -/
lemma Undoes.times (h : Undoes r p write) (n : ℕ) :
    Undoes (r.times n) (fun l => l.length = n ∧ ∀ a ∈ l, p a) (List.flatMap write) := by
  induction n with
  | zero =>
    intro short bytes l rest
    cases l <;> simp [Reader.times, run, eq_comm]
  | succ n ih =>
    intro short bytes l rest
    refine (h.run_both ih (fun a as => a :: as) l).trans ?_
    constructor
    · rintro ⟨a, as, rfl, ha, ⟨hlen, has⟩, rfl⟩
      simpa [hlen, ha] using has
    · rintro ⟨⟨hlen, hall⟩, rfl⟩
      cases l with
      | nil => cases hlen
      | cons a as =>
        simp only [List.mem_cons, forall_eq_or_imp] at hall
        exact ⟨a, as, rfl, hall.1, ⟨Nat.succ.inj hlen, hall.2⟩, by simp⟩

end Sequences

lemma s4_undoes : Undoes (s4 : Reader ε ℤ) IsWord wordBytes := by
  intro short bytes w rest
  constructor
  · intro h
    match bytes, h with
    | a :: b :: c :: d :: tail, h =>
      cases h
      exact ⟨isWord_signed (bigEndian_lt a b c d), by rw [← bigEndian, wordBytes_signed]; rfl⟩
  · rintro ⟨hw, rfl⟩
    obtain ⟨a, b, c, d, hbytes, hvalue⟩ := exists_wordBytes hw
    rw [hbytes, ← hvalue]
    rfl

lemma switchCase_undoes : Undoes switchCase (fun c => IsWord c.1 ∧ IsWord c.2) caseBytes := by
  intro short bytes c rest
  refine (s4_undoes.run_both s4_undoes Prod.mk c).trans ?_
  constructor
  · rintro ⟨key, target, rfl, hkey, htarget, rfl⟩
    exact ⟨⟨hkey, htarget⟩, by simp [caseBytes]⟩
  · rintro ⟨⟨hkey, htarget⟩, rfl⟩
    exact ⟨c.1, c.2, rfl, hkey, htarget, by simp [caseBytes]⟩

lemma run_skip_ok_iff (n : ℕ) :
    (skip n : Reader ε Unit).run short bytes = .ok ((), rest) ↔
      ∃ skipped : List UInt8, skipped.length = n ∧ bytes = skipped ++ rest := by
  induction n generalizing bytes with
  | zero => simp [skip, run]
  | succ n ih =>
    constructor
    · intro h
      cases bytes with
      | nil => cases h
      | cons b bytes =>
        obtain ⟨skipped, hlen, rfl⟩ := ih.1 h
        exact ⟨b :: skipped, by simp [hlen], rfl⟩
    · rintro ⟨skipped, hlen, rfl⟩
      cases skipped with
      | nil => cases hlen
      | cons b skipped => exact ih.2 ⟨skipped, Nat.succ.inj hlen, rfl⟩

end Reader

/-! ### Lookup switches -/

/-- The operands of a lookup switch as they are written behind the padding. -/
def switchBytes (fallback : ℤ) (cases : List (ℤ × ℤ)) : List UInt8 :=
  wordBytes fallback ++ (wordBytes cases.length ++ cases.flatMap caseBytes)

/-- Numbers that a lookup switch can be written with. -/
def IsSwitch (fallback : ℤ) (cases : List (ℤ × ℤ)) : Prop :=
  IsWord fallback ∧ IsWord cases.length ∧ ∀ c ∈ cases, IsWord c.1 ∧ IsWord c.2

/-- **A lookup switch is read from what it is written as.** -/
lemma run_lookupSwitch_ok_iff {n : ℕ} {short : OpcodeFault} {bytes rest : List UInt8}
    {b : Branch ℤ} :
    (lookupSwitch n).run short bytes = .ok (b, rest) ↔
      ∃ skipped fallback cases, b = .lookupSwitch fallback cases ∧ skipped.length = n ∧
        IsSwitch fallback cases ∧ bytes = skipped ++ (switchBytes fallback cases ++ rest) := by
  have hword : ∀ bytes w rest, (Reader.s4 : Operand ℤ).run short bytes = .ok (w, rest) ↔
      IsWord w ∧ bytes = wordBytes w ++ rest := Reader.s4_undoes short
  unfold lookupSwitch
  simp only [Reader.run_bind, bind_ok_iff, Prod.exists, hword]
  constructor
  · rintro ⟨_, mid, hskip, fallback, mid', ⟨hfallback, rfl⟩, count, mid'', ⟨hcount, rfl⟩, h⟩
    obtain ⟨skipped, hlen, rfl⟩ := (Reader.run_skip_ok_iff n).1 hskip
    split at h
    · cases h
    · rename_i hneg
      rw [Reader.run_bind] at h
      obtain ⟨⟨cases, last⟩, hread, hb⟩ := bind_ok_iff.1 h
      obtain ⟨⟨hnumber, hall⟩, rfl⟩ := (Reader.switchCase_undoes.times _ short _ _ _).1 hread
      cases hb
      have hlength : (cases.length : ℤ) = count := by omega
      refine ⟨skipped, fallback, cases, rfl, hlen, ⟨hfallback, hlength ▸ hcount, hall⟩, ?_⟩
      simp [switchBytes, hlength]
  · rintro ⟨skipped, fallback, cases, rfl, hlen, ⟨hfallback, hcount, hall⟩, rfl⟩
    refine ⟨(), _, (Reader.run_skip_ok_iff n).2 ⟨skipped, hlen, rfl⟩, fallback,
      wordBytes cases.length ++ (cases.flatMap caseBytes ++ rest), ⟨hfallback, ?_⟩, cases.length,
      cases.flatMap caseBytes ++ rest, ⟨hcount, rfl⟩, ?_⟩
    · simp [switchBytes]
    · rw [if_neg (by omega), Int.toNat_natCast, Reader.run_bind]
      refine bind_ok_iff.2 ⟨(cases, rest), ?_, rfl⟩
      exact (Reader.switchCase_undoes.times _ short _ _ _).2 ⟨⟨rfl, hall⟩, rfl⟩

/-! ### The opcode of lookup switches -/

/-- If the opcode is read as a lookup switch, it is the one for them. -/
def LookupOpcode (opcode : ℕ) (i : Relative) : Prop :=
  ∀ fallback cases, i = .branch (.lookupSwitch fallback cases) → opcode = 0xab

lemma lookupOpcode_wide (opcode : ℕ) : wide.All (LookupOpcode opcode) := by
  simp [wide, LookupOpcode]

lemma lookupOpcode_operands (pool : ConstantPool) (padding opcode : ℕ) :
    (operands pool padding opcode).All (LookupOpcode opcode) := by
  unfold operands
  split
  case h_12 => simp [tableSwitch, LookupOpcode]
  case h_28 => exact lookupOpcode_wide _
  all_goals simp [LookupOpcode]

lemma lookupOpcode_plain {opcode : ℕ} {b : Branch ℤ} (hb : plainBranches.lookup opcode = some b) :
    LookupOpcode opcode (.branch b) := by
  obtain ⟨l, l', hl, -⟩ := List.lookup_eq_some_iff.1 hb
  have hmem : (opcode, b) ∈ plainBranches := by simp [hl]
  have hplain : ∀ p ∈ plainBranches, ∀ fallback cases, p.2 ≠ .lookupSwitch fallback cases := by
    simp [plainBranches]
  intro fallback cases h
  cases h
  exact absurd rfl (hplain _ hmem fallback cases)

lemma lookupOpcode_body (pool : ConstantPool) (padding opcode : ℕ) :
    (body pool padding opcode).All (LookupOpcode opcode) := by
  unfold body
  split
  · simp [LookupOpcode]
  · rename_i hb
    exact lookupOpcode_plain hb
  · simp [LookupOpcode, lookupOpcode_operands]

/-- Padding does not depend on the bits that are not kept. -/
lemma padding_word (offset : ℕ) : padding (word offset) = padding offset := by
  unfold padding word
  omega

lemma instruction_lookupSwitch_ok_iff {pool : ConstantPool} {offset opcode : ℕ}
    {bytes rest : List UInt8} {fallback : ℤ} {cases : List (ℤ × ℤ)} :
    instruction pool offset opcode bytes = .ok (.branch (.lookupSwitch fallback cases), rest) ↔
      opcode = 0xab ∧ ∃ skipped, skipped.length = padding offset ∧ IsSwitch fallback cases ∧
        bytes = skipped ++ (switchBytes fallback cases ++ rest) := by
  have hbody : body pool (padding offset) 0xab =
      lookupSwitch (padding offset) >>= fun b => pure (.branch b) := rfl
  have hread : instruction pool offset 0xab bytes =
        .ok (.branch (.lookupSwitch fallback cases), rest) ↔
      (lookupSwitch (padding offset)).run .truncated bytes =
        .ok (.lookupSwitch fallback cases, rest) := by
    rw [instruction, hbody, Reader.run_bind, bind_ok_iff]
    constructor
    · rintro ⟨⟨b, last⟩, hb, h⟩
      cases h
      exact hb
    · exact fun hb => ⟨_, hb, rfl⟩
  constructor
  · intro h
    obtain rfl := (lookupOpcode_body pool _ opcode).run h fallback cases rfl
    obtain ⟨skipped, _, _, heq, hlen, hswitch, hbytes⟩ := run_lookupSwitch_ok_iff.1 (hread.1 h)
    cases heq
    exact ⟨rfl, skipped, hlen, hswitch, hbytes⟩
  · rintro ⟨rfl, skipped, hlen, hswitch, hbytes⟩
    exact hread.2
      (run_lookupSwitch_ok_iff.2 ⟨skipped, fallback, cases, rfl, hlen, hswitch, hbytes⟩)

end Decode

namespace DecodedCode

open Decode

variable {pool : ConstantPool} {bytes : List UInt8} {d : DecodedCode}

/-- A decoded lookup switch, written out, is what it was decoded from. -/
lemma exists_switchBytes (h : ofBytes pool bytes = .ok d) {k p fallback : ℕ}
    {cases : List (ℤ × ℕ)} (hp : d.offsets[k]? = some p)
    (hi : d.instructions[k]? = some (.branch (.lookupSwitch fallback cases))) :
    ∃ before skipped behind, word before.length = p ∧ skipped.length = padding p ∧
      bytes = before ++ 0xab :: (skipped ++ (switchBytes (distance d.offsets p fallback)
        (cases.map fun c => (c.1, distance d.offsets p c.2)) ++ behind)) := by
  obtain ⟨before, opcode, operands, behind, hbytes, hbefore, hread⟩ :=
    exists_tile_of_ofBytes h hp hi
  obtain ⟨hopcode, skipped, hlen, -, rfl⟩ := instruction_lookupSwitch_ok_iff.1 hread
  have hop : opcode = 0xab := UInt8.toNat_inj.1 hopcode
  refine ⟨before, skipped, behind, hbefore, hbefore ▸ hlen.trans (padding_word _).symm, ?_⟩
  rw [hbytes, hop]
  simp

/-- A code array that is one lookup switch, all of whose cases go back to it. -/
def keyBytes (keys : List ℤ) : List UInt8 :=
  0xab :: (List.replicate (padding 0) 0 ++ switchBytes 0 (keys.map fun key => (key, 0)))

def keyCode (keys : List ℤ) : DecodedCode where
  instructions := [.branch (.lookupSwitch 0 (keys.map fun key => (key, 0)))]
  offsets := [0]
  length := word (keyBytes keys).length

lemma raw_keyCode (keys : List ℤ) :
    (keyCode keys).raw = [(0, .branch (.lookupSwitch 0 (keys.map fun key => (key, 0))))] := by
  simp [raw, keyCode, Instruction.map, Branch.map, distance]

lemma ofBytes_keyBytes (pool : ConstantPool) {keys : List ℤ} (hkeys : ∀ key ∈ keys, IsWord key)
    (hnumber : IsWord keys.length) : ofBytes pool (keyBytes keys) = .ok (keyCode keys) := by
  have hzero : IsWord 0 := by simp [IsWord]
  have hswitch : IsSwitch 0 (keys.map fun key => (key, 0)) := by
    refine ⟨hzero, by simpa using hnumber, fun c hc => ?_⟩
    obtain ⟨key, hkey, rfl⟩ := List.mem_map.1 hc
    exact ⟨hkeys key hkey, hzero⟩
  have hread : instruction pool 0 (0xab : UInt8).toNat (keyBytes keys).tail =
      .ok (.branch (.lookupSwitch 0 (keys.map fun key => (key, 0))), []) := by
    refine instruction_lookupSwitch_ok_iff.2
      ⟨rfl, List.replicate (padding 0) 0, List.length_replicate, hswitch, ?_⟩
    simp [keyBytes]
  have htile := Tiled.cons hread (.nil _)
  rw [List.append_nil] at htile
  have hfound : Found [0] 0 := (found_iff (List.pairwise_singleton _ _)).2 Nat.zero_lt_one
  refine ofBytes_ok_iff_kept.2 ⟨rfl, rfl, ?_, _, htile, raw_keyCode keys⟩
  simp [keyCode, Instruction.targets, Branch.targets, hfound]

/-- **Keys are in the order of the code array.** A lookup switch that is decoded stands in the code
array as it is, at a place that is kept as its offset: behind the padding are its fallback and the
number of its cases, then the cases, in their order. This may be any order, since every list of keys
is decoded from some code array. -/
theorem lookupSwitch_in_code_order (pool : ConstantPool) :
    (∀ bytes d, ofBytes pool bytes = .ok d → ∀ (k p fallback : ℕ) (cases : List (ℤ × ℕ)),
      d.offsets[k]? = some p →
      d.instructions[k]? = some (.branch (.lookupSwitch fallback cases)) →
      ∃ before skipped behind, word before.length = p ∧ skipped.length = padding p ∧
        bytes = before ++ 0xab :: (skipped ++ (switchBytes (distance d.offsets p fallback)
          (cases.map fun c => (c.1, distance d.offsets p c.2)) ++ behind))) ∧
    ∀ keys : List ℤ, (∀ key ∈ keys, IsWord key) → IsWord keys.length →
      ∃ bytes d, ofBytes pool bytes = .ok d ∧
        d.instructions = [.branch (.lookupSwitch 0 (keys.map fun key => (key, 0)))] := by
  constructor
  · intro bytes d h k p fallback cases hp hi
    exact exists_switchBytes h hp hi
  · intro keys hkeys hnumber
    exact ⟨keyBytes keys, keyCode keys, ofBytes_keyBytes pool hkeys hnumber, rfl⟩

/-- A lookup switch with a key of 5 before a key of 1, and two places to go to. -/
def unsortedBytes : List UInt8 :=
  [0xab, 0, 0, 0, 0, 0, 0, 28, 0, 0, 0, 2, 0, 0, 0, 5, 0, 0, 0, 28, 0, 0, 0, 1, 0, 0, 0, 29,
    0, 0xb1]

def unsortedCode : DecodedCode where
  instructions := [.branch (.lookupSwitch 1 [(5, 1), (1, 2)]), .op .nop, .branch (.leave none)]
  offsets := [0, 28, 29]
  length := 30

lemma ofBytes_unsorted : ofBytes ConstantTable.empty.pool unsortedBytes = .ok unsortedCode := by
  decide +kernel

/-- The switch is found in its code array, and switches with other keys in any order are decoded. -/
theorem lookupSwitch_in_code_order_unsorted :
    ofBytes ConstantTable.empty.pool unsortedBytes = .ok unsortedCode ∧
      (∃ before skipped behind, word before.length = 0 ∧ skipped.length = 3 ∧
        unsortedBytes = before ++ 0xab :: (skipped ++
          (switchBytes 28 [(5, 28), (1, 29)] ++ behind))) ∧
      ∃ bytes d, ofBytes ConstantTable.empty.pool bytes = .ok d ∧
        d.instructions = [.branch (.lookupSwitch 0 [(3, 0), (-7, 0), (3, 0)])] := by
  obtain ⟨hwritten, hany⟩ := lookupSwitch_in_code_order ConstantTable.empty.pool
  refine ⟨ofBytes_unsorted, hwritten _ _ ofBytes_unsorted 0 0 1 [(5, 1), (1, 2)] rfl rfl, ?_⟩
  exact hany [3, -7, 3] (by simp [IsWord]) (by simp [IsWord])

/-- Decoded lookup switches need not have their keys in ascending order. -/
theorem decoded_keys_not_ascending :
    ofBytes ConstantTable.empty.pool unsortedBytes = .ok unsortedCode ∧
      ¬ ∀ (fallback : ℕ) (cases : List (ℤ × ℕ)),
        .branch (.lookupSwitch fallback cases) ∈ unsortedCode.instructions →
          (cases.map Prod.fst).Pairwise (· ≤ ·) := by
  refine ⟨ofBytes_unsorted, fun hall => ?_⟩
  have hsorted := hall 1 [(5, 1), (1, 2)] (by decide)
  exact absurd hsorted (by decide)

end DecodedCode

end Bytecheck
