import Mathlib.Data.List.GetD
import Mathlib.Tactic.Common
import Bytecheck.Proofs.Coverage

/-!
Code arrays that are cut short.

A reader asks for one byte after another and knows nothing of the bytes it has not taken. So a cut
within an instruction shows as a want of bytes and as nothing else, whatever the instruction is and
wherever it is cut. A cut between instructions leaves tiles in front of it, and these are read as
before; what may fail then is only a branch to a place behind the cut.
-/

namespace Bytecheck

/-- A branch fails to be relabelled as one of its labels does. -/
lemma Branch.raises_mapLabels {ε L M : Type} {E : ε → Prop} {f : L → Except ε M} {b : Branch L}
    (hf : ∀ t ∈ b.targets, Raises (f t) E) : Raises (b.mapLabels f) E := by
  cases b with
  | tableSwitch fallback low ts =>
    refine (hf fallback List.mem_cons_self).bind fun d => ?_
    exact (Raises.mapM fun t ht => hf t (List.mem_cons_of_mem _ ht)).bind fun ts' => .ok _
  | lookupSwitch fallback cases =>
    refine (hf fallback List.mem_cons_self).bind fun d => ?_
    refine (Raises.mapM fun c hc => ?_).bind fun cases' => .ok _
    exact (hf c.2 (List.mem_cons_of_mem _ (List.mem_map_of_mem hc))).bind fun t => .ok _
  | leave | athrow | ret => exact .ok _
  | ifZero | ifInt | ifRef | ifNull | goto | jsr =>
    exact (hf _ List.mem_cons_self).bind fun t => .ok _

namespace Decode

/-! ### Readers and tiles -/

/-- **A reader that is short of bytes says so**: where it would take all bytes, it fails for want of
them on every proper part in front. -/
lemma Reader.run_of_prefix {ε α : Type} {short : ε} {r : Reader ε α} {a : α}
    {bytes part : List UInt8}
    (h : r.run short bytes = .ok (a, [])) (hp : part <+: bytes) (hlt : part.length < bytes.length) :
    r.run short part = .error short := by
  induction r generalizing bytes part with
  | done b =>
    cases h
    exact absurd hlt (Nat.not_lt_zero _)
  | fail e => cases h
  | byte next ih =>
    cases part with
    | nil => rfl
    | cons b part =>
      obtain ⟨rest, rfl⟩ := hp
      exact ih b h (List.prefix_append part rest) (Nat.lt_of_succ_lt_succ hlt)

variable {pool : ConstantPool} {offset : ℕ} {bytes : List UInt8} {l : List (ℕ × Relative)}

/-- Every place in the bytes is in one of their tiles. -/
lemma Tiled.exists_around (h : Tiled pool offset bytes l) {n : ℕ} (hn : offset ≤ n)
    (hlt : n < offset + bytes.length) :
    ∃ k q, (l.map Prod.fst)[k]? = some q ∧ q ≤ n ∧
      n < ((l.map Prod.fst)[k + 1]?).getD (offset + bytes.length) := by
  induction h with
  | nil offset =>
    rw [List.length_nil] at hlt
    omega
  | @cons offset opcode operands rest i l _ hl ih =>
    rw [end_eq] at hlt ⊢
    by_cases hfirst : n < offset + (operands.length + 1)
    · refine ⟨0, offset, rfl, hn, ?_⟩
      have hnext : ((l.map Prod.fst)[0]?).getD (offset + (operands.length + 1) + rest.length) =
          offset + (operands.length + 1) := by
        rw [← List.head?_eq_getElem?, hl.head?]
        by_cases hrest : rest = [] <;> simp [hrest]
      rw [List.map_cons, List.getElem?_cons_succ, hnext]
      exact hfirst
    · obtain ⟨k, q, hq, hle, hnext⟩ := ih (by omega) hlt
      exact ⟨k + 1, q, hq, hle, hnext⟩

/-- An instruction that is cut is reported at its offset. -/
lemma instructions_of_cut {opcode : UInt8} {operands part : List UInt8} {i : Relative}
    (hi : instruction pool offset opcode.toNat operands = .ok (i, [])) (hp : part <+: operands)
    (hlt : part.length < operands.length) :
    instructions pool offset (opcode :: part) = .error (.truncatedCode (word offset)) := by
  have hcut : instruction pool offset opcode.toNat part = .error .truncated :=
    Reader.run_of_prefix hi hp hlt
  rw [instructions_cons, hcut]
  rfl

/-! ### Labels of the instructions in front -/

variable {offsets : List ℕ} {k t t' : ℕ}

lemma distance_inj (ha : offsets.Pairwise (· < ·)) (ht : t < offsets.length)
    (ht' : t' < offsets.length) (h : distance offsets offset t = distance offsets offset t') :
    t = t' := by
  have hfound := (resolve_undoneBy offsets offset).again ((found_iff ha).2 ht)
  rw [h, (resolve_undoneBy offsets offset).again ((found_iff ha).2 ht')] at hfound
  exact (Except.ok.inj hfound).symm

lemma distance_take (ht : t < k) :
    distance (offsets.take k) offset t = distance offsets offset t := by
  rw [distance, distance, List.getD_eq_getElem?_getD, List.getD_eq_getElem?_getD,
    List.getElem?_take_of_lt ht]

lemma raises_relabel {E : CodeFault → Prop} {r : Relative}
    (hr : ∀ t ∈ r.targets, Raises (resolve offsets offset t) E) :
    Raises (relabel offsets offset r) E := by
  cases r with
  | op o => exact .ok _
  | branch b => exact (Branch.raises_mapLabels hr).map _

/-- Among the first instructions, a label is found if it is one of them. -/
lemma raises_resolve_take (ha : offsets.Pairwise (· < ·)) {target : ℕ}
    (ht : offsets[t]? = some target) :
    Raises (resolve (offsets.take k) offset (distance offsets offset t)) fun f =>
      k ≤ t ∧ f = .invalidOffset offset target := by
  have hd : (offset : ℤ) + distance offsets offset t = target := by
    rw [distance, List.getD_eq_getElem?_getD, ht, Option.getD_some]
    omega
  intro f hf
  by_cases htk : t < k
  · have htake : t < (offsets.take k).length := by
      rw [List.length_take]
      exact Nat.lt_min.2 ⟨htk, (List.getElem?_eq_some_iff.1 ht).1⟩
    have hfound := (found_iff (ha.sublist (List.take_sublist k offsets))).2 htake
    have hok := (resolve_undoneBy _ offset).again hfound
    rw [distance_take htk, hf] at hok
    cases hok
  · refine ⟨Nat.le_of_not_lt htk, ?_⟩
    unfold resolve at hf
    dsimp only at hf
    rw [hd] at hf
    split at hf
    · cases hf
    · cases hf
      rfl

end Decode

namespace DecodedCode

open Decode

variable {pool : ConstantPool} {bytes part : List UInt8} {d : DecodedCode} {k start : ℕ}

/-- The first instructions, up to the next one or the end. -/
def take (d : DecodedCode) (k : ℕ) : DecodedCode where
  instructions := d.instructions.take k
  offsets := d.offsets.take k
  length := (d.offsets[k]?).getD d.length

/-- The labels of the first instructions are among them. -/
def Closed (d : DecodedCode) (k : ℕ) : Prop :=
  ∀ i ∈ d.instructions.take k, ∀ t ∈ i.targets, t < k

instance : Decidable (d.Closed k) :=
  inferInstanceAs (Decidable (∀ i ∈ d.instructions.take k, ∀ t ∈ i.targets, t < k))

/-- The fault names one of the first instructions, by its offset, and one of its targets, which is
at or past the end. -/
def Severed (d : DecodedCode) (k stop : ℕ) (f : CodeFault) : Prop :=
  ∃ j i t offset target, j < k ∧ d.offsets[j]? = some offset ∧ d.instructions[j]? = some i ∧
    t ∈ i.targets ∧ d.offsets[t]? = some target ∧ stop ≤ target ∧ f = .invalidOffset offset target

lemma raw_take (h : d.Closed k) : (d.take k).raw = d.raw.take k := by
  have hzip : (d.offsets.zip d.instructions).take k =
      (d.offsets.take k).zip (d.instructions.take k) := List.take_zipWith
  unfold raw take
  dsimp only
  rw [← List.map_take, hzip]
  refine List.map_congr_left fun p hp => congrArg (Prod.mk p.1) ?_
  exact Instruction.map_congr fun t ht => distance_take (h p.2 (List.of_mem_zip hp).2 t ht)

lemma exists_of_getElem?_raw {j : ℕ} {p : ℕ × Relative} (hj : d.raw[j]? = some p) :
    ∃ offset i, d.offsets[j]? = some offset ∧ d.instructions[j]? = some i ∧
      p = (offset, i.map (distance d.offsets offset)) := by
  rw [raw, List.getElem?_map, Option.map_eq_some_iff] at hj
  obtain ⟨⟨offset, i⟩, hz, rfl⟩ := hj
  obtain ⟨hoffset, hi⟩ := List.getElem?_zip_eq_some.1 hz
  exact ⟨offset, i, hoffset, hi, rfl⟩

section Cuts

variable (hb : bytes.length < 4294967296) (h : ofBytes pool bytes = .ok d)
  (hk : d.offsets[k]? = some start)

include hb h hk

/-- The tiles in front of an instruction, and the one that it is read from. -/
lemma exists_cut :
    ∃ before opcode operands behind i, bytes = before ++ opcode :: (operands ++ behind) ∧
      before.length = start ∧ Tiled pool 0 before (d.raw.take k) ∧
      instruction pool start opcode.toNat operands = .ok (i, []) ∧
      d.stop k = start + (operands.length + 1) := by
  obtain ⟨hlength, hlen, -, htiled⟩ := (ofBytes_ok_iff hb).1 h
  obtain ⟨i, hi⟩ : ∃ i, d.instructions[k]? = some i :=
    ⟨_, List.getElem?_eq_getElem (hlen ▸ (List.getElem?_eq_some_iff.1 hk).1)⟩
  obtain ⟨before, opcode, operands, behind, hbytes, hbefore, hfront, hread, hstop⟩ :=
    htiled.exists_tile (getElem?_raw hk hi)
  rw [map_fst_raw hlen, ← hlength] at hstop
  exact ⟨before, opcode, operands, behind, _, hbytes, hbefore, hfront, hread, hstop⟩

/-- A cut within an instruction. -/
lemma ofBytes_of_cut_within (hp : part <+: bytes) (hlt : start < part.length)
    (hstop : part.length < d.stop k) : ofBytes pool part = .error (.truncatedCode start) := by
  obtain ⟨before, opcode, operands, behind, i, rfl, rfl, hfront, hread, hend⟩ := exists_cut hb h hk
  obtain ⟨m, hm⟩ : ∃ m, part.length = before.length + (m + 1) :=
    ⟨part.length - before.length - 1, by omega⟩
  have hpart : part = before ++ opcode :: operands.take m := by
    rw [List.prefix_iff_eq_take.1 hp, hm, List.take_length_add_append, List.take_succ_cons,
      List.take_append_of_le_length (by omega)]
  have hcut : Decode.instructions pool before.length (opcode :: operands.take m) =
      .error (.truncatedCode before.length) := by
    rw [List.length_append] at hb
    rw [instructions_of_cut hread (List.take_prefix m operands) (by rw [List.length_take]; omega),
      word_of_lt (by omega)]
  refine bind_error_iff.2 (Or.inl ?_)
  rw [hpart, hfront.instructions_append, Nat.zero_add, hcut]
  rfl

variable (hp : part <+: bytes) (hlen : part.length = start)

include hp hlen

/-- A cut in front of an instruction leaves the tiles in front of it. -/
lemma tiled_of_cut_between : Tiled pool 0 part (d.raw.take k) := by
  obtain ⟨before, opcode, operands, behind, i, rfl, rfl, hfront, -, -⟩ := exists_cut hb h hk
  have hpart : part = before := by
    rw [List.prefix_iff_eq_take.1 hp, hlen, List.take_left]
  rwa [hpart]

/-- What may fail in front of a cut between instructions is a branch to a place behind it. -/
lemma raises_of_cut_between : Raises (ofBytes pool part) (d.Severed k part.length) := by
  obtain ⟨-, hpaired, hlabels, -⟩ := (ofBytes_ok_iff hb).1 h
  have htiled := tiled_of_cut_between hb h hk hp hlen
  have hread : kept <$> Decode.instructions pool 0 part = .ok (d.raw.take k) :=
    map_ok_iff.2 ⟨_, instructions_ok_iff.2 htiled, htiled.kept_eq (by have := hp.length_le; omega)⟩
  have hoffsets : (d.raw.take k).map Prod.fst = d.offsets.take k := by
    rw [List.map_take, map_fst_raw hpaired]
  unfold ofBytes
  rw [hread]
  change Raises ((d.raw.take k).mapM
    (fun p => relabel ((d.raw.take k).map Prod.fst) p.1 p.2) >>= _) _
  rw [hoffsets]
  refine (Raises.mapM fun p hp => ?_).bind fun is => .ok _
  obtain ⟨j, hjk, hj⟩ := List.mem_take_iff_getElem.1 hp
  obtain ⟨offset, i, hoffset, hi, rfl⟩ :=
    exists_of_getElem?_raw (List.getElem?_eq_some_iff.2 ⟨_, hj⟩)
  refine raises_relabel fun u hu => ?_
  rw [Instruction.targets_map] at hu
  obtain ⟨t, ht, rfl⟩ := List.mem_map.1 hu
  obtain ⟨target, htarget⟩ : ∃ target, d.offsets[t]? = some target :=
    ⟨_, List.getElem?_eq_getElem (hlabels i (List.mem_of_getElem? hi) t ht)⟩
  intro f hf
  have ha := (tiles_of_ofBytes hb h).ascending
  obtain ⟨hkt, rfl⟩ := raises_resolve_take ha htarget f hf
  have hpast : part.length ≤ target := hlen ▸ (le_iff ha hk htarget).1 hkt
  exact ⟨j, i, t, offset, target, by omega, hoffset, hi, ht, htarget, hpast, rfl⟩

/-- In front of a cut between instructions, these are decoded as before if their labels are among
them. -/
lemma ofBytes_of_closed (hclosed : d.Closed k) : ofBytes pool part = .ok (d.take k) := by
  obtain ⟨-, hpaired, -, -⟩ := (ofBytes_ok_iff hb).1 h
  refine (ofBytes_ok_iff (hp.length_le.trans_lt hb)).2 ⟨?_, ?_, fun i hi t ht => ?_, ?_⟩
  · rw [take, hk, Option.getD_some, hlen]
  · simp only [take, List.length_take, hpaired]
  · have hkl := (List.getElem?_eq_some_iff.1 hk).1
    have htk := hclosed i hi t ht
    simp only [take, List.length_take]
    omega
  · rw [raw_take hclosed]
    exact tiled_of_cut_between hb h hk hp hlen

/-- If anything is decoded in front of a cut between instructions, the labels there were among
them: they are what the labels of the result are. -/
lemma closed_of_ofBytes {d' : DecodedCode} (h' : ofBytes pool part = .ok d') : d.Closed k := by
  obtain ⟨-, hpaired, hlabels, -⟩ := (ofBytes_ok_iff hb).1 h
  obtain ⟨-, hpaired', hlabels', htiled'⟩ := (ofBytes_ok_iff (hp.length_le.trans_lt hb)).1 h'
  have hraw : d'.raw = d.raw.take k := by
    have hread := instructions_ok_iff.2 (tiled_of_cut_between hb h hk hp hlen)
    rw [instructions_ok_iff.2 htiled'] at hread
    exact Except.ok.inj hread
  have hoffsets : d'.offsets = d.offsets.take k := by
    rw [← map_fst_raw hpaired', hraw, List.map_take, map_fst_raw hpaired]
  intro i hi t ht
  obtain ⟨j, hjk, hj⟩ := List.mem_take_iff_getElem.1 hi
  have hi : d.instructions[j]? = some i := List.getElem?_eq_some_iff.2 ⟨_, hj⟩
  obtain ⟨offset, hoffset⟩ : ∃ offset, d.offsets[j]? = some offset :=
    ⟨_, List.getElem?_eq_getElem (by omega)⟩
  have hj' : d'.raw[j]? = some (offset, i.map (distance d.offsets offset)) := by
    rw [hraw, List.getElem?_take_of_lt (by omega)]
    exact getElem?_raw hoffset hi
  obtain ⟨offset', i', -, hi', heq⟩ := exists_of_getElem?_raw hj'
  obtain ⟨rfl, hmap⟩ := Prod.mk.inj heq
  have hmem : distance d.offsets offset t ∈ i'.targets.map (distance d'.offsets offset) := by
    rw [← Instruction.targets_map, ← hmap, Instruction.targets_map]
    exact List.mem_map_of_mem ht
  obtain ⟨t', ht', hdist⟩ := List.mem_map.1 hmem
  have hlt' := hlabels' i' (List.mem_of_getElem? hi') t' ht'
  rw [hoffsets, List.length_take] at hlt'
  rw [hoffsets, distance_take (by omega)] at hdist
  have heq := distance_inj (tiles_of_ofBytes hb h).ascending (by omega)
    (hlabels i (List.mem_of_getElem? hi) t ht) hdist
  omega

end Cuts

/-- **Truncated code is reported where it is cut.** A code array that decodes, and whose offsets
fit, is cut short. Within an instruction, the cut is reported at the offset of that instruction.
Between instructions, those in front are decoded as before, or a branch among them is reported whose
target is at or past the cut. There are no other cuts. -/
theorem ofBytes_of_prefix (hb : bytes.length < 4294967296) (h : ofBytes pool bytes = .ok d)
    (hp : part <+: bytes) (hne : part ≠ bytes) :
    (∀ k start, d.offsets[k]? = some start →
      (start < part.length → part.length < d.stop k →
        ofBytes pool part = .error (.truncatedCode start)) ∧
      (part.length = start →
        d.Closed k ∧ ofBytes pool part = .ok (d.take k) ∨
          ¬ d.Closed k ∧ ∃ f, d.Severed k part.length f ∧ ofBytes pool part = .error f)) ∧
    ∃ k start, d.offsets[k]? = some start ∧ start ≤ part.length ∧ part.length < d.stop k := by
  refine ⟨fun k start hk => ⟨ofBytes_of_cut_within hb h hk hp, fun hlen => ?_⟩, ?_⟩
  · by_cases hclosed : d.Closed k
    · exact Or.inl ⟨hclosed, ofBytes_of_closed hb h hk hp hlen hclosed⟩
    · refine Or.inr ⟨hclosed, ?_⟩
      cases hpart : ofBytes pool part with
      | ok d' => exact absurd (closed_of_ofBytes hb h hk hp hlen hpart) hclosed
      | error f => exact ⟨f, raises_of_cut_between hb h hk hp hlen f hpart, rfl⟩
  · obtain ⟨hlength, hpaired, -, htiled⟩ := (ofBytes_ok_iff hb).1 h
    have hshort : part.length < bytes.length :=
      Nat.lt_of_le_of_ne hp.length_le fun heq => hne (hp.eq_of_length heq)
    obtain ⟨k, start, hk, hle, hlt⟩ := htiled.exists_around (Nat.zero_le part.length) (by omega)
    rw [map_fst_raw hpaired] at hk hlt
    rw [Nat.zero_add, ← hlength] at hlt
    exact ⟨k, start, hk, hle, hlt⟩

/-- The loop, cut within its switch, behind its first instruction, and behind its switch. The switch
goes to the instructions behind it, so it is reported. -/
theorem ofBytes_of_prefix_loop :
    loopBytes.length < 4294967296 ∧ ofBytes ConstantTable.empty.pool loopBytes = .ok loopCode ∧
      ofBytes ConstantTable.empty.pool (loopBytes.take 10) = .error (.truncatedCode 1) ∧
      ofBytes ConstantTable.empty.pool (loopBytes.take 1) = .ok (loopCode.take 1) ∧
      ∃ f, loopCode.Severed 2 20 f ∧
        ofBytes ConstantTable.empty.pool (loopBytes.take 20) = .error f := by
  have hfits : loopBytes.length < 4294967296 := by decide
  have hwithin := ofBytes_of_prefix hfits ofBytes_loop (List.take_prefix 10 loopBytes) (by decide)
  have hfirst := ofBytes_of_prefix hfits ofBytes_loop (List.take_prefix 1 loopBytes) (by decide)
  have hswitch := ofBytes_of_prefix hfits ofBytes_loop (List.take_prefix 20 loopBytes) (by decide)
  refine ⟨hfits, ofBytes_loop, (hwithin.1 1 1 rfl).1 (by decide) (by decide), ?_, ?_⟩
  · exact ((hfirst.1 1 1 rfl).2 rfl).elim And.right fun hopen => absurd (by decide) hopen.1
  · exact ((hswitch.1 2 20 rfl).2 rfl).elim (fun hclosed => absurd hclosed.1 (by decide)) And.right

end DecodedCode

end Bytecheck
