import Mathlib.Data.List.Sort
import Mathlib.Tactic.Common
import Bytecheck.LineTable
import Bytecheck.Proofs.Coverage

/-!
Lines of instructions, in terms of byte offsets.

A table of lines comes in any order, may name one offset several times, and may name offsets at
which no instruction starts. It is brought to indices and sorted before it is used. Sorting keeps
the order of entries with one index, and indices are in the order of the offsets; so the line of an
instruction can be told from the table as it came.
-/

namespace Bytecheck.LineTable

variable {entries table : List (ℕ × ℕ)} {k key line start pc : ℕ} {e : ℕ × ℕ}

/-! ### Sorted entries -/

lemma trans_key (a b c : ℕ × ℕ) (hab : decide (a.1 ≤ b.1) = true)
    (hbc : decide (b.1 ≤ c.1) = true) : decide (a.1 ≤ c.1) = true := by
  rw [decide_eq_true_eq] at hab hbc ⊢
  exact hab.trans hbc

lemma total_key (a b : ℕ × ℕ) : (decide (a.1 ≤ b.1) || decide (b.1 ≤ a.1)) = true := by
  rw [Bool.or_eq_true, decide_eq_true_eq, decide_eq_true_eq]
  exact Nat.le_total a.1 b.1

lemma ascending_ofList (entries : List (ℕ × ℕ)) :
    (ofList entries).entries.Pairwise fun a b => a.1 ≤ b.1 :=
  (List.pairwise_mergeSort trans_key total_key entries).imp of_decide_eq_true

lemma mem_ofList : e ∈ (ofList entries).entries ↔ e ∈ entries :=
  (List.mergeSort_perm entries _).mem_iff

/-- **Sorting is stable**: the entries of one instruction stay as they are. -/
lemma filter_ofList (entries : List (ℕ × ℕ)) (key : ℕ) :
    (ofList entries).entries.filter (fun e => e.1 = key) = entries.filter fun e => e.1 = key := by
  have hties : (entries.filter fun e => e.1 = key).Pairwise
      fun a b => decide (a.1 ≤ b.1) = true := by
    refine List.pairwise_of_forall_mem_list fun a ha b hb => ?_
    simp only [List.mem_filter, decide_eq_true_eq] at ha hb ⊢
    omega
  have hsub : (entries.filter fun e => e.1 = key).Sublist (ofList entries).entries :=
    List.sublist_mergeSort trans_key total_key hties List.filter_sublist
  have hsub' := hsub.filter fun e => e.1 = key
  rw [List.filter_filter] at hsub'
  simp only [Bool.and_self] at hsub'
  refine (hsub'.eq_of_length ?_).symm
  exact (((List.mergeSort_perm entries _).filter _).length_eq).symm

/-! ### The last entry at an instruction or before -/

/-- The entry that decides about an instruction: none between them is later, and of the entries at
the same place it is the last one. -/
def Decides (entries : List (ℕ × ℕ)) (k : ℕ) (e : ℕ × ℕ) : Prop :=
  e.1 ≤ k ∧ (∀ x ∈ entries, x.1 ≤ k → x.1 ≤ e.1) ∧
    (entries.filter fun x => x.1 = e.1).getLast? = some e

lemma decides_ofList_iff : Decides (ofList entries).entries k e ↔ Decides entries k e := by
  simp only [Decides, mem_ofList, filter_ofList]

/-- No two entries decide. -/
lemma Decides.unique {e' : ℕ × ℕ} (h : Decides entries k e) (h' : Decides entries k e') :
    e = e' := by
  obtain ⟨hle, hmax, hlast⟩ := h
  obtain ⟨hle', hmax', hlast'⟩ := h'
  have hmem := (List.mem_filter.1 (List.mem_of_getLast? hlast)).1
  have hmem' := (List.mem_filter.1 (List.mem_of_getLast? hlast')).1
  have hkey : e.1 = e'.1 := Nat.le_antisymm (hmax' e hmem hle) (hmax e' hmem' hle')
  rw [hkey, hlast'] at hlast
  exact (Option.some.inj hlast).symm

/-- In ascending entries, the last one at an instruction or before decides. -/
lemma decides_of_getLast? (hs : entries.Pairwise fun a b => a.1 ≤ b.1)
    (h : (entries.filter fun x => x.1 ≤ k).getLast? = some e) : Decides entries k e := by
  obtain ⟨front, hfront⟩ := List.getLast?_eq_some_iff.1 h
  have hle : e.1 ≤ k := of_decide_eq_true (List.mem_filter.1 (List.mem_of_getLast? h)).2
  refine ⟨hle, fun x hx hxk => ?_, ?_⟩
  · have hmem : x ∈ front ++ [e] := hfront ▸ List.mem_filter.2 ⟨hx, decide_eq_true hxk⟩
    have hsorted := hs.filter fun x => x.1 ≤ k
    rw [hfront, List.pairwise_append] at hsorted
    rcases List.mem_append.1 hmem with hx | hx
    · exact hsorted.2.2 x hx e (List.mem_singleton_self e)
    · rw [List.mem_singleton.1 hx]
  · -- the entries at the place of `e` are among those at the instruction or before
    have hsame : (entries.filter fun x => x.1 = e.1) =
        (entries.filter fun x => x.1 ≤ k).filter fun x => x.1 = e.1 := by
      rw [List.filter_filter]
      refine List.filter_congr fun x _ => ?_
      by_cases hx : x.1 = e.1
      · simp [hx, hle]
      · simp [hx]
    rw [hsame, hfront, List.filter_append]
    simp

lemma lineOf?_eq_some_iff (hs : entries.Pairwise fun a b => a.1 ≤ b.1) :
    lineOf? ⟨entries⟩ k = some line ↔ ∃ key, Decides entries k (key, line) := by
  unfold lineOf?
  dsimp only
  rw [Option.map_eq_some_iff]
  constructor
  · rintro ⟨⟨key, line⟩, hlast, rfl⟩
    exact ⟨key, decides_of_getLast? hs hlast⟩
  · rintro ⟨key, hdec⟩
    have hentry := (List.mem_filter.1 (List.mem_of_getLast? hdec.2.2)).1
    have hmem : (key, line) ∈ entries.filter fun x => x.1 ≤ k :=
      List.mem_filter.2 ⟨hentry, decide_eq_true hdec.1⟩
    obtain ⟨e, he⟩ := Option.isSome_iff_exists.1 (List.getLast?_isSome.2 (List.ne_nil_of_mem hmem))
    exact ⟨e, he, by rw [(decides_of_getLast? hs he).unique hdec]⟩

lemma lineOf?_eq_none_iff (entries : List (ℕ × ℕ)) :
    lineOf? ⟨entries⟩ k = none ↔ ∀ e ∈ entries, k < e.1 := by
  simp [lineOf?]

/-! ### Tables in offsets -/

variable {d : DecodedCode} {pool : ConstantPool} {bytes : List UInt8}

/-- The entries of a table that start an instruction, by its index. -/
def placed (table : List (ℕ × ℕ)) (d : DecodedCode) : List (ℕ × ℕ) :=
  table.filterMap fun e => (d.indexOf? e.1).map fun index => (index, e.2)

lemma ofOffsets_eq_ofList_placed (table : List (ℕ × ℕ)) (d : DecodedCode) :
    ofOffsets table d = ofList (placed table d) := rfl

lemma mem_placed_iff (ha : d.offsets.Pairwise (· < ·)) :
    (key, line) ∈ placed table d ↔
      ∃ start, d.offsets[key]? = some start ∧ (start, line) ∈ table := by
  simp only [placed, List.mem_filterMap, Option.map_eq_some_iff, DecodedCode.indexOf?,
    Decode.indexOf?_eq_some_iff ha, Prod.mk.injEq]
  constructor
  · rintro ⟨⟨start, _⟩, he, _, hkey, rfl, rfl⟩
    exact ⟨start, hkey, he⟩
  · rintro ⟨start, hkey, he⟩
    exact ⟨(start, line), he, key, hkey, rfl, rfl⟩

/-- The entries of an instruction are those at its offset, in the same order. -/
lemma filter_placed (ha : d.offsets.Pairwise (· < ·)) (hkey : d.offsets[key]? = some start)
    (table : List (ℕ × ℕ)) :
    (placed table d).filter (fun e => e.1 = key) =
      (table.filter fun e => e.1 = start).map fun e => (key, e.2) := by
  induction table with
  | nil => rfl
  | cons e table ih =>
    have hplace : d.indexOf? e.1 = some key ↔ e.1 = start := by
      rw [DecodedCode.indexOf?, Decode.indexOf?_eq_some_iff ha, hkey, Option.some.injEq, eq_comm]
    unfold placed at ih ⊢
    by_cases he : e.1 = start
    · have hi : d.indexOf? start = some key := he ▸ hplace.2 he
      simp [he, hi, ih]
    · cases hi : d.indexOf? e.1 with
      | none => simp [hi, he, ih]
      | some index =>
        have hne : index ≠ key := fun heq => he (hplace.1 (heq ▸ hi))
        simp [hi, he, hne, ih]

/-- The entry that decides about an instruction, in terms of the table in offsets. -/
lemma decides_placed_iff (ha : d.offsets.Pairwise (· < ·)) (hk : d.offsets[k]? = some pc)
    (hkey : d.offsets[key]? = some start) :
    Decides (placed table d) k (key, line) ↔
      start ≤ pc ∧ (∀ e ∈ table, e.1 ∈ d.offsets → e.1 ≤ pc → e.1 ≤ start) ∧
        (table.filter fun e => e.1 = start).getLast? = some (start, line) := by
  unfold Decides
  dsimp only
  rw [DecodedCode.le_iff ha hkey hk, filter_placed ha hkey, List.getLast?_map]
  refine and_congr_right fun _ => and_congr ?_ ?_
  · constructor
    · rintro hmax ⟨start', line'⟩ he hmem hle
      obtain ⟨key', hkey'⟩ := List.mem_iff_getElem?.1 hmem
      have hplaced : (key', line') ∈ placed table d := (mem_placed_iff ha).2 ⟨start', hkey', he⟩
      have hbelow : key' ≤ k := (DecodedCode.le_iff ha hkey' hk).2 hle
      exact (DecodedCode.le_iff ha hkey' hkey).1 (hmax _ hplaced hbelow)
    · rintro hmax ⟨key', line'⟩ hplaced hle
      obtain ⟨start', hkey', he⟩ := (mem_placed_iff ha).1 hplaced
      exact (DecodedCode.le_iff ha hkey' hkey).2
        (hmax _ he (List.mem_of_getElem? hkey') ((DecodedCode.le_iff ha hkey' hk).1 hle))
  · rw [Option.map_eq_some_iff]
    constructor
    · rintro ⟨⟨start', line'⟩, hlast, heq⟩
      have hstart : start' = start :=
        of_decide_eq_true (List.mem_filter.1 (List.mem_of_getLast? hlast)).2
      cases heq
      rw [hlast, hstart]
    · exact fun hlast => ⟨(start, line), hlast, rfl⟩

/-- **The line of an instruction** is that of the entry with the greatest offset among those that
start an instruction and are at its offset or before; of several entries with that offset, it is the
last one in the table. There is no line if there is no such entry. Here the code array is one whose
offsets fit. -/
theorem lineOf?_ofOffsets (hb : bytes.length ≤ 4294967296)
    (hd : DecodedCode.ofBytes pool bytes = .ok d) (table : List (ℕ × ℕ))
    (hk : d.offsets[k]? = some pc) :
    (∀ line, (ofOffsets table d).lineOf? k = some line ↔
      ∃ start ∈ d.offsets, start ≤ pc ∧
        (∀ e ∈ table, e.1 ∈ d.offsets → e.1 ≤ pc → e.1 ≤ start) ∧
        (table.filter fun e => e.1 = start).getLast? = some (start, line)) ∧
    ((ofOffsets table d).lineOf? k = none ↔ ∀ e ∈ table, e.1 ∈ d.offsets → pc < e.1) := by
  have ha := DecodedCode.ascending_offsets hb hd
  rw [ofOffsets_eq_ofList_placed]
  constructor
  · intro line
    refine (lineOf?_eq_some_iff (ascending_ofList (placed table d))).trans ?_
    simp only [decides_ofList_iff]
    constructor
    · rintro ⟨key, hdec⟩
      have hmem := (List.mem_filter.1 (List.mem_of_getLast? hdec.2.2)).1
      obtain ⟨start, hkey, -⟩ := (mem_placed_iff ha).1 hmem
      exact ⟨start, List.mem_of_getElem? hkey, (decides_placed_iff ha hk hkey).1 hdec⟩
    · rintro ⟨start, hmem, hdec⟩
      obtain ⟨key, hkey⟩ := List.mem_iff_getElem?.1 hmem
      exact ⟨key, (decides_placed_iff ha hk hkey).2 hdec⟩
  · refine (lineOf?_eq_none_iff (ofList (placed table d)).entries).trans ?_
    simp only [mem_ofList]
    constructor
    · rintro hnone ⟨start, line⟩ he hmem
      obtain ⟨key, hkey⟩ := List.mem_iff_getElem?.1 hmem
      have hlt := hnone (key, line) ((mem_placed_iff ha).2 ⟨start, hkey, he⟩)
      exact Nat.lt_of_not_le fun hle => Nat.not_le.2 hlt ((DecodedCode.le_iff ha hkey hk).2 hle)
    · rintro hnone ⟨key, line⟩ hplaced
      obtain ⟨start, hkey, he⟩ := (mem_placed_iff ha).1 hplaced
      have hlt := hnone (start, line) he (List.mem_of_getElem? hkey)
      exact Nat.lt_of_not_le fun hle => Nat.not_le.2 hlt ((DecodedCode.le_iff ha hkey hk).1 hle)

/-- A table for the loop, out of order: the switch has two entries, and one entry starts within it.
-/
def loopLines : List (ℕ × ℕ) := [(20, 7), (1, 5), (2, 9), (1, 6)]

/-- In the loop, the first instruction has no line, and the switch has that of its second entry. -/
theorem lineOf?_ofOffsets_loop :
    DecodedCode.loopBytes.length ≤ 4294967296 ∧
      DecodedCode.ofBytes ConstantTable.empty.pool DecodedCode.loopBytes = .ok DecodedCode.loopCode ∧
      DecodedCode.loopCode.offsets = [0, 1, 20, 23] ∧
      (ofOffsets loopLines DecodedCode.loopCode).lineOf? 0 = none ∧
      (ofOffsets loopLines DecodedCode.loopCode).lineOf? 1 = some 6 ∧
      (ofOffsets loopLines DecodedCode.loopCode).lineOf? 3 = some 7 := by
  have hoffset : ∀ {k pc : ℕ}, [0, 1, 20, 23][k]? = some pc →
      DecodedCode.loopCode.offsets[k]? = some pc := id
  have hfits : DecodedCode.loopBytes.length ≤ 4294967296 := by decide
  have hfirst := lineOf?_ofOffsets hfits DecodedCode.ofBytes_loop loopLines (hoffset (k := 0) rfl)
  have hswitch := lineOf?_ofOffsets hfits DecodedCode.ofBytes_loop loopLines (hoffset (k := 1) rfl)
  have hlast := lineOf?_ofOffsets hfits DecodedCode.ofBytes_loop loopLines (hoffset (k := 3) rfl)
  refine ⟨hfits, DecodedCode.ofBytes_loop, rfl, hfirst.2.2 (by decide), (hswitch.1 6).2 ⟨1, ?_⟩,
    (hlast.1 7).2 ⟨20, ?_⟩⟩
  · exact ⟨by decide, by decide, by decide, rfl⟩
  · exact ⟨by decide, by decide, by decide, rfl⟩

/-- An entry of an idle code array that fits but for one byte is found, and gives all instructions
behind it a line. -/
lemma lineOf?_idle {n k : ℕ} (hlow : 12 ≤ n) (hhigh : n ≤ 4294967297) (hk : 5 ≤ k) :
    (ofOffsets [(5, 9)] (DecodedCode.idleCode n)).lineOf? k = some 9 := by
  have hplaced : placed [(5, 9)] (DecodedCode.idleCode n) = [(5, 9)] := by
    simp [placed, DecodedCode.indexOf?_idle hhigh (show 5 < n / 2 by omega)]
  rw [ofOffsets_eq_ofList_placed, hplaced]
  simp [lineOf?, ofList, hk]

/-- In a code array of one byte more than 2³², the last instruction has the first offset once more.
No entry is at this offset or before, but there is a line. -/
theorem lineOf?_in_long_code :
    DecodedCode.ofBytes ConstantTable.empty.pool (List.replicate 4294967297 0) =
        .ok (DecodedCode.idleCode 4294967297) ∧
      (DecodedCode.idleCode 4294967297).offsets[4294967296]? = some 0 ∧
      (∀ e ∈ [(5, 9)], e.1 ∈ (DecodedCode.idleCode 4294967297).offsets → 0 < e.1) ∧
      (ofOffsets [(5, 9)] (DecodedCode.idleCode 4294967297)).lineOf? 4294967296 ≠ none := by
  refine ⟨DecodedCode.ofBytes_idle _ _, DecodedCode.getElem?_offsets_idle (by decide), ?_, ?_⟩
  · simp
  · rw [lineOf?_idle (by decide) (by decide) (by decide)]
    simp

end Bytecheck.LineTable
