import Mathlib.Data.Int.Notation
import Mathlib.Data.List.Forall2
import Mathlib.Data.List.GetD
import Mathlib.Data.List.Nodup
import Mathlib.Tactic.Common
import Bytecheck.Decode.Code
import Bytecheck.Proofs.Outcomes

/-!
Labels of instructions and their replacement.

Replacing labels may fail, and undoing it does not: a label that stands for an instruction by its
index leads back to the distance it was read as. So relabelling an instruction succeeds with a given
result exactly when undoing it on the result gives the instruction, and the labels of the result are
indices of instructions.
-/

namespace Bytecheck

variable {ε α β κ : Type}

lemma mapM_ok_iff {f : α → Except ε β} {l : List α} {l' : List β} :
    l.mapM f = .ok l' ↔ List.Forall₂ (fun a b => f a = .ok b) l l' := by
  induction l generalizing l' with
  | nil => simp [pure, Except.pure, eq_comm]
  | cons a l ih =>
    rw [List.mapM_cons, bind_ok_iff]
    constructor
    · rintro ⟨b, hb, h⟩
      obtain ⟨bs, hbs, h⟩ := bind_ok_iff.1 h
      cases h
      exact .cons hb (ih.1 hbs)
    · intro h
      cases h with
      | cons hb hbs => exact ⟨_, hb, bind_ok_iff.2 ⟨_, ih.2 hbs, rfl⟩⟩

/-! ### Replacements that can be undone -/

/-- The first function replaces by just those values that have the property and that the second
function leads back from. -/
def UndoneBy (f : α → Except ε β) (p : β → Prop) (g : β → α) : Prop :=
  ∀ a b, f a = .ok b ↔ p b ∧ g b = a

namespace UndoneBy

variable {f : α → Except ε β} {p : β → Prop} {g : β → α}

lemma again (h : UndoneBy f p g) {b : β} (hb : p b) : f (g b) = .ok b := (h _ _).2 ⟨hb, rfl⟩

/-- A replacement next to a key. -/
lemma keyed (h : UndoneBy f p g) :
    UndoneBy (fun c : κ × α => do return (c.1, ← f c.2)) (fun c => p c.2)
      (fun c => (c.1, g c.2)) := by
  rintro ⟨k, a⟩ ⟨k', b⟩
  rw [bind_ok_iff]
  constructor
  · rintro ⟨b', hb', heq⟩
    cases heq
    obtain ⟨hp, rfl⟩ := (h _ _).1 hb'
    exact ⟨hp, rfl⟩
  · rintro ⟨hp, heq⟩
    cases heq
    exact ⟨b, h.again hp, rfl⟩

lemma mapM (h : UndoneBy f p g) :
    UndoneBy (fun l : List α => l.mapM f) (fun l => ∀ b ∈ l, p b) (List.map g) := by
  intro l l'
  rw [mapM_ok_iff]
  constructor
  · intro hl
    induction hl with
    | nil => simp
    | cons hb _ ih =>
      obtain ⟨hp, rfl⟩ := (h _ _).1 hb
      simpa [hp] using ih
  · rintro ⟨hp, rfl⟩
    rw [List.forall₂_map_left_iff, List.forall₂_same]
    exact fun b hb => h.again (hp b hb)

end UndoneBy

/-! ### Instructions as functions of their labels -/

variable {L M N : Type}

namespace Branch

/-- Replace every label. -/
def map (g : L → M) : Branch L → Branch M
  | .ifZero c t => .ifZero c (g t)
  | .ifInt c t => .ifInt c (g t)
  | .ifRef c t => .ifRef c (g t)
  | .ifNull c t => .ifNull c (g t)
  | .goto t => .goto (g t)
  | .tableSwitch fallback low ts => .tableSwitch (g fallback) low (ts.map g)
  | .lookupSwitch fallback cases => .lookupSwitch (g fallback) (cases.map fun c => (c.1, g c.2))
  | .leave k => .leave k
  | .athrow => .athrow
  | .jsr t => .jsr (g t)
  | .ret slot => .ret slot

lemma map_map (g : L → M) (k : M → N) (b : Branch L) : (b.map g).map k = b.map fun t => k (g t) := by
  cases b <;> simp [map, Function.comp_def]

lemma map_congr {g k : L → M} {b : Branch L} (h : ∀ t ∈ b.targets, g t = k t) : b.map g = b.map k := by
  cases b with
  | lookupSwitch fallback cases =>
    simp only [targets, List.mem_cons, List.mem_map, forall_eq_or_imp] at h
    simp only [map, h.1, lookupSwitch.injEq, true_and]
    exact List.map_congr_left fun c hc => by rw [h.2 c.2 ⟨c, hc, rfl⟩]
  | _ => simp_all [map, targets]

lemma targets_map (g : L → M) (b : Branch L) : (b.map g).targets = b.targets.map g := by
  cases b <;> simp [map, targets]

lemma mapLabels_undoneBy {f : L → Except ε M} {p : M → Prop} {g : M → L} (h : UndoneBy f p g) :
    UndoneBy (mapLabels f) (fun b => ∀ t ∈ b.targets, p t) (map g) := by
  intro b b'
  constructor
  · intro hb
    cases b with
    | tableSwitch fallback low ts =>
      obtain ⟨d, hd, hb⟩ := bind_ok_iff.1 hb
      obtain ⟨ts', hts, hb⟩ := bind_ok_iff.1 hb
      cases hb
      obtain ⟨hpd, rfl⟩ := (h _ _).1 hd
      obtain ⟨hpts, rfl⟩ := (h.mapM _ _).1 hts
      exact ⟨by simpa [targets] using ⟨hpd, hpts⟩, rfl⟩
    | lookupSwitch fallback cases =>
      obtain ⟨d, hd, hb⟩ := bind_ok_iff.1 hb
      obtain ⟨cases', hcases, hb⟩ := bind_ok_iff.1 hb
      cases hb
      obtain ⟨hpd, rfl⟩ := (h _ _).1 hd
      obtain ⟨hpcases, rfl⟩ := (h.keyed.mapM _ _).1 hcases
      exact ⟨by simpa [targets] using ⟨hpd, fun t k hk => hpcases (k, t) hk⟩, rfl⟩
    | leave | athrow | ret =>
      cases hb
      exact ⟨by simp [targets], rfl⟩
    | ifZero | ifInt | ifRef | ifNull | goto | jsr =>
      obtain ⟨u, hu, hb⟩ := bind_ok_iff.1 hb
      cases hb
      obtain ⟨hpu, rfl⟩ := (h _ _).1 hu
      exact ⟨by simpa [targets] using hpu, rfl⟩
  · rintro ⟨hp, rfl⟩
    cases b' with
    | tableSwitch fallback low ts =>
      obtain ⟨hd, hts⟩ : p fallback ∧ ∀ t ∈ ts, p t := by simpa [targets] using hp
      exact bind_ok_iff.2 ⟨_, h.again hd, bind_ok_iff.2 ⟨_, h.mapM.again hts, rfl⟩⟩
    | lookupSwitch fallback cases =>
      have hd : p fallback := hp _ List.mem_cons_self
      have hcases : ∀ c ∈ cases, p c.2 :=
        fun c hc => hp _ (List.mem_cons_of_mem _ (List.mem_map_of_mem hc))
      exact bind_ok_iff.2 ⟨_, h.again hd, bind_ok_iff.2 ⟨_, h.keyed.mapM.again hcases, rfl⟩⟩
    | leave | athrow | ret => rfl
    | ifZero | ifInt | ifRef | ifNull | goto | jsr =>
      exact bind_ok_iff.2 ⟨_, h.again (hp _ List.mem_cons_self), rfl⟩

end Branch

namespace Instruction

/-- Replace every label. -/
def map (g : L → M) : Instruction L → Instruction M
  | .op o => .op o
  | .branch b => .branch (b.map g)

lemma map_map (g : L → M) (k : M → N) (i : Instruction L) :
    (i.map g).map k = i.map fun t => k (g t) := by
  cases i with
  | op o => rfl
  | branch b => exact congrArg Instruction.branch (b.map_map g k)

lemma map_congr {g k : L → M} {i : Instruction L} (h : ∀ t ∈ i.targets, g t = k t) :
    i.map g = i.map k := by
  cases i with
  | op o => rfl
  | branch b => exact congrArg Instruction.branch (Branch.map_congr h)

lemma targets_map (g : L → M) (i : Instruction L) : (i.map g).targets = i.targets.map g := by
  cases i with
  | op o => rfl
  | branch b => exact b.targets_map g

end Instruction

/-! ### Distances and indices -/

namespace Decode

variable {offsets : List ℕ}

/-- The distance from an offset to the instruction with an index. -/
def distance (offsets : List ℕ) (offset index : ℕ) : ℤ := ((offsets.getD index 0 : ℕ) : ℤ) - offset

/-- An index that is found is that of the offset. -/
lemma getElem?_of_indexOf? {offset index : ℕ} (h : indexOf? offsets offset = some index) :
    offsets[index]? = some offset := by
  unfold indexOf? at h
  dsimp only at h
  split at h
  · rename_i hfound
    cases h
    exact hfound
  · cases h

/-- **A binary search comes to rest at an index** in the range searched, if the offsets behind it
are the greater ones. -/
lemma search_eq {offset index base size : ℕ} (hindex : base ≤ index ∧ index < base + size)
    (horder : ∀ j, base ≤ j → j < base + size → (offset < offsets.getD j 0 ↔ index < j)) :
    search offsets offset base size = index := by
  fun_induction search offsets offset base size with
  | case1 base size hsize => omega
  | case2 base size hsize mid hlt ih =>
    have hleft : index < mid := (horder mid (by omega) (by omega)).1 hlt
    exact ih (by omega) fun j _ _ => horder j (by omega) (by omega)
  | case3 base size hsize mid hge ih =>
    have hright : ¬ index < mid := fun hlt => hge ((horder mid (by omega) (by omega)).2 hlt)
    exact ih (by omega) fun j _ _ => horder j (by omega) (by omega)

/-- The index found at an offset is the place of the offset in the list. -/
lemma indexOf?_eq_some_iff (ha : offsets.Pairwise (· < ·)) {offset index : ℕ} :
    indexOf? offsets offset = some index ↔ offsets[index]? = some offset := by
  refine ⟨getElem?_of_indexOf?, fun h => ?_⟩
  obtain ⟨hlt, rfl⟩ := List.getElem?_eq_some_iff.1 h
  have hasc := List.pairwise_iff_getElem.1 ha
  have hrest : search offsets offsets[index] 0 offsets.length = index := by
    refine search_eq (by omega) fun j _ hj => ?_
    have hj : j < offsets.length := by omega
    rw [List.getD_eq_getElem _ _ hj]
    rcases Nat.lt_trichotomy index j with hij | rfl | hji
    · exact iff_of_true (hasc index j hlt hj hij) hij
    · simp
    · exact iff_of_false (Nat.lt_asymm (hasc j index hj hlt hji)) (Nat.lt_asymm hji)
  rw [indexOf?, hrest, if_pos h]

/-- The index is found at some offset. -/
def Found (offsets : List ℕ) (index : ℕ) : Prop := ∃ offset, indexOf? offsets offset = some index

lemma Found.lt_length {index : ℕ} (h : Found offsets index) : index < offsets.length := by
  obtain ⟨offset, hoffset⟩ := h
  exact (List.getElem?_eq_some_iff.1 (getElem?_of_indexOf? hoffset)).1

/-- In ascending offsets, every index is found. -/
lemma found_iff (ha : offsets.Pairwise (· < ·)) {index : ℕ} :
    Found offsets index ↔ index < offsets.length :=
  ⟨Found.lt_length, fun h =>
    ⟨offsets[index], (indexOf?_eq_some_iff ha).2 (List.getElem?_eq_getElem h)⟩⟩

lemma resolve_undoneBy (offsets : List ℕ) (offset : ℕ) :
    UndoneBy (resolve offsets offset) (Found offsets) (distance offsets offset) := by
  intro d index
  have hresolve : resolve offsets offset d = .ok index ↔
      0 ≤ (offset : ℤ) + d ∧ indexOf? offsets ((offset : ℤ) + d).toNat = some index := by
    unfold resolve
    dsimp only
    by_cases hneg : (offset : ℤ) + d < 0
    · rw [if_pos hneg]
      exact iff_of_false (by simp) fun h => by omega
    · rw [if_neg hneg, and_iff_right (Int.not_lt.1 hneg)]
      cases indexOf? offsets ((offset : ℤ) + d).toNat <;> simp
  have hdistance : ∀ {target : ℕ}, indexOf? offsets target = some index →
      distance offsets offset index = target - offset := by
    intro target h
    rw [distance, List.getD_eq_getElem?_getD, getElem?_of_indexOf? h, Option.getD_some]
  rw [hresolve]
  constructor
  · rintro ⟨hpos, hfound⟩
    refine ⟨⟨_, hfound⟩, ?_⟩
    rw [hdistance hfound]
    omega
  · rintro ⟨⟨target, hfound⟩, rfl⟩
    have htarget : (offset : ℤ) + distance offsets offset index = target := by
      rw [hdistance hfound]
      omega
    rw [htarget]
    exact ⟨by omega, hfound⟩

/-- **Relabelling is undone** by putting the distances back. -/
lemma relabel_undoneBy (offsets : List ℕ) (offset : ℕ) :
    UndoneBy (relabel offsets offset) (fun i => ∀ t ∈ i.targets, Found offsets t)
      (Instruction.map (distance offsets offset)) := by
  have hb := Branch.mapLabels_undoneBy (resolve_undoneBy offsets offset)
  intro i i'
  cases i with
  | op o => cases i' <;> simp [relabel, Instruction.map, Instruction.targets, eq_comm]
  | branch b =>
    cases i' with
    | op o' => simp [relabel, Instruction.map, map_ok_iff]
    | branch b' => simp [relabel, Instruction.map, Instruction.targets, map_ok_iff, hb b b']

end Decode

end Bytecheck
