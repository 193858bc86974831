import Mathlib.Tactic.Common
import Bytecheck.Proofs.Layout

/-!
The faults of code.

Code can break a rule at an instruction, at its end and in an entry of its exception table. Each
rule has a fault that names the place and what stands there (`Code.Breaks`). Flow graphs are built
for sound code only, and what is reported of other code is a rule that it breaks. The exception
table is looked at last: when the rest of the code is sound, an entry alone decides.
-/

namespace Bytecheck

namespace Code

/-- The code breaks a rule in the way that the fault says. -/
inductive Breaks (c : Code) : CodeFault → Prop
  | emptyCode : c.instructions = [] → Breaks c .emptyCode
  | subroutine {index : ℕ} {b : Branch ℕ} : c.instructions[index]? = some (.branch b) →
      b.isSubroutine = true → Breaks c (.subroutine index)
  | invalidJumpTarget {index target : ℕ} {i : Instruction ℕ} : c.instructions[index]? = some i →
      target ∈ i.targets → c.size ≤ target → Breaks c (.invalidJumpTarget index target)
  | localOutOfRange {index slot slots : ℕ} {o : Op} : c.instructions[index]? = some (.op o) →
      o.localAccess = some (slot, slots) → c.maxLocals < slot + slots →
      Breaks c (.localOutOfRange index slot c.maxLocals)
  | fallsOffEnd {index : ℕ} {i : Instruction ℕ} : c.instructions[index]? = some i →
      i.fallsThrough = true → index + 1 = c.size → Breaks c (.fallsOffEnd index)
  | invalidExceptionRange {entry : ℕ} {h : Handler} : c.handlers[entry]? = some h →
      h.stop ≤ h.start ∨ c.size < h.stop →
      Breaks c (.invalidExceptionRange entry h.start h.stop)
  | invalidHandlerTarget {entry : ℕ} {h : Handler} : c.handlers[entry]? = some h →
      c.size ≤ h.entry → Breaks c (.invalidHandlerTarget entry h.entry)

/-- The code with an entry of its exception table left out. -/
def without (c : Code) (entry : ℕ) : Code := { c with handlers := c.handlers.eraseIdx entry }

end Code

namespace Flow

variable {c : Code} {f : CodeFault}

/-! ### What is reported is broken -/

lemma breaks_of_instructionFault {index : ℕ} {i : Instruction ℕ}
    (hi : c.instructions[index]? = some i) (h : instructionFault c index i = some f) :
    c.Breaks f := by
  cases i with
  | branch b =>
    cases hb : b.isSubroutine with
    | true =>
      simp only [instructionFault, hb, if_true, Option.some.injEq] at h
      exact h ▸ .subroutine hi hb
    | false =>
      simp only [instructionFault, hb, Bool.false_eq_true, if_false, Option.map_eq_some_iff] at h
      obtain ⟨target, ht, rfl⟩ := h
      exact .invalidJumpTarget hi (List.mem_of_find?_eq_some ht)
        (by simpa using List.find?_some ht)
  | op o =>
    cases ho : o.localAccess with
    | none => simp [instructionFault, ho] at h
    | some access =>
      obtain ⟨slot, slots⟩ := access
      simp only [instructionFault, ho] at h
      split_ifs at h with hout
      cases h
      exact .localOutOfRange hi ho hout

lemma breaks_of_endFault (h : endFault c = some f) : c.Breaks f := by
  unfold endFault at h
  cases hl : c.instructions.getLast? with
  | none =>
    rw [hl] at h
    cases h
    exact .emptyCode (List.getLast?_eq_none_iff.1 hl)
  | some i =>
    simp only [hl] at h
    split_ifs at h with hf
    cases h
    have hi : c.instructions[c.size - 1]? = some i := by
      rw [← hl, List.getLast?_eq_getElem?]
      rfl
    exact .fallsOffEnd hi hf (Nat.sub_add_cancel (Nat.zero_lt_of_lt (Code.lt_size hi)))

lemma breaks_of_handlerFault {entry : ℕ} {h : Handler} (hh : c.handlers[entry]? = some h)
    (hf : handlerFault c entry h = some f) : c.Breaks f := by
  unfold handlerFault at hf
  split_ifs at hf with hrange htarget
  · cases hf
    exact .invalidExceptionRange hh hrange
  · cases hf
    exact .invalidHandlerTarget hh htarget

/-- The first fault is a rule that the code breaks. -/
lemma breaks_of_firstFault (h : firstFault c = some f) : c.Breaks f := by
  unfold firstFault at h
  simp only [Option.orElse_eq_orElse, Option.orElse_eq_or, Option.or_eq_some_iff] at h
  rcases h with h | ⟨-, h | ⟨-, h⟩⟩
  · obtain ⟨⟨i, index⟩, hi, hf⟩ := List.exists_of_findSome?_eq_some h
    exact breaks_of_instructionFault (List.mem_zipIdx_iff_getElem?.1 hi) hf
  · exact breaks_of_endFault h
  · obtain ⟨⟨r, entry⟩, hr, hf⟩ := List.exists_of_findSome?_eq_some h
    exact breaks_of_handlerFault (List.mem_zipIdx_iff_getElem?.1 hr) hf

/-- Code is sound if and only if it breaks no rule. -/
lemma sound_iff_not_breaks : c.Sound ↔ ∀ f, ¬ c.Breaks f := by
  constructor
  · intro hc f hf
    cases hf with
    | emptyCode h =>
      have hpos := hc.nonempty
      rw [Code.size, h] at hpos
      cases hpos
    | subroutine hi hb =>
      rw [hc.plain hi] at hb
      cases hb
    | invalidJumpTarget hi ht hout => exact absurd (hc.target hi ht) (Nat.not_lt.2 hout)
    | localOutOfRange hi ho hout => exact absurd (hc.access hi ho) (Nat.not_le.2 hout)
    | fallsOffEnd hi hf hend => exact absurd (hc.last hi hf) (Nat.not_lt.2 (Nat.le_of_eq hend.symm))
    | invalidExceptionRange hh hout =>
      have := hc.range (List.mem_of_getElem? hh)
      omega
    | invalidHandlerTarget hh hout =>
      exact absurd (hc.entry (List.mem_of_getElem? hh)) (Nat.not_lt.2 hout)
  · intro h
    cases hf : firstFault c with
    | none => exact sound_of_firstFault hf
    | some f => exact absurd (breaks_of_firstFault hf) (h f)

/-! ### A single entry of the exception table -/

/-- When one place alone can give a result, a search gives what that place gives. -/
lemma findSome?_zipIdx_of_alone {α β : Type} {l : List α} {F : α × ℕ → Option β} {n : ℕ} {x : α}
    (hx : l[n]? = some x) (halone : ∀ k y, k ≠ n → l[k]? = some y → F (y, k) = none) :
    l.zipIdx.findSome? F = F (x, n) := by
  have hplace : ∀ {y k b}, l[k]? = some y → F (y, k) = some b → F (x, n) = some b := by
    intro y k b hy hb
    by_cases hk : k = n
    · subst hk
      rw [hx] at hy
      cases hy
      exact hb
    · rw [halone k y hk hy] at hb
      cases hb
  cases hsearch : l.zipIdx.findSome? F with
  | none => exact (List.findSome?_eq_none_iff.1 hsearch _ (List.mem_zipIdx_iff_getElem?.2 hx)).symm
  | some b =>
    obtain ⟨⟨y, k⟩, hy, hb⟩ := List.exists_of_findSome?_eq_some hsearch
    exact (hplace (List.mem_zipIdx_iff_getElem?.1 hy) hb).symm

/-- The first fault of code that is sound but for an entry of its exception table is the fault of
the entry. -/
lemma firstFault_of_without {entry : ℕ} {h : Handler} (hc : (c.without entry).Sound)
    (hh : c.handlers[entry]? = some h) : firstFault c = handlerFault c entry h := by
  have hrest := firstFault_eq_none_iff.2 hc
  unfold firstFault at hrest ⊢
  simp only [Option.orElse_eq_orElse, Option.orElse_eq_or, Option.or_eq_none_iff] at hrest ⊢
  obtain ⟨hinstructions, hend, -⟩ := hrest
  -- the instructions and the end do not depend on the exception table
  have hinstructions' : (c.instructions.zipIdx.findSome? fun p => instructionFault c p.2 p.1) =
      none := hinstructions
  have hend' : endFault c = none := hend
  rw [hinstructions', hend', Option.none_or, Option.none_or]
  refine findSome?_zipIdx_of_alone hh fun k r hk hr => ?_
  have hmem : r ∈ (c.without entry).handlers := List.mem_eraseIdx_iff_getElem?.2 ⟨k, hk, hr⟩
  exact handlerFault_eq_none_iff.2 ⟨(hc.range hmem).1, (hc.range hmem).2, hc.entry hmem⟩

end Flow

namespace FlowGraph

variable {c : Code} {f : CodeFault}

lemma build_error_iff : build c = .error f ↔ Flow.firstFault c = some f := by
  unfold build
  cases Flow.firstFault c <;> simp

/-- **Flow graphs are built for sound code, and for no other.** Sound is the code that breaks no
rule, and what is reported instead of a graph is a rule that the code breaks, at the place that the
fault names. -/
theorem build_ok_iff_sound_or_breaks (c : Code) :
    ((∃ g, build c = .ok g) ↔ c.Sound) ∧ (c.Sound ↔ ∀ f, ¬ c.Breaks f) ∧
      ∀ f, build c = .error f → c.Breaks f := by
  refine ⟨⟨?_, fun hc => ⟨_, build_eq_ok_iff.2 ⟨hc, rfl⟩⟩⟩, Flow.sound_iff_not_breaks, fun f hf => ?_⟩
  · rintro ⟨g, hg⟩
    exact (build_eq_ok_iff.1 hg).1
  · exact Flow.breaks_of_firstFault (build_error_iff.1 hf)

/-- A wide local in slots 1 and 2, in a range that ends with the code. -/
def wideCode (maxLocals : ℕ) : Code where
  instructions := [.op (.load (.num .long) 1), .op (.stack .pop2), .branch (.leave none)]
  maxStack := 2
  maxLocals := maxLocals
  handlers := [⟨0, 3, 2, none⟩]

/-- The wide local fits into three slots, and into two it does not. -/
theorem build_ok_iff_sound_or_breaks_wide :
    (wideCode 3).Sound ∧ (∃ g, build (wideCode 3) = .ok g) ∧
      build (wideCode 2) = .error (.localOutOfRange 0 1 2) ∧ ¬ (wideCode 2).Sound ∧
      (wideCode 2).Breaks (.localOutOfRange 0 1 2) := by
  obtain ⟨hgraph, -, -⟩ := build_ok_iff_sound_or_breaks (wideCode 3)
  obtain ⟨-, hsound, hfault⟩ := build_ok_iff_sound_or_breaks (wideCode 2)
  have hfits : (wideCode 3).Sound := Flow.firstFault_eq_none_iff.1 rfl
  have hbuild : build (wideCode 2) = .error (.localOutOfRange 0 1 2) := rfl
  exact ⟨hfits, hgraph.2 hfits, hbuild, fun hc => hsound.1 hc _ (hfault _ hbuild), hfault _ hbuild⟩

end FlowGraph

end Bytecheck
