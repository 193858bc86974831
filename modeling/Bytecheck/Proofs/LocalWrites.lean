import Mathlib.Tactic.Common
import Bytecheck.Proofs.Subsumption

/-!
Writing a local variable.

A wide value takes two locals, and the second one is unset. A value that is written can take the
second half of a wide value, its first half, or the first half of the next one, and a wide value can
do two of these at once. The first half that is lost below is unset by the write; a second half that
is left behind above is unset already. So a write changes what it writes and at most one local
beside it, and wide values are in two halves again.
-/

namespace Bytecheck.Frame

variable {f : Frame} {l : List VType} {slot : ℕ} {t : VType}

lemma setInto_of_lt (h : f.locals.length < slot + width t) :
    f.setInto slot t = (.error (.localOutOfRange (slot + width t - 1) f.locals.length), f) :=
  if_pos h

lemma setInto_of_le (h : slot + width t ≤ f.locals.length) :
    f.setInto slot t = (.ok (), { f with locals := write f.locals slot t }) :=
  if_neg (Nat.not_lt.2 h)

/-- A wide value that loses its first half leaves an unset local behind. -/
lemma getElem?_write_behind (hp : Paired l) (hs : slot + width t ≤ l.length) {j : ℕ}
    (hj : slot ≤ j) (hw : isWideAt l j = true) : (write l slot t)[j + 1]? = some .top := by
  obtain ⟨x, hx, hw⟩ := isWideAt_iff.1 hw
  rw [getElem?_write hp hs, if_neg (by omega)]
  split
  · rfl
  · rw [if_neg (by omega)]
    exact hp j x hx hw

/-- **A write is exact.** Where every wide local is followed by one that exists and is unset,
setting a local fails if and only if the value does not fit into the frame, and then the frame is as
it was. Otherwise the value is in its place, followed by an unset local if it is wide; a wide value
just below it is unset, and all other locals are as they were, the second half of a wide value that
was overwritten being unset. The stack is as it was, and every wide local is followed by an unset
one. -/
theorem setInto_exact (hp : Paired f.locals) (slot : ℕ) (t : VType) :
    ((∃ fault, (f.setInto slot t).1 = .error fault) ↔ f.locals.length < slot + width t) ∧
    (f.locals.length < slot + width t → (f.setInto slot t).2 = f) ∧
    (slot + width t ≤ f.locals.length → ∃ g, f.setInto slot t = (.ok (), g) ∧
      g.locals[slot]? = some t ∧
      (width t = 2 → g.locals[slot + 1]? = some .top) ∧
      (∀ j, j + 1 = slot → isWideAt f.locals j = true → g.locals[j]? = some .top) ∧
      (∀ j, j ≠ slot → ¬ (j = slot + 1 ∧ width t = 2) →
        ¬ (j + 1 = slot ∧ isWideAt f.locals j = true) → g.locals[j]? = f.locals[j]?) ∧
      (∀ j, slot ≤ j → j < slot + width t → isWideAt f.locals j = true →
        g.locals[j + 1]? = some .top) ∧
      g.stack = f.stack ∧ Paired g.locals) := by
  refine ⟨⟨?_, fun h => ?_⟩, fun h => by rw [setInto_of_lt h], fun h => ?_⟩
  · rintro ⟨fault, hfault⟩
    by_contra hle
    rw [setInto_of_le (Nat.not_lt.1 hle)] at hfault
    cases hfault
  · rw [setInto_of_lt h]
    exact ⟨_, rfl⟩
  · have hget := getElem?_write (t := t) hp h
    refine ⟨_, setInto_of_le h, ?_, ?_, ?_, ?_, ?_, rfl, paired_write hp h⟩
    · rw [hget, if_pos rfl]
    · intro hw
      rw [hget, if_neg (by omega), if_pos ⟨rfl, hw⟩]
    · intro j hj hw
      rw [hget, if_neg (by omega), if_neg (by omega), if_pos ⟨hj, hw⟩]
    · intro j h1 h2 h3
      rw [hget, if_neg h1, if_neg h2, if_neg h3]
    · exact fun j hj _ hw => getElem?_write_behind hp h hj hw

namespace Overlap

/-- A frame with two wide locals side by side. -/
def crowded : Frame := ⟨[.long, .top, .double, .top, .int], .ofList [.float]⟩

/-- A wide value over the second half of one wide local and the first half of the next: both of them
are lost, and nothing else. -/
theorem setInto_exact_crowded :
    Paired crowded.locals ∧ ∃ g, crowded.setInto 1 .double = (.ok (), g) ∧
      g.locals[0]? = some .top ∧ g.locals[1]? = some .double ∧ g.locals[2]? = some .top ∧
      g.locals[3]? = some .top ∧ g.locals[4]? = some .int ∧ g.stack = crowded.stack ∧
      Paired g.locals := by
  have hp : Paired crowded.locals := by decide
  obtain ⟨g, hg, hvalue, hsecond, hbelow, hothers, hbehind, hstack, hpaired⟩ :=
    (setInto_exact hp 1 .double).2.2 (by decide)
  exact ⟨hp, g, hg, hbelow 0 rfl rfl, hvalue, hsecond rfl, hbehind 2 (by decide) (by decide) rfl,
    hothers 4 (by decide) (by decide) (by decide), hstack, hpaired⟩

end Overlap

end Bytecheck.Frame
