import Mathlib.Tactic.Common
import Bytecheck.Proofs.Operands

/-!
Stack operations on words.

A stack can be read as a list of words, one for a narrow value and two halves for a wide one. On
words a stack operation is simple: it looks at the top words and those that they pass, and drops,
copies or exchanges them without a look at what they are. The operation on values has up to four
forms. It succeeds exactly where the one on words cuts no value in two and the result has room, and
it does to the values what is done to their words.
-/

namespace Bytecheck

/-! ### Words -/

/-- A slot of the stack: a narrow value, or one half of a wide one. -/
inductive Word where
  | whole (t : VType)
  | upper (t : VType)
  | lower (t : VType)
deriving DecidableEq

/-- The words of a value, the top one first. -/
def VType.words (t : VType) : List Word := if width t = 2 then [.upper t, .lower t] else [.whole t]

/-- The words of values, the top one first. -/
def wordsOf (l : List VType) : List Word := l.flatMap VType.words

/-- The words of a stack, the top one first. -/
def Stack.words (s : Stack) : List Word := wordsOf s.toList.reverse

/-- A cut below the given number of words goes through a wide value. -/
def Splits (ws : List Word) (k : ℕ) : Prop := ∃ t, ws[k]? = some (.lower t)

instance (ws : List Word) (k : ℕ) : Decidable (Splits ws k) :=
  match h : ws[k]? with
  | some (.lower t) => .isTrue ⟨t, h⟩
  | some (.upper _) | some (.whole _) | none => .isFalse fun ⟨_, ht⟩ => by rw [h] at ht; cases ht

namespace StackOp

/-- How many words are dropped, copied or exchanged. -/
def taken : StackOp → ℕ
  | .pop | .dup | .dupX1 | .dupX2 | .swap => 1
  | .pop2 | .dup2 | .dup2X1 | .dup2X2 => 2

/-- How many words below those are passed. -/
def passed : StackOp → ℕ
  | .pop | .pop2 | .dup | .dup2 => 0
  | .dupX1 | .dup2X1 | .swap => 1
  | .dupX2 | .dup2X2 => 2

/-- How many words the operation reaches. -/
def reach (o : StackOp) : ℕ := o.taken + o.passed

/-- What the items taken and those passed become, the top one first. -/
def arrange {α : Type} (o : StackOp) (a b : List α) : List α :=
  match o with
  | .pop | .pop2 => b
  | .swap => b ++ a
  | .dup | .dupX1 | .dupX2 | .dup2 | .dup2X1 | .dup2X2 => a ++ b ++ a

/-- The operation on words. -/
def onWords (o : StackOp) (ws : List Word) : List Word :=
  o.arrange (ws.take o.taken) ((ws.drop o.taken).take o.passed) ++ ws.drop o.reach

end StackOp

section Words

variable {x : VType} {l a b rest : List VType} {k n : ℕ}

@[simp] lemma wordsOf_nil : wordsOf [] = [] := rfl

@[simp] lemma wordsOf_cons : wordsOf (x :: l) = x.words ++ wordsOf l := by simp [wordsOf]

@[simp] lemma wordsOf_append : wordsOf (a ++ b) = wordsOf a ++ wordsOf b := by simp [wordsOf]

lemma length_words (x : VType) : x.words.length = width x := by
  unfold VType.words
  rcases Frame.width_two_or_one x with h | h <;> simp [h]

@[simp] lemma length_wordsOf (l : List VType) : (wordsOf l).length = slots l := by
  induction l with
  | nil => rfl
  | cons x l ih => simp [length_words, ih]

lemma Splits.append_iff {ws ws' : List Word} :
    Splits (ws ++ ws') (ws.length + k) ↔ Splits ws' k := by
  unfold Splits
  rw [List.getElem?_append_right (Nat.le_add_right _ _), Nat.add_sub_cancel_left]

/-- No cut on top of a value goes through it. -/
lemma not_splits_zero (l : List VType) : ¬ Splits (wordsOf l) 0 := by
  rintro ⟨t, ht⟩
  cases l with
  | nil => cases ht
  | cons x l =>
    unfold wordsOf VType.words at ht
    by_cases hx : width x = 2
    · simp [hx] at ht
    · simp [hx] at ht

/-- A cut is between two values if and only if it splits none. -/
lemma exists_cut_iff : (∃ a rest, l = a ++ rest ∧ slots a = k) ↔
    k ≤ (wordsOf l).length ∧ ¬ Splits (wordsOf l) k := by
  constructor
  · rintro ⟨a, rest, rfl, rfl⟩
    rw [wordsOf_append, ← length_wordsOf a, List.length_append]
    refine ⟨Nat.le_add_right _ _, ?_⟩
    exact Splits.append_iff.not.2 (not_splits_zero rest)
  · rintro ⟨hlen, hsplits⟩
    induction l generalizing k with
    | nil => exact ⟨[], [], rfl, (Nat.le_zero.1 hlen).symm⟩
    | cons x l ih =>
      by_cases hk : k = 0
      · exact ⟨[], x :: l, rfl, hk.symm⟩
      · have hwidth : width x ≤ k := by
          rcases Frame.width_two_or_one x with hx | hx
          · by_contra hlt
            -- the cut is below the upper half of the first value
            have hone : k = 1 := by omega
            exact hsplits ⟨x, by simp [VType.words, hx, hone]⟩
          · omega
        obtain ⟨j, rfl⟩ := Nat.exists_eq_add_of_le hwidth
        rw [wordsOf_cons, ← length_words x] at hsplits
        rw [wordsOf_cons, List.length_append, length_words] at hlen
        obtain ⟨a, rest, rfl, ha⟩ := ih (by omega) (Splits.append_iff.not.1 hsplits)
        exact ⟨x :: a, rest, rfl, by rw [slots_cons, ha]⟩

/-- Two cuts are between values if and only if they split none. -/
lemma exists_cuts_iff : (∃ a b rest, l = a ++ b ++ rest ∧ slots a = k ∧ slots b = n) ↔
    k + n ≤ (wordsOf l).length ∧ ¬ Splits (wordsOf l) k ∧ ¬ Splits (wordsOf l) (k + n) := by
  constructor
  · rintro ⟨a, b, rest, rfl, ha, hb⟩
    have hfirst := exists_cut_iff.1 ⟨a, b ++ rest, List.append_assoc a b rest, ha⟩
    have hboth := exists_cut_iff.1 ⟨a ++ b, rest, rfl, rfl⟩
    rw [slots_append, ha, hb] at hboth
    exact ⟨hboth.1, hfirst.2, hboth.2⟩
  · rintro ⟨hlen, hfirst, hsecond⟩
    obtain ⟨a, l', rfl, rfl⟩ := exists_cut_iff.2 ⟨by omega, hfirst⟩
    rw [wordsOf_append, ← length_wordsOf a] at hsecond
    rw [wordsOf_append, List.length_append, length_wordsOf] at hlen
    obtain ⟨b, rest, rfl, rfl⟩ :=
      exists_cut_iff.2 ⟨by omega, Splits.append_iff.not.1 hsecond⟩
    exact ⟨a, b, rest, (List.append_assoc a b rest).symm, rfl, rfl⟩

lemma StackOp.wordsOf_arrange (o : StackOp) (a b : List VType) :
    wordsOf (o.arrange a b) = o.arrange (wordsOf a) (wordsOf b) := by
  cases o <;> simp [StackOp.arrange]

/-- Values whose slots fill what the operation takes and passes are moved as their words are. -/
lemma StackOp.onWords_wordsOf {o : StackOp} (ha : slots a = o.taken) (hb : slots b = o.passed) :
    o.onWords (wordsOf (a ++ b ++ rest)) = wordsOf (o.arrange a b ++ rest) := by
  have hta : (wordsOf a).length = o.taken := by rw [length_wordsOf, ha]
  have htb : (wordsOf b).length = o.passed := by rw [length_wordsOf, hb]
  unfold onWords reach
  rw [wordsOf_append, wordsOf_append, wordsOf_append, wordsOf_arrange, ← hta, ← htb,
    ← List.length_append, List.drop_left, List.append_assoc, List.take_left, List.drop_left,
    List.take_left]

end Words

/-! ### Stack operations -/

namespace Stack

variable {s s' : Stack}

/-- Take values that fill the given number of slots. -/
def popSlots (s : Stack) : ℕ → Except TypeFault (List VType × Stack)
  | 0 => .ok ([], s)
  | 1 => s.popNarrow.map fun r => ([r.1], r.2)
  | n + 2 => do
    let (a, s) ← s.pop
    if width a = 1 then (popSlots s (n + 1)).map fun r => (a :: r.1, r.2)
    else (popSlots s n).map fun r => (a :: r.1, r.2)

lemma popSlots_add_two (s : Stack) (n : ℕ) : s.popSlots (n + 2) = s.pop >>= fun r =>
    (r.2.popSlots (n + 2 - width r.1)).map fun q => (r.1 :: q.1, q.2) := by
  rw [popSlots]
  refine bind_congr fun ⟨a, s₁⟩ => ?_
  dsimp only
  rcases Frame.width_two_or_one a with ha | ha
  · rw [if_neg (by omega), ha]
    rfl
  · rw [if_pos ha, ha]
    rfl

lemma popSlots_ok_iff {n : ℕ} {l : List VType} :
    s.popSlots n = .ok (l, s') ↔ s.Pops l s' ∧ slots l = n := by
  induction n using Nat.strongRecOn generalizing s l with
  | ind n ih =>
    have hlen := length_le_slots l
    match n with
    | 0 =>
      constructor
      · intro h
        cases h
        exact ⟨.nil _, rfl⟩
      · rintro ⟨hpops, hl⟩
        obtain rfl : l = [] := List.length_eq_zero_iff.1 (by omega)
        rw [pops_nil_iff.1 hpops]
        rfl
    | 1 =>
      rw [popSlots, map_ok_iff]
      constructor
      · rintro ⟨⟨a, s₁⟩, ha, h⟩
        cases h
        exact popNarrow_ok_iff.1 ha
      · rintro ⟨hpops, hl⟩
        obtain ⟨a, rfl⟩ : ∃ a, l = [a] := by
          match l with
          | [] => cases hl
          | [a] => exact ⟨a, rfl⟩
          | a :: b :: l =>
            rw [hl] at hlen
            simp at hlen
        exact ⟨(a, s'), popNarrow_ok_iff.2 ⟨hpops, hl⟩, rfl⟩
    | n + 2 =>
      rw [popSlots_add_two, bind_ok_iff]
      have hpos : ∀ a : VType, 1 ≤ width a ∧ width a ≤ 2 := fun a => by
        rcases Frame.width_two_or_one a with h | h <;> omega
      constructor
      · rintro ⟨⟨a, s₁⟩, ha, h⟩
        obtain ⟨⟨l₁, s₂⟩, hl, h⟩ := map_ok_iff.1 h
        cases h
        have ha' := hpos a
        obtain ⟨hpops, hl⟩ := (ih _ (by dsimp only; omega)).1 hl
        exact ⟨.cons ha hpops, by rw [slots_cons, hl]; dsimp only; omega⟩
      · rintro ⟨hpops, hl⟩
        cases l with
        | nil => cases hl
        | cons a l₁ =>
          obtain ⟨s₁, ha, hpops⟩ := pops_cons_iff.1 hpops
          rw [slots_cons] at hl
          have ha' := hpos a
          have hrest := (ih (n + 2 - width a) (by omega)).2 ⟨hpops, by omega⟩
          exact ⟨(a, s₁), ha, map_ok_iff.2 ⟨(l₁, s'), hrest, rfl⟩⟩

section PopSlots

variable {α : Type} {f : List VType × Stack → Except TypeFault α}

lemma popSlots_zero_bind : (s.popSlots 0 >>= f) = f ([], s) := rfl

lemma popSlots_one_bind :
    (s.popSlots 1 >>= f) = s.popNarrow >>= fun r => f ([r.1], r.2) := by
  rw [popSlots]
  cases s.popNarrow <;> rfl

lemma popSlots_two_bind :
    (s.popSlots 2 >>= f) = s.pop >>= fun r =>
      if width r.1 = 1 then r.2.popNarrow >>= fun q => f ([r.1, q.1], q.2) else f ([r.1], r.2) := by
  rw [popSlots]
  cases s.pop with
  | error e => rfl
  | ok r =>
    obtain ⟨a, s₁⟩ := r
    change ite _ _ _ >>= f = ite _ _ _
    split
    · rw [popSlots]
      cases s₁.popNarrow <;> rfl
    · rfl

end PopSlots

/-- **One program for all stack operations.** -/
lemma shuffle_eq (s : Stack) (o : StackOp) :
    s.shuffle o = (do
      let (a, s) ← s.popSlots o.taken
      let (b, s) ← s.popSlots o.passed
      .ok (s.append (o.arrange a b).reverse)) := by
  cases o
  all_goals
    simp only [StackOp.taken, StackOp.passed, popSlots_zero_bind, popSlots_one_bind,
      popSlots_two_bind]
    rfl

lemma shuffle_ok_iff {o : StackOp} : s.shuffle o = .ok s' ↔
    ∃ a b rest, s.Pops (a ++ b) rest ∧ slots a = o.taken ∧ slots b = o.passed ∧
      s' = rest.append (o.arrange a b).reverse := by
  rw [shuffle_eq, bind_ok_iff]
  constructor
  · rintro ⟨⟨a, s₁⟩, ha, h⟩
    obtain ⟨⟨b, s₂⟩, hb, h⟩ := bind_ok_iff.1 h
    cases h
    obtain ⟨ha, hslots⟩ := popSlots_ok_iff.1 ha
    obtain ⟨hb, hslots'⟩ := popSlots_ok_iff.1 hb
    exact ⟨a, b, s₂, pops_append_iff.2 ⟨s₁, ha, hb⟩, hslots, hslots', rfl⟩
  · rintro ⟨a, b, rest, hpops, ha, hb, rfl⟩
    obtain ⟨s₁, h1, h2⟩ := pops_append_iff.1 hpops
    refine ⟨(a, s₁), popSlots_ok_iff.2 ⟨h1, ha⟩, bind_ok_iff.2 ⟨(b, rest), ?_, rfl⟩⟩
    exact popSlots_ok_iff.2 ⟨h2, hb⟩

lemma shuffle_pile_iff {o : StackOp} {l : List VType} : (pile l).shuffle o = .ok s' ↔
    ∃ a b rest, l = a ++ b ++ rest ∧ slots a = o.taken ∧ slots b = o.passed ∧
      s' = pile (o.arrange a b ++ rest) := by
  rw [shuffle_ok_iff]
  constructor
  · rintro ⟨a, b, r, hpops, ha, hb, rfl⟩
    obtain ⟨rest, rfl, rfl⟩ := pops_pile_iff.1 hpops
    exact ⟨a, b, rest, rfl, ha, hb, by rw [pile_append, List.reverse_reverse]⟩
  · rintro ⟨a, b, rest, rfl, ha, hb, rfl⟩
    refine ⟨a, b, pile rest, pops_pile_iff.2 ⟨rest, rfl, rfl⟩, ha, hb, ?_⟩
    rw [pile_append, List.reverse_reverse]

lemma words_pile (l : List VType) : (pile l).words = wordsOf l := by
  rw [words, toList_pile, List.reverse_reverse]

end Stack

namespace Transfer

variable {c : Context} {i : ℕ} {f f' : Frame} {o : StackOp}

/-- A stack operation on a pile of values. -/
lemma step_stack_ok_iff {l : List VType} (hf : f.stack = Stack.pile l) :
    step c i (.op (.stack o)) f = .ok f' ↔
      ∃ a b rest, l = a ++ b ++ rest ∧ slots a = o.taken ∧ slots b = o.passed ∧
        slots (o.arrange a b ++ rest) ≤ c.maxStack ∧
        f' = ⟨f.locals, Stack.pile (o.arrange a b ++ rest)⟩ := by
  unfold step effect stepOp stackEffect
  simp only [bind_ok_iff, mapError_ok_iff, hf, Stack.shuffle_pile_iff]
  constructor
  · rintro ⟨f₁, ⟨s, ⟨a, b, rest, rfl, ha, hb, rfl⟩, h₁⟩, h⟩
    cases h₁
    split at h
    · cases h
    · rename_i hroom
      cases h
      rw [Frame.depth, Stack.height_pile] at hroom
      exact ⟨a, b, rest, rfl, ha, hb, Nat.le_of_not_lt hroom, rfl⟩
  · rintro ⟨a, b, rest, rfl, ha, hb, hroom, rfl⟩
    refine ⟨_, ⟨_, ⟨a, b, rest, rfl, ha, hb, rfl⟩, rfl⟩, if_neg ?_⟩
    rw [Frame.depth, Stack.height_pile]
    exact Nat.not_lt.2 hroom

/-- **Stack operations move words.** On a frame whose stack is what its values make it, a stack
operation succeeds if and only if there are enough words, neither of its cuts goes through a wide
value and the result has room. It then does to the words of the stack what it does to all words,
and leaves the locals alone. -/
theorem step_stack_moves_words (c : Context) (i : ℕ) (o : StackOp) {f : Frame}
    (hf : f.stack = .ofList f.stack.toList) :
    ((∃ f', step c i (.op (.stack o)) f = .ok f') ↔
      o.reach ≤ f.stack.words.length ∧ ¬ Splits f.stack.words o.taken ∧
        ¬ Splits f.stack.words o.reach ∧ (o.onWords f.stack.words).length ≤ c.maxStack) ∧
    ∀ f', step c i (.op (.stack o)) f = .ok f' →
      f'.stack.words = o.onWords f.stack.words ∧ f'.locals = f.locals ∧
        f'.stack = .ofList f'.stack.toList ∧ f'.depth = f'.stack.words.length := by
  rw [Stack.ofList_eq_pile] at hf
  generalize f.stack.toList.reverse = l at hf
  simp only [step_stack_ok_iff hf]
  rw [hf, Stack.words_pile]
  constructor
  · constructor
    · rintro ⟨-, a, b, rest, rfl, ha, hb, hroom, -⟩
      obtain ⟨hlen, hfirst, hsecond⟩ := exists_cuts_iff.1 ⟨a, b, rest, rfl, ha, hb⟩
      refine ⟨hlen, hfirst, hsecond, ?_⟩
      rw [StackOp.onWords_wordsOf ha hb, length_wordsOf]
      exact hroom
    · rintro ⟨hlen, hfirst, hsecond, hroom⟩
      obtain ⟨a, b, rest, rfl, ha, hb⟩ := exists_cuts_iff.2 ⟨hlen, hfirst, hsecond⟩
      rw [StackOp.onWords_wordsOf ha hb, length_wordsOf] at hroom
      exact ⟨_, a, b, rest, rfl, ha, hb, hroom, rfl⟩
  · rintro _ ⟨a, b, rest, rfl, ha, hb, -, rfl⟩
    rw [StackOp.onWords_wordsOf ha hb, Stack.ofList_eq_pile, Stack.words_pile, Stack.toList_pile,
      List.reverse_reverse, Frame.depth, Stack.height_pile, length_wordsOf]
    exact ⟨rfl, rfl, rfl, rfl⟩

/-! ### A double below an integer -/

namespace Mixed

def context : Context := ⟨ClassTable.hierarchy ⟨[]⟩, ⟨.object, .init, ⟨[], none⟩, ⟨1⟩⟩, 4⟩

def frame : Frame := ⟨[], .ofList [.double, .int]⟩

/-- The integer can be copied below the double, and half of the double cannot be copied. -/
theorem step_stack_moves_words_mixed : frame.stack = .ofList frame.stack.toList ∧
    (∃ f', step context 0 (.op (.stack .dupX2)) frame = .ok f' ∧
      f'.stack.words = [.whole .int, .upper .double, .lower .double, .whole .int]) ∧
    ¬ ∃ f', step context 0 (.op (.stack .dup2)) frame = .ok f' := by
  have hframe : frame.stack = .ofList frame.stack.toList := rfl
  have hcopy := step_stack_moves_words context 0 .dupX2 hframe
  have hsplit := step_stack_moves_words context 0 .dup2 hframe
  obtain ⟨f', hf'⟩ := hcopy.1.2 (by decide)
  exact ⟨hframe, ⟨f', hf', (hcopy.2 f' hf').1⟩, hsplit.1.not.2 (by decide)⟩

end Mixed

end Transfer

end Bytecheck
