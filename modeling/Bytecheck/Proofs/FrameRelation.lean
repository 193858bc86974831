import Mathlib.Data.List.Forall2
import Mathlib.Tactic.Common
import Bytecheck.Transfer.Step
import Bytecheck.Proofs.Outcomes

/-!
Relations between frames, slot by slot.

A relation on values is lifted to stacks, which must be equally high, and to locals, where an unset
slot stands for anything. Relations that tell kinds of values apart (`Alike`) are kept by the
operations that take operands from the stack and by writing a local.
-/

namespace Bytecheck

/-- A type that a value on the stack can have. -/
def VType.IsValue (x : VType) : Prop := x ≠ .top ∧ x ≠ .bottom

/-- The types that values have from the start: all but those that wait for a constructor. -/
def VType.isInitialized : VType → Bool
  | .int | .float | .double | .long | .null | .object _ => true
  | _ => false

/-- Stacks with as many values, related one by one. -/
inductive Stack.Rel (R : VType → VType → Prop) : Stack → Stack → Prop
  | empty : Rel R .empty .empty
  | push {s s' : Stack} {x y : VType} : Rel R s s' → R x y → Rel R (s.push x) (s'.push y)

/-- Related locals; an unset slot stands for whatever the other one holds. -/
def LocalRel (R : VType → VType → Prop) (x y : VType) : Prop := x ≠ .bottom ∧ y = .top ∨ R x y

/-- Every wide value is followed by an unset slot. -/
def Paired (locals : List VType) : Prop :=
  ∀ (i : ℕ) x, locals[i]? = some x → width x = 2 → locals[i + 1]? = some .top

/-- Frames with the given number of locals that are related slot by slot. -/
structure Frame.Rel (R : VType → VType → Prop) (n : ℕ) (f g : Frame) : Prop where
  stack : Stack.Rel R f.stack g.stack
  left : f.locals.length = n
  right : g.locals.length = n
  locals : ∀ (i : ℕ) x y, f.locals[i]? = some x → g.locals[i]? = some y → LocalRel R x y
  paired : Paired f.locals

/-- Relations on values that tell apart what instructions tell apart. -/
structure Alike (R : VType → VType → Prop) : Prop where
  values : ∀ {x y}, R x y → x.IsValue ∧ y.IsValue
  fixed : ∀ {x}, VType.isInitialized x = true → R x x
  num : ∀ {x} {n : Num}, R x n.vtype → x = n.vtype
  null : ∀ {x}, R x .null → x = .null
  object : ∀ {x r}, R x (.object r) → x = .null ∨ ∃ s, x = .object s
  this : ∀ {x}, R x .uninitThis → x = .uninitThis
  new : ∀ {x r o}, R x (.uninit r o) → ∃ o', x = .uninit r o'

namespace Alike

variable {R : VType → VType → Prop} {x y : VType}

/-- What is on the two sides, by the kind of the second value. -/
lemma cases (A : Alike R) (h : R x y) :
    (∃ n : Num, x = n.vtype ∧ y = n.vtype) ∨ (x = .null ∧ y = .null) ∨
      (∃ r, (x = .null ∨ ∃ s, x = .object s) ∧ y = .object r) ∨
      (x = .uninitThis ∧ y = .uninitThis) ∨
      ∃ r o o', x = .uninit r o ∧ y = .uninit r o' := by
  obtain ⟨-, htop, hbot⟩ := A.values h
  cases y with
  | top => exact absurd rfl htop
  | bottom => exact absurd rfl hbot
  | int => exact Or.inl ⟨.int, A.num (n := .int) h, rfl⟩
  | float => exact Or.inl ⟨.float, A.num (n := .float) h, rfl⟩
  | double => exact Or.inl ⟨.double, A.num (n := .double) h, rfl⟩
  | long => exact Or.inl ⟨.long, A.num (n := .long) h, rfl⟩
  | null => exact Or.inr (Or.inl ⟨A.null h, rfl⟩)
  | object r => exact Or.inr (Or.inr (Or.inl ⟨r, A.object h, rfl⟩))
  | uninitThis => exact Or.inr (Or.inr (Or.inr (Or.inl ⟨A.this h, rfl⟩)))
  | uninit r o =>
    obtain ⟨o', ho⟩ := A.new h
    exact Or.inr (Or.inr (Or.inr (Or.inr ⟨r, o', o, ho, rfl⟩)))

lemma width_eq (A : Alike R) (h : R x y) : width x = width y := by
  rcases A.cases h with ⟨n, rfl, rfl⟩ | ⟨rfl, rfl⟩ | ⟨r, rfl | ⟨s, rfl⟩, rfl⟩ | ⟨rfl, rfl⟩ |
    ⟨r, o, o', rfl, rfl⟩ <;> rfl

lemma isReference_eq (A : Alike R) (h : R x y) : x.isReference = y.isReference := by
  rcases A.cases h with ⟨n, rfl, rfl⟩ | ⟨rfl, rfl⟩ | ⟨r, rfl | ⟨s, rfl⟩, rfl⟩ | ⟨rfl, rfl⟩ |
    ⟨r, o, o', rfl, rfl⟩ <;> rfl

lemma this_iff (A : Alike R) (h : R x y) : x = .uninitThis ↔ y = .uninitThis := by
  rcases A.cases h with ⟨n, rfl, rfl⟩ | ⟨rfl, rfl⟩ | ⟨r, rfl | ⟨s, rfl⟩, rfl⟩ | ⟨rfl, rfl⟩ |
    ⟨r, o, o', rfl, rfl⟩ <;> simp

lemma num_iff (A : Alike R) (h : R x y) (n : Num) : x = n.vtype ↔ y = n.vtype := by
  rcases A.cases h with ⟨m, rfl, rfl⟩ | ⟨rfl, rfl⟩ | ⟨r, rfl | ⟨s, rfl⟩, rfl⟩ | ⟨rfl, rfl⟩ |
    ⟨r, o, o', rfl, rfl⟩ <;> cases n <;> simp [Num.vtype]

lemma vtype_num (A : Alike R) (n : Num) : R n.vtype n.vtype := A.fixed (by cases n <;> rfl)

lemma vtype_field (A : Alike R) (t : FieldType) : R (.ofField t) (.ofField t) := by
  refine A.fixed ?_
  rcases t with b | r
  · cases b <;> rfl
  · rfl

lemma vtype_constant (A : Alike R) (k : Constant) : R k.vtype k.vtype := by
  cases k with
  | dynamic _ t => exact A.vtype_field t
  | _ => exact A.fixed rfl

end Alike

/-! ### The operand stack -/

namespace Stack

variable {R : VType → VType → Prop} {E : TypeFault → Prop} {s s' : Stack}

/-- What taking a value gives on related stacks. -/
def PopRel (R : VType → VType → Prop) (a b : VType × Stack) : Prop := R a.1 b.1 ∧ Rel R a.2 b.2

lemma Rel.pop (h : Rel R s s') : Follows (PopRel R) E (Stack.pop s) (Stack.pop s') := by
  cases h with
  | empty => exact .of_error _ _
  | push h hxy => exact .ok ⟨hxy, h⟩

lemma Rel.append (h : Rel R s s') {l l' : List VType} (hl : List.Forall₂ R l l') :
    Rel R (s.append l) (s'.append l') := by
  induction hl generalizing s s' with
  | nil => exact h
  | cons hxy _ ih => exact ih (h.push hxy)

lemma map_push {φ : VType → VType} {x : VType} (h : width (φ x) = width x) :
    SlotVec.map φ (s.push x) = SlotVec.push (SlotVec.map φ s) (φ x) := by
  simp [SlotVec.map, SlotVec.push, h]

lemma Rel.map (h : Rel R s s') {φ ψ : VType → VType}
    (hφ : ∀ x y, R x y → R (φ x) (ψ y) ∧ width (φ x) = width x ∧ width (ψ y) = width y) :
    Rel R (SlotVec.map φ s) (SlotVec.map ψ s') := by
  induction h with
  | empty => exact .empty
  | push _ hxy ih =>
    obtain ⟨h1, h2, h3⟩ := hφ _ _ hxy
    rw [map_push h2, map_push h3]
    exact ih.push h1

lemma Rel.height_eq (A : Alike R) (h : Rel R s s') : s.height = s'.height := by
  induction h with
  | empty => rfl
  | push _ hxy ih => rw [SlotVec.height_push, SlotVec.height_push, ih, A.width_eq hxy]

lemma Rel.map_width (A : Alike R) (h : Rel R s s') :
    s.toList.map width = s'.toList.map width := by
  induction h with
  | empty => rfl
  | push _ hxy ih => simp [SlotVec.toList_push, ih, A.width_eq hxy]

lemma Rel.size_eq (h : Rel R s s') : s.size = s'.size := by
  induction h with
  | empty => rfl
  | push _ _ ih =>
    unfold SlotVec.size at ih ⊢
    simp [SlotVec.push, ih]

lemma Rel.top?_this (A : Alike R) (h : Rel R s s') :
    s.top? = some .uninitThis ↔ s'.top? = some .uninitThis := by
  cases h with
  | empty => rfl
  | push h hxy => simpa [SlotVec.top?, SlotVec.push] using A.this_iff hxy

lemma Rel.popNarrow (A : Alike R) (h : Rel R s s') :
    Follows (PopRel R) E (Stack.popNarrow s) (Stack.popNarrow s') := by
  refine h.pop.bind fun ⟨x, r⟩ ⟨y, r'⟩ hab => ?_
  exact .ite (by rw [A.width_eq hab.1]) (fun _ => .ok hab) fun _ => .of_error _ _

lemma Rel.popExact (A : Alike R) (n : Num) (h : Rel R s s') :
    Follows (Rel R) E (Stack.popExact n.vtype s) (Stack.popExact n.vtype s') := by
  refine h.pop.bind fun ⟨x, r⟩ ⟨y, r'⟩ hab => ?_
  exact .ite (A.num_iff hab.1 n) (fun _ => .ok hab.2) fun _ => .of_error _ _

lemma Rel.popAll (A : Alike R) (ns : List Num) (h : Rel R s s') :
    Follows (Rel R) E (Stack.popAll s (ns.map Num.vtype)) (Stack.popAll s' (ns.map Num.vtype)) := by
  refine Follows.foldlM _ (fun a b t ht hab => ?_) h
  obtain ⟨n, -, rfl⟩ := List.mem_map.1 ht
  exact hab.popExact A n

lemma Rel.popReference (A : Alike R) (h : Rel R s s') :
    Follows (PopRel R) E (Stack.popReference s) (Stack.popReference s') := by
  refine h.pop.bind fun ⟨x, r⟩ ⟨y, r'⟩ hab => ?_
  exact .ite (by rw [A.isReference_eq hab.1]) (fun _ => .ok hab) fun _ => .of_error _ _

lemma Rel.popInitialized (A : Alike R) (h : Rel R s s') :
    Follows (PopRel R) E (Stack.popInitialized s) (Stack.popInitialized s') := by
  refine h.pop.bind fun ⟨x, r⟩ ⟨y, r'⟩ hab => ?_
  obtain ⟨hxy, -⟩ := id hab
  rcases A.cases hxy with ⟨n, rfl, rfl⟩ | ⟨rfl, rfl⟩ | ⟨c, rfl | ⟨d, rfl⟩, rfl⟩ | ⟨rfl, rfl⟩ |
    ⟨c, o, o', rfl, rfl⟩
  · cases n <;> exact .of_error _ _
  · exact .ok hab
  · exact .ok hab
  · exact .ok hab
  · exact .of_error _ _
  · exact .of_error _ _

lemma Rel.shuffle (A : Alike R) (h : Rel R s s') (o : StackOp) :
    Follows (Rel R) E (Stack.shuffle s o) (Stack.shuffle s' o) := by
  -- related values fill related lists
  have l2 : ∀ {a a' b b'}, R a a' → R b b' → List.Forall₂ R [a, b] [a', b'] :=
    fun h1 h2 => .cons h1 (.cons h2 .nil)
  have l3 : ∀ {a a' b b' c c'}, R a a' → R b b' → R c c' → List.Forall₂ R [a, b, c] [a', b', c'] :=
    fun h1 h2 h3 => .cons h1 (l2 h2 h3)
  have l4 : ∀ {a a' b b' c c' d d'}, R a a' → R b b' → R c c' → R d d' →
      List.Forall₂ R [a, b, c, d] [a', b', c', d'] := fun h1 h2 h3 h4 => .cons h1 (l3 h2 h3 h4)
  cases o with
  | pop => exact (h.popNarrow A).bind fun _ _ h1 => .ok h1.2
  | pop2 =>
    refine h.pop.bind fun ⟨a, s⟩ ⟨a', s'⟩ ha => ?_
    refine .ite (by rw [A.width_eq ha.1]) (fun _ => ?_) fun _ => .ok ha.2
    exact (ha.2.popNarrow A).bind fun _ _ hb => .ok hb.2
  | dup => exact (h.popNarrow A).bind fun _ _ ha => .ok (ha.2.append (l2 ha.1 ha.1))
  | dupX1 =>
    refine (h.popNarrow A).bind fun ⟨a, s⟩ ⟨a', s'⟩ ha => ?_
    exact (ha.2.popNarrow A).bind fun _ _ hb => .ok (hb.2.append (l3 ha.1 hb.1 ha.1))
  | dupX2 =>
    refine (h.popNarrow A).bind fun ⟨a, s⟩ ⟨a', s'⟩ ha => ?_
    refine ha.2.pop.bind fun ⟨b, s⟩ ⟨b', s'⟩ hb => ?_
    refine .ite (by rw [A.width_eq hb.1]) (fun _ => ?_) fun _ => ?_
    · exact (hb.2.popNarrow A).bind fun _ _ hc => .ok (hc.2.append (l4 ha.1 hc.1 hb.1 ha.1))
    · exact .ok (hb.2.append (l3 ha.1 hb.1 ha.1))
  | dup2 =>
    refine h.pop.bind fun ⟨a, s⟩ ⟨a', s'⟩ ha => ?_
    refine .ite (by rw [A.width_eq ha.1]) (fun _ => ?_) fun _ => .ok (ha.2.append (l2 ha.1 ha.1))
    exact (ha.2.popNarrow A).bind fun _ _ hb => .ok (hb.2.append (l4 hb.1 ha.1 hb.1 ha.1))
  | dup2X1 =>
    refine h.pop.bind fun ⟨a, s⟩ ⟨a', s'⟩ ha => ?_
    refine .ite (by rw [A.width_eq ha.1]) (fun _ => ?_) fun _ => ?_
    · refine (ha.2.popNarrow A).bind fun ⟨b, s⟩ ⟨b', s'⟩ hb => ?_
      exact (hb.2.popNarrow A).bind fun _ _ hc =>
        .ok (hc.2.append (.cons hb.1 (l4 ha.1 hc.1 hb.1 ha.1)))
    · exact (ha.2.popNarrow A).bind fun _ _ hb => .ok (hb.2.append (l3 ha.1 hb.1 ha.1))
  | dup2X2 =>
    refine h.pop.bind fun ⟨a, s⟩ ⟨a', s'⟩ ha => ?_
    refine .ite (by rw [A.width_eq ha.1]) (fun _ => ?_) fun _ => ?_
    · refine (ha.2.popNarrow A).bind fun ⟨b, s⟩ ⟨b', s'⟩ hb => ?_
      refine hb.2.pop.bind fun ⟨c, s⟩ ⟨c', s'⟩ hc => ?_
      refine .ite (by rw [A.width_eq hc.1]) (fun _ => ?_) fun _ => ?_
      · exact (hc.2.popNarrow A).bind fun _ _ hd =>
          .ok (hd.2.append (.cons hb.1 (.cons ha.1 (l4 hd.1 hc.1 hb.1 ha.1))))
      · exact .ok (hc.2.append (.cons hb.1 (l4 ha.1 hc.1 hb.1 ha.1)))
    · refine ha.2.pop.bind fun ⟨b, s⟩ ⟨b', s'⟩ hb => ?_
      refine .ite (by rw [A.width_eq hb.1]) (fun _ => ?_) fun _ => ?_
      · exact (hb.2.popNarrow A).bind fun _ _ hc => .ok (hc.2.append (l4 ha.1 hc.1 hb.1 ha.1))
      · exact .ok (hb.2.append (l3 ha.1 hb.1 ha.1))
  | swap =>
    refine (h.popNarrow A).bind fun ⟨a, s⟩ ⟨a', s'⟩ ha => ?_
    exact (ha.2.popNarrow A).bind fun _ _ hb => .ok (hb.2.append (l2 ha.1 hb.1))

end Stack

/-! ### Locals -/

namespace Frame

variable {R : VType → VType → Prop} {n slot : ℕ} {l l' : List VType} {t u : VType}

lemma isWideAt_iff {i : ℕ} : isWideAt l i = true ↔ ∃ x, l[i]? = some x ∧ width x = 2 := by
  unfold isWideAt
  cases l[i]? <;> simp

lemma width_two_or_one (x : VType) : width x = 2 ∨ width x = 1 := by
  cases x <;> first | exact Or.inl rfl | exact Or.inr rfl

lemma getElem?_unsetIf (c : Bool) {i : ℕ} (hi : i < l.length) (j : ℕ) :
    (unsetIf c i l)[j]? = if c = true ∧ j = i then some .top else l[j]? := by
  unfold unsetIf
  cases c with
  | false => simp
  | true =>
    by_cases hj : j = i
    · subst hj
      simp [hi]
    · simp [hj, List.getElem?_set_ne (Ne.symm hj)]

lemma length_unsetIf (c : Bool) (i : ℕ) : (unsetIf c i l).length = l.length := by
  cases c <;> simp [unsetIf]

lemma length_write (slot : ℕ) (t : VType) : (write l slot t).length = l.length := by
  unfold write
  split <;> simp [length_unsetIf]

lemma paired_unsetIf (hp : Paired l) (c : Bool) {i : ℕ} (hi : i < l.length) :
    Paired (unsetIf c i l) := by
  intro j x hx hw
  rw [getElem?_unsetIf c hi] at hx ⊢
  by_cases hj : c = true ∧ j = i
  · rw [if_pos hj] at hx
    cases hx
    simp [width] at hw
  · rw [if_neg hj] at hx
    rw [hp j x hx hw]
    split <;> rfl

/-- The slot after a wide value is unset already. -/
lemma unsetIf_isWideAt (hp : Paired l) (i : ℕ) : unsetIf (isWideAt l i) (i + 1) l = l := by
  unfold unsetIf
  split
  · rename_i hw
    obtain ⟨x, hx, hw⟩ := isWideAt_iff.1 hw
    have htop := hp i x hx hw
    refine List.ext_getElem? fun j => ?_
    by_cases hj : i + 1 = j
    · subst hj
      rw [htop]
      simp [(List.getElem?_eq_some_iff.1 htop).1]
    · rw [List.getElem?_set_ne hj]
  · rfl

/-- **Writing a local**: where wide values are followed by an unset slot, only a wide value that
loses its second half changes beside the slots written. -/
lemma getElem?_write (hp : Paired l) (hs : slot + width t ≤ l.length) (i : ℕ) :
    (write l slot t)[i]? =
      if i = slot then some t
      else if i = slot + 1 ∧ width t = 2 then some .top
      else if i + 1 = slot ∧ isWideAt l i = true then some .top
      else l[i]? := by
  have hpos : 1 ≤ width t := by rcases width_two_or_one t with h | h <;> omega
  have hprev : slot - 1 < l.length := by omega
  have hc := paired_unsetIf hp (0 < slot && isWideAt l (slot - 1)) hprev
  have hget := getElem?_unsetIf (0 < slot && isWideAt l (slot - 1)) hprev i
  have hlen := length_unsetIf (l := l) (0 < slot && isWideAt l (slot - 1)) (slot - 1)
  unfold write
  simp only
  generalize unsetIf (0 < slot && isWideAt l (slot - 1)) (slot - 1) l = cleared at hc hget hlen ⊢
  -- what becomes of a slot that is not written
  have hother : i ≠ slot → cleared[i]? =
      if i + 1 = slot ∧ isWideAt l i = true then some .top else l[i]? := by
    intro hi
    rw [hget]
    by_cases h : i + 1 = slot
    · subst h
      simp
    · rw [if_neg fun h' => h (by
        have := h'.1
        simp only [Bool.and_eq_true, decide_eq_true_eq] at this
        omega), if_neg fun h' => h h'.1]
  rw [unsetIf_isWideAt hc, unsetIf_isWideAt hc slot]
  by_cases hw : width t = 2
  · rw [if_pos hw]
    by_cases h1 : i = slot
    · subst h1
      rw [if_pos rfl, List.getElem?_set_ne (by omega), List.getElem?_set_self (by omega)]
    · by_cases h2 : i = slot + 1
      · subst h2
        rw [if_neg h1, if_pos ⟨rfl, hw⟩, List.getElem?_set_self (by rw [List.length_set]; omega)]
      · rw [if_neg h1, if_neg fun h => h2 h.1, List.getElem?_set_ne (Ne.symm h2),
          List.getElem?_set_ne (Ne.symm h1), hother h1]
  · rw [if_neg hw]
    by_cases h1 : i = slot
    · subst h1
      rw [if_pos rfl, List.getElem?_set_self (by omega)]
    · rw [if_neg h1, if_neg fun h => hw h.2, List.getElem?_set_ne (Ne.symm h1), hother h1]

lemma paired_write (hp : Paired l) (hs : slot + width t ≤ l.length) : Paired (write l slot t) := by
  have htop : width VType.top = 1 := rfl
  intro i x hx hw
  rw [getElem?_write hp hs] at hx ⊢
  split at hx
  · cases hx
    rw [if_neg (by omega), if_pos ⟨by omega, hw⟩]
  · split at hx
    · cases hx
      omega
    · split at hx
      · cases hx
        omega
      · rename_i h1 h2 h3
        have hnot : i + 1 ≠ slot := fun h => h3 ⟨h, isWideAt_iff.2 ⟨x, hx, hw⟩⟩
        rw [if_neg hnot, if_neg (by omega), hp i x hx hw]
        split <;> rfl

lemma Rel.exists_left {f g : Frame} (h : Rel R n f g) {i : ℕ} {y : VType}
    (hy : g.locals[i]? = some y) : ∃ x, f.locals[i]? = some x ∧ LocalRel R x y := by
  have hi : i < n := h.right ▸ (List.getElem?_eq_some_iff.1 hy).1
  have hx := List.getElem?_eq_getElem (h.left.symm ▸ hi : i < f.locals.length)
  exact ⟨_, hx, h.locals i _ y hx hy⟩

lemma Rel.exists_right {f g : Frame} (h : Rel R n f g) {i : ℕ} {x : VType}
    (hx : f.locals[i]? = some x) : ∃ y, g.locals[i]? = some y ∧ LocalRel R x y := by
  have hi : i < n := h.left ▸ (List.getElem?_eq_some_iff.1 hx).1
  have hy := List.getElem?_eq_getElem (h.right.symm ▸ hi : i < g.locals.length)
  exact ⟨_, hy, h.locals i x _ hx hy⟩

/-- Locals under a related list are paired too. -/
lemma Rel.paired_right (A : Alike R) {f g : Frame} (h : Rel R n f g) : Paired g.locals := by
  intro i y hy hw
  obtain ⟨x, hx, ⟨-, rfl⟩ | hxy⟩ := h.exists_left hy
  · simp [width] at hw
  · have htop := h.paired i x hx (A.width_eq hxy ▸ hw)
    obtain ⟨z, hz, ⟨-, rfl⟩ | htz⟩ := h.exists_right htop
    · exact hz
    · exact absurd rfl (A.values htz).1.1

lemma Rel.set (A : Alike R) {f g : Frame} (h : Rel R n f g) (htu : R t u)
    {E : InternalFault → Prop} :
    Follows (Rel R n) E (f.set slot t) (g.set slot u) := by
  have hp := h.paired_right A
  have hwidth := A.width_eq htu
  have htop : width VType.top = 1 := rfl
  rw [set_eq, set_eq]
  refine .ite (by rw [h.left, h.right, hwidth]) (fun _ => .of_error _ _) fun hs => .ok ?_
  have hf : slot + width t ≤ f.locals.length := by rw [h.left, hwidth, ← h.right]; omega
  have hg : slot + width u ≤ g.locals.length := by omega
  refine ⟨h.stack, (length_write slot t).trans h.left, (length_write slot u).trans h.right, ?_,
    paired_write h.paired hf⟩
  intro i x y hx hy
  rw [getElem?_write h.paired hf] at hx
  rw [getElem?_write hp hg] at hy
  by_cases h1 : i = slot
  · rw [if_pos h1] at hx hy
    cases hx
    cases hy
    exact Or.inr htu
  rw [if_neg h1] at hx hy
  by_cases h2 : i = slot + 1 ∧ width u = 2
  · rw [if_pos (hwidth ▸ h2)] at hx
    rw [if_pos h2] at hy
    cases hx
    cases hy
    exact Or.inl ⟨by simp, rfl⟩
  rw [if_neg (hwidth ▸ h2)] at hx
  rw [if_neg h2] at hy
  -- a wide value is lost on the left whenever it is on the right
  by_cases h3 : i + 1 = slot ∧ isWideAt g.locals i = true
  · rw [if_pos h3] at hy
    cases hy
    split at hx
    · cases hx
      exact Or.inl ⟨by simp, rfl⟩
    · obtain ⟨y', hy', -⟩ := isWideAt_iff.1 h3.2
      rcases h.locals i x y' hx hy' with ⟨hx', -⟩ | hxy
      · exact Or.inl ⟨hx', rfl⟩
      · exact Or.inl ⟨(A.values hxy).1.2, rfl⟩
  · rw [if_neg h3] at hy
    split at hx
    · rename_i h4
      cases hx
      obtain ⟨x', hx', hw⟩ := isWideAt_iff.1 h4.2
      rcases h.locals i x' y hx' hy with ⟨-, rfl⟩ | hxy
      · exact Or.inl ⟨by simp, rfl⟩
      · exact absurd ⟨h4.1, isWideAt_iff.2 ⟨y, hy, A.width_eq hxy ▸ hw⟩⟩ h3
    · exact h.locals i x y hx hy

/-- Two values and all their copies are replaced by related ones. -/
lemma Rel.replace (A : Alike R) {f g : Frame} (h : Rel R n f g) {x y : VType}
    (hcopy : ∀ a b, R a b → (a = x ↔ b = y)) (hxy : R x y) (htu : R t u)
    (hwidth : width y = width u) : Rel R n (f.replace x t) (g.replace y u) := by
  have hx : width t = width x := by rw [A.width_eq htu, A.width_eq hxy, hwidth]
  have htop : width VType.top = 1 := rfl
  have hchange : ∀ a b, R a b → R (if a = x then t else a) (if b = y then u else b) := by
    intro a b hab
    by_cases ha : a = x
    · rw [if_pos ha, if_pos ((hcopy a b hab).1 ha)]
      exact htu
    · rw [if_neg ha, if_neg fun hb => ha ((hcopy a b hab).2 hb)]
      exact hab
  have hkeep : ∀ {a b c : VType}, width c = width b → width (if a = b then c else a) = width a := by
    intro a b c h
    by_cases hab : a = b
    · rw [if_pos hab, h, hab]
    · rw [if_neg hab]
  obtain ⟨⟨hx1, -⟩, hy1, -⟩ := A.values hxy
  refine ⟨h.stack.map fun a b hab => ⟨hchange a b hab, hkeep hx, hkeep hwidth.symm⟩,
    by simp [Frame.replace, h.left], by simp [Frame.replace, h.right], ?_, ?_⟩
  · intro i a' b' ha' hb'
    simp only [Frame.replace, List.getElem?_map, Option.map_eq_some_iff] at ha' hb'
    obtain ⟨a, ha, rfl⟩ := ha'
    obtain ⟨b, hb, rfl⟩ := hb'
    rcases h.locals i a b ha hb with ⟨hbot, rfl⟩ | hab
    · refine Or.inl ⟨?_, if_neg (Ne.symm hy1)⟩
      split
      · exact (A.values htu).1.2
      · exact hbot
    · exact Or.inr (hchange a b hab)
  · intro i a' ha' hw
    simp only [Frame.replace, List.getElem?_map, Option.map_eq_some_iff] at ha' ⊢
    obtain ⟨a, ha, rfl⟩ := ha'
    rw [hkeep hx] at hw
    exact ⟨.top, h.paired i a ha hw, if_neg (Ne.symm hx1)⟩

end Frame

end Bytecheck
