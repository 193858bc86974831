import Mathlib.Data.List.Forall2
import Mathlib.Tactic.Common
import Bytecheck.Proofs.Monotonicity

/-!
The order of frames, and the merge as its least upper bound.

The merge of two frames is an upper bound for every order of values that has the join as an upper
bound (`Upper`): for the order of verification types over a tree of classes, and for the order that
tells kinds of values apart only, whatever the classes are. For the first one it is the least upper
bound, and it exists as soon as there is an upper bound.
-/

namespace Bytecheck

/-! ### Stacks as lists -/

namespace Stack

variable {R : VType → VType → Prop} {s s' : Stack}

lemma ofList_concat (l : List VType) (x : VType) :
    SlotVec.ofList (l ++ [x]) = (SlotVec.ofList l).push x := by
  simp [SlotVec.ofList, SlotVec.append]

lemma rel_iff : Rel R s s' ↔
    s = .ofList s.toList ∧ s' = .ofList s'.toList ∧ List.Forall₂ R s.toList s'.toList := by
  constructor
  · intro h
    induction h with
    | empty => exact ⟨rfl, rfl, .nil⟩
    | push _ hxy ih =>
      obtain ⟨h1, h2, h3⟩ := ih
      refine ⟨?_, ?_, ?_⟩
      · rw [SlotVec.toList_push, ofList_concat, ← h1]
      · rw [SlotVec.toList_push, ofList_concat, ← h2]
      · rw [SlotVec.toList_push, SlotVec.toList_push]
        exact List.rel_append h3 (.cons hxy .nil)
  · rintro ⟨h1, h2, h3⟩
    rw [h1, h2]
    exact Rel.empty.append h3

lemma Rel.exists_left (h : Rel R s s') {i : ℕ} {y : VType} (hy : s'.toList[i]? = some y) :
    ∃ x, s.toList[i]? = some x ∧ R x y := by
  obtain ⟨hlen, hall⟩ := List.forall₂_iff_get.1 (rel_iff.1 h).2.2
  obtain ⟨hi, rfl⟩ := List.getElem?_eq_some_iff.1 hy
  exact ⟨_, List.getElem?_eq_getElem (hlen ▸ hi), hall i (hlen ▸ hi) hi⟩

lemma Rel.exists_right (h : Rel R s s') {i : ℕ} {x : VType} (hx : s.toList[i]? = some x) :
    ∃ y, s'.toList[i]? = some y ∧ R x y := by
  obtain ⟨hlen, hall⟩ := List.forall₂_iff_get.1 (rel_iff.1 h).2.2
  obtain ⟨hi, rfl⟩ := List.getElem?_eq_some_iff.1 hx
  exact ⟨_, List.getElem?_eq_getElem (hlen ▸ hi), hall i hi (hlen ▸ hi)⟩

lemma Rel.trans {S T : VType → VType → Prop} (hRS : ∀ x y z, R x y → S y z → T x z)
    {u : Stack} (h1 : Rel R s s') (h2 : Rel S s' u) : Rel T s u := by
  have hlists : ∀ {l l' l'' : List VType}, List.Forall₂ R l l' → List.Forall₂ S l' l'' →
      List.Forall₂ T l l'' := by
    intro l l' l'' hl hl'
    induction hl generalizing l'' with
    | nil =>
      cases hl'
      exact .nil
    | cons hxy _ ih =>
      cases hl' with
      | cons hyz hl' => exact .cons (hRS _ _ _ hxy hyz) (ih hl')
  obtain ⟨h3, -, h4⟩ := rel_iff.1 h1
  obtain ⟨-, h5, h6⟩ := rel_iff.1 h2
  exact rel_iff.2 ⟨h3, h5, hlists h4 h6⟩

lemma Rel.imp {S : VType → VType → Prop} (h : Rel R s s') (hRS : ∀ {x y}, R x y → S x y) :
    Rel S s s' := by
  induction h with
  | empty => exact .empty
  | push _ hxy ih => exact ih.push (hRS hxy)

lemma Rel.left {S : VType → VType → Prop} (h : Rel R s s') (hRS : ∀ {x y}, R x y → S x x) :
    Rel S s s := by
  induction h with
  | empty => exact .empty
  | push _ hxy ih => exact ih.push (hRS hxy)

lemma Rel.right {S : VType → VType → Prop} (h : Rel R s s') (hRS : ∀ {x y}, R x y → S y y) :
    Rel S s' s' := by
  induction h with
  | empty => exact .empty
  | push _ hxy ih => exact ih.push (hRS hxy)

end Stack

/-! ### The order of frames -/

/-- Orders of values that have the join as an upper bound. -/
structure Upper (h : Hierarchy) (R : VType → VType → Prop) : Prop extends Alike R where
  refl : ∀ {x}, VType.IsValue x → R x x
  trans : ∀ {x y z}, R x y → R y z → R x z
  join : ∀ {x y}, VType.IsValue x → VType.IsValue y → x.join h y ≠ .bottom →
    R x (x.join h y) ∧ R y (x.join h y)

/-- Frames that hold values, with wide ones in two slots. -/
def Frame.Good (n : ℕ) (f : Frame) : Prop := Frame.Rel (Diag VType.IsValue) n f f

variable {R : VType → VType → Prop} {h : Hierarchy} {n : ℕ} {f g k m : Frame}

lemma Frame.eq_of (hlocals : f.locals = g.locals) (hstack : f.stack = g.stack) : f = g := by
  cases f
  cases g
  cases hlocals
  cases hstack
  rfl

lemma Frame.Good.local_ne_bottom (hf : f.Good n) {i : ℕ} {x : VType} (hx : f.locals[i]? = some x) :
    x ≠ .bottom := by
  rcases hf.locals i x x hx hx with ⟨hb, -⟩ | ⟨-, hv⟩
  · exact hb
  · exact hv.2

lemma Frame.Good.stack_isValue (hf : f.Good n) {x : VType} (hx : x ∈ f.stack.toList) :
    x.IsValue := (List.forall₂_same.1 (Stack.rel_iff.1 hf.stack).2.2 x hx).2

lemma Frame.Rel.good_left (A : Alike R) (hfg : Frame.Rel R n f g) : f.Good n where
  stack := hfg.stack.left fun hxy => ⟨rfl, (A.values hxy).1⟩
  left := hfg.left
  right := hfg.left
  locals := by
    intro i x y hx hy
    rw [hx] at hy
    cases hy
    obtain ⟨y, -, ⟨hb, -⟩ | hxy⟩ := hfg.exists_right hx
    · by_cases htop : x = .top
      · exact Or.inl ⟨hb, htop⟩
      · exact Or.inr ⟨rfl, htop, hb⟩
    · exact Or.inr ⟨rfl, (A.values hxy).1⟩
  paired := hfg.paired

/-- A set of values that is closed upwards holds the values of the upper frame too. -/
lemma Frame.Rel.diag_right {V : VType → Prop} (A : Alike R) (hfg : Frame.Rel R n f g)
    (hV : ∀ {x y}, V x → R x y → V y) (hf : Frame.Rel (Diag V) n f f) :
    Frame.Rel (Diag V) n g g where
  stack := (hf.stack.trans (S := R) (T := fun _ y => V y) (fun _ _ _ hxy hyz =>
    hV (hxy.1 ▸ hxy.2) hyz) hfg.stack).right fun hy => ⟨rfl, hy⟩
  left := hfg.right
  right := hfg.right
  locals := by
    intro i y y' hy hy'
    rw [hy] at hy'
    cases hy'
    obtain ⟨x, hx, ⟨-, rfl⟩ | hxy⟩ := hfg.exists_left hy
    · exact Or.inl ⟨by simp, rfl⟩
    · rcases hf.locals i x x hx hx with ⟨-, rfl⟩ | ⟨-, hVx⟩
      · exact absurd rfl (A.values hxy).1.1
      · exact Or.inr ⟨rfl, hV hVx hxy⟩
  paired := hfg.paired_right A

lemma Frame.Rel.good_right (A : Alike R) (hfg : Frame.Rel R n f g) : g.Good n :=
  hfg.diag_right A (fun _ hxy => (A.values hxy).2) (hfg.good_left A)

lemma Frame.Rel.imp {S : VType → VType → Prop} (hfg : Frame.Rel R n f g)
    (hRS : ∀ {x y}, R x y → S x y) : Frame.Rel S n f g where
  stack := hfg.stack.imp hRS
  left := hfg.left
  right := hfg.right
  locals := fun i x y hx hy => (hfg.locals i x y hx hy).imp_right hRS
  paired := hfg.paired

/-- Related frames in a row: an unset slot stays unset from there on. -/
lemma Frame.Rel.trans {S T : VType → VType → Prop} (hRS : ∀ x y z, R x y → S y z → T x z)
    (hR : ∀ x y, R x y → x ≠ .bottom) (hS : ∀ y z, S y z → y ≠ .top) (hfg : Frame.Rel R n f g)
    (hgk : Frame.Rel S n g k) : Frame.Rel T n f k where
  stack := hfg.stack.trans hRS hgk.stack
  left := hfg.left
  right := hgk.right
  locals := by
    intro i x z hx hz
    obtain ⟨y, hy, ⟨hb, rfl⟩ | hxy⟩ := hfg.exists_right hx
    · rcases hgk.locals i _ z hy hz with ⟨-, rfl⟩ | hyz
      · exact Or.inl ⟨hb, rfl⟩
      · exact absurd rfl (hS _ _ hyz)
    · rcases hgk.locals i y z hy hz with ⟨-, rfl⟩ | hyz
      · exact Or.inl ⟨hR _ _ hxy, rfl⟩
      · exact Or.inr (hRS x y z hxy hyz)
  paired := hfg.paired

namespace Upper

lemma rel_refl (U : Upper h R) (hf : f.Good n) : Frame.Rel R n f f :=
  hf.imp fun ⟨hxy, hx⟩ => hxy ▸ U.refl hx

lemma rel_trans (U : Upper h R) (hfg : Frame.Rel R n f g) (hgk : Frame.Rel R n g k) :
    Frame.Rel R n f k :=
  hfg.trans (S := R) (T := R) (fun _ _ _ => U.trans) (fun _ _ h => (U.values h).1.2)
    (fun _ _ h => (U.values h).1.1) hgk

end Upper

/-! ### The merge -/

namespace Frame

lemma joinStack_cons (o : ℕ) (x u : VType) (es : List (ℕ × VType)) (us : List VType) :
    joinStack h ((o, x) :: es) (u :: us) =
      if x.join h u = .bottom then .error (.incompatibleMerge o x u)
      else (joinStack h es us).map (x.join h u :: ·) := by
  rw [joinStack]
  split
  · rename_i hj
    rw [if_pos hj]
  · rename_i hj
    rw [if_neg hj]

/-- Stacks are joined value by value; `bottom` is a fault. -/
lemma joinStack_eq_ok_iff {es : List (ℕ × VType)} {us js : List VType} :
    joinStack h es us = .ok js ↔
      .bottom ∉ List.zipWith (VType.join h) (es.map Prod.snd) us ∧
        js = List.zipWith (VType.join h) (es.map Prod.snd) us := by
  induction es generalizing us js with
  | nil => cases us <;> simp [joinStack, eq_comm]
  | cons e es ih =>
    cases us with
    | nil => simp [joinStack, eq_comm]
    | cons u us =>
      obtain ⟨o, x⟩ := e
      rw [joinStack_cons]
      by_cases hj : x.join h u = .bottom
      · simp [hj]
      · rw [if_neg hj]
        cases hr : joinStack h es us with
        | error e =>
          have hmem : VType.bottom ∈ List.zipWith (VType.join h) (es.map Prod.snd) us := by
            by_contra hb
            have := ih.2 ⟨hb, rfl⟩
            rw [hr] at this
            cases this
          simp [Except.map, hmem]
        | ok ks =>
          obtain ⟨h1, rfl⟩ := ih.1 hr
          simp [Except.map, Ne.symm hj, h1, eq_comm]

/-- The frame of the joins of two frames. -/
def joins (h : Hierarchy) (f g : Frame) : Frame :=
  ⟨List.zipWith (joinLocal h) f.locals g.locals,
    .ofList (List.zipWith (VType.join h) f.stack.toList g.stack.toList)⟩

@[simp] lemma toList_joins : (joins h f g).stack.toList =
    List.zipWith (VType.join h) f.stack.toList g.stack.toList := SlotVec.toList_ofList _

lemma sameShape_iff : f.sameShape g = true ↔
    f.stack.toList.length = g.stack.toList.length ∧ f.depth = g.depth := by
  unfold sameShape SlotVec.size SlotVec.toList
  simp only [Bool.and_eq_true, decide_eq_true_eq, List.length_map, List.length_reverse]

lemma merge_eq_ok_iff : f.merge h g = .ok m ↔
    f.sameShape g = true ∧
      .bottom ∉ List.zipWith (VType.join h) f.stack.toList g.stack.toList ∧ m = joins h f g := by
  rw [merge_eq]
  by_cases hs : f.sameShape g = true
  · rw [if_pos hs, bind_ok_iff]
    constructor
    · rintro ⟨js, hj, hm⟩
      obtain ⟨h1, rfl⟩ := joinStack_eq_ok_iff.1 hj
      cases hm
      exact ⟨hs, h1, rfl⟩
    · rintro ⟨-, h1, rfl⟩
      exact ⟨_, joinStack_eq_ok_iff.2 ⟨h1, rfl⟩, rfl⟩
  · rw [if_neg hs]
    simp [hs]

lemma joinLocal_ne_bottom (x y : VType) : joinLocal h x y ≠ .bottom := by
  unfold joinLocal
  split
  · simp
  · assumption

lemma joinLocal_eq (x y : VType) :
    joinLocal h x y = if x.join h y = .bottom then .top else x.join h y := by
  unfold joinLocal
  split
  · rename_i hj
    rw [if_pos hj]
  · rename_i hj
    rw [if_neg hj]

lemma joinLocal_top_left (y : VType) : joinLocal h .top y = .top := by
  rw [joinLocal_eq]
  cases y <;> simp [VType.join]

lemma joinLocal_top_right (x : VType) : joinLocal h x .top = .top := by
  rw [joinLocal_eq]
  cases x <;> simp [VType.join]

end Frame

namespace Upper

lemma forall₂_zipWith (U : Upper h R) {l l' : List VType} (hlen : l.length = l'.length)
    (hl : ∀ x ∈ l, x.IsValue) (hl' : ∀ x ∈ l', x.IsValue)
    (hb : .bottom ∉ List.zipWith (VType.join h) l l') :
    List.Forall₂ R l (List.zipWith (VType.join h) l l') ∧
      List.Forall₂ R l' (List.zipWith (VType.join h) l l') := by
  induction l generalizing l' with
  | nil =>
    cases l' with
    | nil => exact ⟨.nil, .nil⟩
    | cons y l' => cases hlen
  | cons x l ih =>
    cases l' with
    | nil => cases hlen
    | cons y l' =>
      simp only [List.zipWith_cons_cons, List.mem_cons, not_or] at hb
      obtain ⟨h1, h2⟩ := U.join (hl x List.mem_cons_self) (hl' y List.mem_cons_self) (Ne.symm hb.1)
      obtain ⟨h3, h4⟩ := ih (Nat.succ.inj hlen) (fun z hz => hl z (List.mem_cons_of_mem _ hz))
        (fun z hz => hl' z (List.mem_cons_of_mem _ hz)) hb.2
      exact ⟨.cons h1 h3, .cons h2 h4⟩

lemma localRel_joinLocal (U : Upper h R) {x y : VType} (hx : x ≠ .bottom) (hy : y ≠ .bottom) :
    LocalRel R x (Frame.joinLocal h x y) ∧ LocalRel R y (Frame.joinLocal h x y) := by
  by_cases hxt : x = .top
  · rw [hxt, Frame.joinLocal_top_left]
    exact ⟨Or.inl ⟨by simp, rfl⟩, Or.inl ⟨hy, rfl⟩⟩
  by_cases hyt : y = .top
  · rw [hyt, Frame.joinLocal_top_right]
    exact ⟨Or.inl ⟨hx, rfl⟩, Or.inl ⟨by simp, rfl⟩⟩
  rw [Frame.joinLocal_eq]
  split
  · exact ⟨Or.inl ⟨hx, rfl⟩, Or.inl ⟨hy, rfl⟩⟩
  · rename_i hj
    obtain ⟨h1, h2⟩ := U.join ⟨hxt, hx⟩ ⟨hyt, hy⟩ hj
    exact ⟨Or.inr h1, Or.inr h2⟩

/-- **A merge is an upper bound.** -/
theorem rel_merge (U : Upper h R) (hf : f.Good n) (hg : g.Good n) (hm : f.merge h g = .ok m) :
    Frame.Rel R n f m ∧ Frame.Rel R n g m := by
  obtain ⟨hs, hb, rfl⟩ := Frame.merge_eq_ok_iff.1 hm
  obtain ⟨hf1, -, -⟩ := Stack.rel_iff.1 hf.stack
  obtain ⟨hg1, -, -⟩ := Stack.rel_iff.1 hg.stack
  have hlen := (Frame.sameShape_iff.1 hs).1
  obtain ⟨h1, h2⟩ :=
    U.forall₂_zipWith hlen (fun _ => hf.stack_isValue) (fun _ => hg.stack_isValue) hb
  have hlocals : ∀ (i : ℕ) z, (Frame.joins h f g).locals[i]? = some z →
      ∃ x y, f.locals[i]? = some x ∧ g.locals[i]? = some y ∧ z = Frame.joinLocal h x y ∧
        LocalRel R x z ∧ LocalRel R y z := by
    intro i z hz
    simp only [Frame.joins, List.getElem?_zipWith_eq_some] at hz
    obtain ⟨x, y, hx, hy, rfl⟩ := hz
    obtain ⟨h3, h4⟩ := U.localRel_joinLocal (h := h) (hf.local_ne_bottom hx) (hg.local_ne_bottom hy)
    exact ⟨x, y, hx, hy, rfl, h3, h4⟩
  have hlength : (Frame.joins h f g).locals.length = n := by
    simp [Frame.joins, hf.left, hg.left]
  constructor
  · refine ⟨?_, hf.left, hlength, ?_, hf.paired⟩
    · rw [hf1]
      exact Stack.Rel.empty.append h1
    · intro i x z hx hz
      obtain ⟨x', -, hx', -, -, h3, -⟩ := hlocals i z hz
      rw [hx] at hx'
      cases hx'
      exact h3
  · refine ⟨?_, hg.left, hlength, ?_, hg.paired⟩
    · rw [hg1]
      exact Stack.Rel.empty.append h2
    · intro i y z hy hz
      obtain ⟨-, y', -, hy', -, -, h4⟩ := hlocals i z hz
      rw [hy] at hy'
      cases hy'
      exact h4

end Upper

/-! ### Kinds of values -/

/-- The order that tells kinds of values apart only: `null` and objects of all classes are below
objects of all classes, and everything else is below itself alone. -/
def Kindred (x y : VType) : Prop :=
  x.IsValue ∧ y.IsValue ∧ (x = y ∨ (x = .null ∨ ∃ r, x = .object r) ∧ ∃ s, y = .object s)

lemma kindred_alike : Alike Kindred where
  values := fun h => ⟨h.1, h.2.1⟩
  fixed := fun hx => ⟨universe_isValue.fixed hx, universe_isValue.fixed hx, Or.inl rfl⟩
  num := by
    rintro x n ⟨-, -, h | ⟨-, s, hs⟩⟩
    · exact h
    · cases n <;> cases hs
  null := by
    rintro x ⟨-, -, h | ⟨-, s, hs⟩⟩
    · exact h
    · cases hs
  object := by
    rintro x r ⟨-, -, h | ⟨h, -⟩⟩
    · exact Or.inr ⟨r, h⟩
    · exact h
  this := by
    rintro x ⟨-, -, h | ⟨-, s, hs⟩⟩
    · exact h
    · cases hs
  new := by
    rintro x r o ⟨-, -, h | ⟨-, s, hs⟩⟩
    · exact ⟨o, h⟩
    · cases hs

/-- Whatever the classes are, a join is of the kind of both values. -/
lemma kindred_upper (h : Hierarchy) : Upper h Kindred where
  toAlike := kindred_alike
  refl := fun hx => ⟨hx, hx, Or.inl rfl⟩
  trans := by
    rintro x y z ⟨hx, -, rfl | ⟨hxo, s, rfl⟩⟩ ⟨-, hz, hyz⟩
    · exact ⟨hx, hz, hyz⟩
    · rcases hyz with rfl | ⟨-, hzo⟩
      · exact ⟨hx, hz, Or.inr ⟨hxo, s, rfl⟩⟩
      · exact ⟨hx, hz, Or.inr ⟨hxo, hzo⟩⟩
  join := by
    intro x y hx hy hj
    have hobject : ∀ r : RefType, VType.IsValue (.object r) := fun r => universe_isValue.fixed rfl
    unfold VType.join at hj ⊢
    by_cases hxy : x = y
    · rw [if_pos hxy]
      exact ⟨⟨hx, hx, Or.inl rfl⟩, hy, hx, Or.inl hxy.symm⟩
    · rw [if_neg hxy] at hj ⊢
      split at hj
      · exact ⟨⟨hx, hobject _, Or.inr ⟨Or.inl rfl, _, rfl⟩⟩, hy, hobject _, Or.inl rfl⟩
      · exact ⟨⟨hx, hobject _, Or.inl rfl⟩, hy, hobject _, Or.inr ⟨Or.inl rfl, _, rfl⟩⟩
      · exact ⟨⟨hx, hobject _, Or.inr ⟨Or.inr ⟨_, rfl⟩, _, rfl⟩⟩, hy, hobject _,
          Or.inr ⟨Or.inr ⟨_, rfl⟩, _, rfl⟩⟩
      · exact absurd rfl hj

/-! ### The order of verification types -/

section Lower

variable {t : ClassTable} {u : Frame}

lemma ClassTable.Rooted.upper (hr : t.Rooted) : Upper t.hierarchy (Lower t) where
  toAlike := lower_alike t
  refl := fun hx => ⟨.refl _, hx, hx⟩
  trans := fun h1 h2 => ⟨h1.1.trans hr h2.1, h1.2.1, h2.2.2⟩
  join := by
    intro x y hx hy hj
    obtain ⟨h1, h2, -⟩ := VType.join_isLeast hr x y
    have htop : x.join t.hierarchy y ≠ .top := by
      intro h
      rw [h] at h1
      cases h1
      exact hx.1 rfl
    exact ⟨⟨h1, hx, htop, hj⟩, h2, hy, htop, hj⟩

lemma ClassTable.Rooted.lower_join (hr : t.Rooted) {x y z : VType} (hx : Lower t x z)
    (hy : Lower t y z) : x.join t.hierarchy y ≠ .bottom ∧ Lower t (x.join t.hierarchy y) z := by
  obtain ⟨-, -, h3⟩ := VType.join_isLeast hr x y
  have hle := h3 z hx.1 hy.1
  have hbot : x.join t.hierarchy y ≠ .bottom := by
    intro h
    rw [h] at hle
    cases hle <;> exact hx.2.2.2 rfl
  obtain ⟨h1, -⟩ := hr.upper.join hx.2.1 hy.2.1 hbot
  exact ⟨hbot, hle, h1.2.2, hx.2.2⟩

lemma ClassTable.Rooted.forall₂_zipWith_join (hr : t.Rooted) {l l' k : List VType}
    (hl : List.Forall₂ (Lower t) l k) (hl' : List.Forall₂ (Lower t) l' k) :
    .bottom ∉ List.zipWith (VType.join t.hierarchy) l l' ∧
      List.Forall₂ (Lower t) (List.zipWith (VType.join t.hierarchy) l l') k := by
  induction hl generalizing l' with
  | nil =>
    cases hl'
    exact ⟨by simp, .nil⟩
  | cons hx _ ih =>
    cases hl' with
    | cons hy hl' =>
      obtain ⟨h1, h2⟩ := hr.lower_join hx hy
      obtain ⟨h3, h4⟩ := ih hl'
      refine ⟨?_, .cons h2 h4⟩
      simp only [List.zipWith_cons_cons, List.mem_cons, not_or]
      exact ⟨Ne.symm h1, h3⟩

lemma ClassTable.Rooted.localRel_joinLocal_left (hr : t.Rooted) {x y z : VType}
    (hx : LocalRel (Lower t) x z) (hy : LocalRel (Lower t) y z) :
    LocalRel (Lower t) (Frame.joinLocal t.hierarchy x y) z := by
  rcases hx with ⟨-, rfl⟩ | hx
  · exact Or.inl ⟨Frame.joinLocal_ne_bottom x y, rfl⟩
  · rcases hy with ⟨-, rfl⟩ | hy
    · exact Or.inl ⟨Frame.joinLocal_ne_bottom x y, rfl⟩
    · obtain ⟨h1, h2⟩ := hr.lower_join hx hy
      rw [Frame.joinLocal_eq, if_neg h1]
      exact Or.inr h2

/-- **The merge is the least upper bound**, and it exists whenever there is an upper bound. -/
theorem ClassTable.Rooted.exists_merge (hr : t.Rooted) (hf : Frame.Rel (Lower t) n f u)
    (hg : Frame.Rel (Lower t) n g u) :
    ∃ m, f.merge t.hierarchy g = .ok m ∧ Frame.Rel (Lower t) n m u := by
  have A := lower_alike t
  obtain ⟨-, hu, hl⟩ := Stack.rel_iff.1 hf.stack
  obtain ⟨-, -, hl'⟩ := Stack.rel_iff.1 hg.stack
  obtain ⟨hb, hle⟩ := hr.forall₂_zipWith_join hl hl'
  have hshape : f.sameShape g = true := by
    unfold Frame.sameShape Frame.depth
    simp [hf.stack.size_eq, hg.stack.size_eq, hf.stack.height_eq A, hg.stack.height_eq A]
  have hm := Frame.merge_eq_ok_iff.2 ⟨hshape, hb, rfl⟩
  obtain ⟨hfm, -⟩ := hr.upper.rel_merge (hf.good_left A) (hg.good_left A) hm
  refine ⟨_, hm, ?_, hfm.right, hf.right, ?_, hfm.paired_right A⟩
  · rw [hu]
    exact Stack.Rel.empty.append hle
  · intro i w z hw hz
    simp only [Frame.joins, List.getElem?_zipWith_eq_some] at hw
    obtain ⟨x, y, hx, hy, rfl⟩ := hw
    exact hr.localRel_joinLocal_left (hf.locals i x z hx hz) (hg.locals i y z hy hz)

lemma ClassTable.Rooted.rel_merge_left (hr : t.Rooted) (hf : Frame.Rel (Lower t) n f u)
    (hg : Frame.Rel (Lower t) n g u) (hm : f.merge t.hierarchy g = .ok m) :
    Frame.Rel (Lower t) n m u := by
  obtain ⟨m', hm', h⟩ := hr.exists_merge hf hg
  rw [hm] at hm'
  cases hm'
  exact h

lemma ClassTable.Rooted.rel_antisymm (hr : t.Rooted) (hfg : Frame.Rel (Lower t) n f g)
    (hgf : Frame.Rel (Lower t) n g f) : f = g := by
  have hlists : ∀ {l l' : List VType}, List.Forall₂ (Lower t) l l' → List.Forall₂ (Lower t) l' l →
      l = l' := by
    intro l l' hl hl'
    induction hl with
    | nil => rfl
    | cons hxy _ ih =>
      cases hl' with
      | cons hyx hl' => rw [hxy.1.antisymm hr hyx.1, ih hl']
  obtain ⟨hf1, hg1, hl⟩ := Stack.rel_iff.1 hfg.stack
  obtain ⟨-, -, hl'⟩ := Stack.rel_iff.1 hgf.stack
  have hstack : f.stack = g.stack := by rw [hf1, hg1, hlists hl hl']
  have hlocals : f.locals = g.locals := by
    refine List.ext_getElem (hfg.left.trans hfg.right.symm) fun i hi hi' => ?_
    have hx := List.getElem?_eq_getElem hi
    have hy := List.getElem?_eq_getElem hi'
    rcases hfg.locals i _ _ hx hy with ⟨-, htop⟩ | hxy
    · rw [htop] at hy ⊢
      rcases hgf.locals i _ _ hy hx with ⟨-, htop'⟩ | hyx
      · exact htop'
      · exact absurd rfl hyx.2.1.1
    · rcases hgf.locals i _ _ hy hx with ⟨-, htop'⟩ | hyx
      · exact absurd htop' hxy.2.1.1
      · exact hxy.1.antisymm hr hyx.1
  exact Frame.eq_of hlocals hstack

end Lower

/-! ### Frames that are the same -/

lemma Frame.Good.stack_eq (hf : f.Good n) : f.stack = .ofList f.stack.toList :=
  (Stack.rel_iff.1 hf.stack).1

/-- Frames are the same when they are equal. -/
lemma Frame.same_iff (hf : f.stack = .ofList f.stack.toList)
    (hg : g.stack = .ofList g.stack.toList) : f.same g = true ↔ f = g := by
  rw [Frame.same_eq_true_iff]
  constructor
  · rintro ⟨hentries, hlocals⟩
    have hstack : f.stack = g.stack := by
      rw [hf, hg]
      unfold SlotVec.toList
      rw [hentries]
    exact Frame.eq_of hlocals hstack
  · rintro rfl
    exact ⟨rfl, rfl⟩

lemma Frame.Good.same_iff (hf : f.Good n) (hg : g.Good n) : f.same g = true ↔ f = g :=
  Frame.same_iff hf.stack_eq hg.stack_eq

end Bytecheck
