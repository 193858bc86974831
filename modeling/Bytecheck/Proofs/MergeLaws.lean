import Mathlib.Data.List.Zip
import Mathlib.Tactic.Common
import Bytecheck.Proofs.FrameOrder
import Bytecheck.Proofs.JoinLaws
import Bytecheck.Proofs.Operands

/-!
Merges of many frames.

Over a tree of classes the joins of frames are commutative and associative, faults left aside: a
local without a common type is unset and stays unset, and `bottom` on a stack stays there. So a
fold of merges succeeds when all stacks have one shape and the fold of the joins leaves no `bottom`
on the stack, and this does not depend on the order of the frames.
-/

namespace Bytecheck

variable {t : ClassTable} {h : Hierarchy}

namespace VType

lemma join_bottom_left (y : VType) : join h .bottom y = .bottom := by
  unfold join
  split <;> rfl

lemma join_bottom_right (x : VType) : join h x .bottom = .bottom := by
  cases x <;> rfl

/-- Values with a common type have one width. -/
lemma width_join {x y : VType} (hj : x.join h y ≠ .bottom) : width (x.join h y) = width x := by
  unfold join at hj ⊢
  by_cases hxy : x = y
  · rw [if_pos hxy]
  · rw [if_neg hxy] at hj ⊢
    split at hj
    · rfl
    · rfl
    · rfl
    · exact absurd rfl hj

end VType

namespace Frame

variable {f g k x y : Frame} {xs ys : List Frame}

/-! ### Joins as an algebra -/

lemma joinLocal_joinLocal_left (a b c : VType) :
    joinLocal h (joinLocal h a b) c = joinLocal h (a.join h b) c := by
  rw [joinLocal_eq a b]
  split
  · rename_i hj
    rw [hj, joinLocal_top_left, joinLocal_eq, VType.join_bottom_left, if_pos rfl]
  · rfl

lemma joinLocal_joinLocal_right (a b c : VType) :
    joinLocal h a (joinLocal h b c) = joinLocal h a (b.join h c) := by
  rw [joinLocal_eq b c]
  split
  · rename_i hj
    rw [hj, joinLocal_top_right, joinLocal_eq, VType.join_bottom_right, if_pos rfl]
  · rfl

lemma joinLocal_comm (hr : t.Rooted) (a b : VType) :
    joinLocal t.hierarchy a b = joinLocal t.hierarchy b a := by
  rw [joinLocal_eq, joinLocal_eq, VType.join_comm hr]

lemma joinLocal_assoc (hr : t.Rooted) (a b c : VType) :
    joinLocal t.hierarchy (joinLocal t.hierarchy a b) c =
      joinLocal t.hierarchy a (joinLocal t.hierarchy b c) := by
  rw [joinLocal_joinLocal_left, joinLocal_joinLocal_right, joinLocal_eq, joinLocal_eq,
    VType.join_assoc hr]

lemma joins_comm (hr : t.Rooted) (f g : Frame) :
    joins t.hierarchy f g = joins t.hierarchy g f := by
  unfold joins
  rw [List.zipWith_comm_of_comm (joinLocal_comm hr), List.zipWith_comm_of_comm (VType.join_comm hr)]

lemma joins_assoc (hr : t.Rooted) (f g k : Frame) :
    joins t.hierarchy (joins t.hierarchy f g) k = joins t.hierarchy f (joins t.hierarchy g k) := by
  unfold joins
  simp only [SlotVec.toList_ofList, List.zipWith_zipWith_left, List.zipWith_zipWith_right,
    joinLocal_assoc hr, VType.join_assoc hr]

lemma joins_right_comm (hr : t.Rooted) (f g k : Frame) :
    joins t.hierarchy (joins t.hierarchy f g) k = joins t.hierarchy (joins t.hierarchy f k) g := by
  rw [joins_assoc hr, joins_comm hr g, ← joins_assoc hr]

lemma foldl_joins_of_perm (hr : t.Rooted) (hp : xs.Perm ys) (x : Frame) :
    xs.foldl (joins t.hierarchy) x = ys.foldl (joins t.hierarchy) x :=
  hp.foldl_eq' (fun f _ g _ k => joins_right_comm hr k f g) x

/-- The joins of frames do not depend on the order, nor on the frame to start from. -/
lemma foldl_joins_perm (hr : t.Rooted) (hp : (x :: xs).Perm (y :: ys)) :
    xs.foldl (joins t.hierarchy) x = ys.foldl (joins t.hierarchy) y := by
  by_cases hxy : x = y
  · subst hxy
    exact foldl_joins_of_perm hr hp.cons_inv x
  · -- each of the two first frames is found in the other rest, and what is left is the same
    have hy : y ∈ xs := by
      have hmem := hp.mem_iff.2 (List.mem_cons_self (a := y))
      exact (List.mem_cons.1 hmem).resolve_left (Ne.symm hxy)
    have hxs := List.perm_cons_erase hy
    have hys : ys.Perm (x :: xs.erase y) := by
      have hswap := (hxs.cons x).symm.trans hp
      exact ((List.Perm.swap x y _).trans hswap).cons_inv.symm
    rw [foldl_joins_of_perm hr hxs, foldl_joins_of_perm hr hys, List.foldl_cons, List.foldl_cons,
      joins_comm hr]

/-! ### Frames without `bottom` -/

lemma length_joins (hlen : f.stack.toList.length = g.stack.toList.length) :
    (joins h f g).stack.toList.length = f.stack.toList.length := by
  rw [toList_joins, List.length_zipWith, hlen, Nat.min_self]

lemma stack_joins (f g : Frame) : (joins h f g).stack = .ofList (joins h f g).stack.toList := by
  rw [toList_joins]
  rfl

lemma sameShape_refl (f : Frame) : f.sameShape f = true := sameShape_iff.2 ⟨rfl, rfl⟩

lemma sameShape_symm (hfg : f.sameShape g = true) : g.sameShape f = true := by
  rw [sameShape_iff] at hfg ⊢
  exact ⟨hfg.1.symm, hfg.2.symm⟩

lemma sameShape_trans (hfg : f.sameShape g = true) (hgk : g.sameShape k = true) :
    f.sameShape k = true := by
  rw [sameShape_iff] at hfg hgk ⊢
  exact ⟨hfg.1.trans hgk.1, hfg.2.trans hgk.2⟩

/-- Frames with a well-formed stack that hold no `bottom`. -/
structure Plain (f : Frame) : Prop where
  stack : f.stack = .ofList f.stack.toList
  locals_ne : .bottom ∉ f.locals
  stack_ne : .bottom ∉ f.stack.toList

instance : DecidablePred Plain := fun f =>
  decidable_of_iff
    (f.stack = .ofList f.stack.toList ∧ .bottom ∉ f.locals ∧ .bottom ∉ f.stack.toList)
    ⟨fun hf => ⟨hf.1, hf.2.1, hf.2.2⟩, fun hf => ⟨hf.stack, hf.locals_ne, hf.stack_ne⟩⟩

lemma zipWith_joinLocal_self {l : List VType} (hl : .bottom ∉ l) :
    List.zipWith (joinLocal h) l l = l := by
  rw [List.zipWith_self, List.map_congr_left, List.map_id]
  intro a ha
  have hne : a ≠ .bottom := fun hb => hl (hb ▸ ha)
  rw [joinLocal_eq, VType.join_self, if_neg hne, id]

lemma zipWith_join_self (l : List VType) : List.zipWith (VType.join h) l l = l := by
  rw [List.zipWith_self, List.map_congr_left (fun a _ => VType.join_self h a), List.map_id']

lemma Plain.merge_self (hf : f.Plain) : f.merge h f = .ok f := by
  have hstack := zipWith_join_self (h := h) f.stack.toList
  refine merge_eq_ok_iff.2 ⟨sameShape_refl f, hstack.symm ▸ hf.stack_ne, ?_⟩
  refine eq_of (zipWith_joinLocal_self hf.locals_ne).symm ?_
  rw [stack_joins, toList_joins, hstack]
  exact hf.stack

lemma slots_zipWith_join {l l' : List VType} (hlen : l.length = l'.length)
    (hb : .bottom ∉ List.zipWith (VType.join h) l l') :
    slots (List.zipWith (VType.join h) l l') = slots l := by
  induction l generalizing l' with
  | nil => rfl
  | cons a l ih =>
    cases l' with
    | nil => cases hlen
    | cons b l' =>
      simp only [List.zipWith_cons_cons, List.mem_cons, not_or] at hb
      rw [List.zipWith_cons_cons, slots_cons, slots_cons, VType.width_join (Ne.symm hb.1),
        ih (Nat.succ.inj hlen) hb.2]

lemma depth_of_stack (hf : f.stack = .ofList f.stack.toList) : f.depth = slots f.stack.toList := by
  have hheight := congrArg SlotVec.height hf
  rwa [Stack.ofList_eq_pile, Stack.height_pile, slots_reverse] at hheight

/-- A merge has the shape of the frames that it is made from. -/
lemma Plain.of_merge {m : Frame} (hf : f.Plain) (hm : f.merge h g = .ok m) :
    m.Plain ∧ f.sameShape m = true := by
  obtain ⟨hs, hb, rfl⟩ := merge_eq_ok_iff.1 hm
  have hlen := (sameShape_iff.1 hs).1
  refine ⟨⟨stack_joins f g, ?_, toList_joins ▸ hb⟩, sameShape_iff.2 ⟨(length_joins hlen).symm, ?_⟩⟩
  · intro hmem
    obtain ⟨i, hi⟩ := List.mem_iff_getElem?.1 hmem
    obtain ⟨a, b, -, -, hab⟩ := List.getElem?_zipWith_eq_some.1 hi
    exact joinLocal_ne_bottom a b hab
  · rw [depth_of_stack hf.stack, depth_of_stack (stack_joins f g), toList_joins,
      slots_zipWith_join hlen hb]

/-! ### Folds of merges -/

lemma bottom_mem_zipWith {l l' : List VType} (hlen : l.length = l'.length) (hl : .bottom ∈ l) :
    .bottom ∈ List.zipWith (VType.join h) l l' := by
  obtain ⟨i, hi, hget⟩ := List.mem_iff_getElem.1 hl
  refine List.mem_iff_getElem?.2 ⟨i, List.getElem?_zipWith_eq_some.2
    ⟨.bottom, l'.get ⟨i, hlen ▸ hi⟩, ?_, ?_, VType.join_bottom_left _⟩⟩
  · rw [List.getElem?_eq_getElem hi, hget]
  · exact List.getElem?_eq_getElem _

/-- What has no common type keeps having none. -/
lemma bottom_mem_foldl_joins (hlen : ∀ g ∈ xs, x.stack.toList.length = g.stack.toList.length)
    (hx : .bottom ∈ x.stack.toList) : .bottom ∈ (xs.foldl (joins h) x).stack.toList := by
  induction xs generalizing x with
  | nil => exact hx
  | cons g xs ih =>
    have hg := hlen g List.mem_cons_self
    refine ih (fun k hk => ?_) ?_
    · rw [length_joins hg, hlen k (List.mem_cons_of_mem _ hk)]
    · rw [toList_joins]
      exact bottom_mem_zipWith hg hx

/-- A fold of merges succeeds when the stacks have one shape and the joins leave no `bottom` on the
stack; then it gives the joins. -/
lemma foldlM_merge_eq_ok_iff (hall : ∀ g ∈ x :: xs, g.Plain) :
    xs.foldlM (Frame.merge h) x = .ok k ↔
      (∀ g ∈ xs, x.sameShape g = true) ∧ .bottom ∉ (xs.foldl (joins h) x).stack.toList ∧
        k = xs.foldl (joins h) x := by
  induction xs generalizing x with
  | nil =>
    have hx := (hall x List.mem_cons_self).stack_ne
    constructor
    · intro hk
      cases hk
      exact ⟨by simp, hx, rfl⟩
    · rintro ⟨-, -, rfl⟩
      rfl
  | cons g xs ih =>
    obtain ⟨hx, htail⟩ := List.forall_mem_cons.1 hall
    obtain ⟨-, hrest⟩ := List.forall_mem_cons.1 htail
    rw [List.foldlM_cons, bind_ok_iff, List.foldl_cons, List.forall_mem_cons]
    constructor
    · rintro ⟨m, hm, hfold⟩
      obtain ⟨hmp, hxm⟩ := hx.of_merge hm
      obtain ⟨hxg, -, rfl⟩ := merge_eq_ok_iff.1 hm
      obtain ⟨hs, hb, rfl⟩ := (ih (List.forall_mem_cons.2 ⟨hmp, hrest⟩)).1 hfold
      exact ⟨⟨hxg, fun k hk => sameShape_trans hxm (hs k hk)⟩, hb, rfl⟩
    · rintro ⟨⟨hxg, hs⟩, hb, rfl⟩
      have hlen := (sameShape_iff.1 hxg).1
      -- a `bottom` of the first join would still be there at the end
      have hm : x.merge h g = .ok (joins h x g) := by
        refine merge_eq_ok_iff.2 ⟨hxg, fun hmem => hb ?_, rfl⟩
        refine bottom_mem_foldl_joins (fun k hk => ?_) ?_
        · rw [length_joins hlen, (sameShape_iff.1 (hs k hk)).1]
        · rwa [toList_joins]
      obtain ⟨hmp, hxm⟩ := hx.of_merge hm
      have hshape : ∀ k ∈ xs, (joins h x g).sameShape k = true := fun k hk =>
        sameShape_trans (sameShape_symm hxm) (hs k hk)
      exact ⟨_, hm, (ih (List.forall_mem_cons.2 ⟨hmp, hrest⟩)).2 ⟨hshape, hb, rfl⟩⟩

lemma foldlM_merge_of_perm (hr : t.Rooted) (hp : (x :: xs).Perm (y :: ys))
    (hall : ∀ g ∈ x :: xs, g.Plain) (hk : xs.foldlM (Frame.merge t.hierarchy) x = .ok k) :
    ys.foldlM (Frame.merge t.hierarchy) y = .ok k := by
  obtain ⟨hs, hb, rfl⟩ := (foldlM_merge_eq_ok_iff hall).1 hk
  have hshape : ∀ g ∈ x :: xs, x.sameShape g = true :=
    List.forall_mem_cons.2 ⟨sameShape_refl x, hs⟩
  have hy := hshape y (hp.mem_iff.2 List.mem_cons_self)
  rw [foldl_joins_perm hr hp] at hb ⊢
  refine (foldlM_merge_eq_ok_iff fun g hg => hall g (hp.mem_iff.2 hg)).2 ⟨fun g hg => ?_, hb, rfl⟩
  exact sameShape_trans (sameShape_symm hy)
    (hshape g (hp.mem_iff.2 (List.mem_cons_of_mem _ hg)))

/-- A fold of merges absorbs every frame that went into it. -/
lemma merge_of_mem_foldlM (hr : t.Rooted) (hall : ∀ f ∈ x :: xs, f.Plain)
    (hk : xs.foldlM (Frame.merge t.hierarchy) x = .ok k) (hg : g ∈ x :: xs) :
    k.merge t.hierarchy g = .ok k := by
  have hp := List.perm_cons_erase hg
  generalize (x :: xs).erase g = ys at hp
  have hfirst := foldlM_merge_of_perm hr hp hall hk
  -- merging the frame twice at the start makes no difference, and the second time can be the last
  have htwice : (g :: ys).foldlM (Frame.merge t.hierarchy) g = .ok k := by
    rw [List.foldlM_cons, (hall g hg).merge_self]
    exact hfirst
  have hmove : (g :: ([g] ++ ys)).Perm (g :: (ys ++ [g])) := List.perm_append_comm.cons g
  have hlast := foldlM_merge_of_perm hr hmove
    (List.forall_mem_cons.2 ⟨hall g hg, fun f hf => hall f (hp.mem_iff.2 hf)⟩) htwice
  rw [List.foldlM_append, hfirst] at hlast
  have hmerge : [g].foldlM (Frame.merge t.hierarchy) k = .ok k := hlast
  simpa using hmerge

/-! ### Merges in place -/

lemma mergeInto_of_error {e : TypeFault} (he : (f.mergeInto h g).1 = .error e) :
    (f.mergeInto h g).2 = f := by
  rw [mergeInto_eq] at he ⊢
  split at he
  · cases he
  · rfl

lemma mergeInto_changed_iff (hf : f.stack = .ofList f.stack.toList) :
    (f.mergeInto h g).1 = .ok true ↔ (f.mergeInto h g).2 ≠ f := by
  rw [mergeInto_eq]
  cases hm : f.merge h g with
  | error e => simp
  | ok m =>
    obtain ⟨-, -, rfl⟩ := merge_eq_ok_iff.1 hm
    have hsame := same_iff (stack_joins (h := h) f g) hf
    rw [Ne, ← hsame]
    simp

lemma mergeInto_self (hk : k.merge h g = .ok k) : k.mergeInto h g = (.ok false, k) := by
  have hsame : k.same k = true := same_eq_true_iff.2 ⟨rfl, rfl⟩
  rw [mergeInto_eq, hk]
  dsimp only
  rw [hsame]
  rfl

/-- **Merging does not depend on the order.** Frames that are merged one after the other, in any
order, give one frame or a fault every time. The frame absorbs each of them. A merge in place tells
whether the frame changed, and a fault leaves it as it was. -/
theorem merge_order_free (hr : t.Rooted) (hp : (x :: xs).Perm (y :: ys))
    (hall : ∀ f ∈ x :: xs, f.Plain) :
    (∀ k, xs.foldlM (Frame.merge t.hierarchy) x = .ok k ↔
        ys.foldlM (Frame.merge t.hierarchy) y = .ok k) ∧
      (∀ k, xs.foldlM (Frame.merge t.hierarchy) x = .ok k →
        ∀ f ∈ x :: xs, k.mergeInto t.hierarchy f = (.ok false, k)) ∧
      (∀ (h : Hierarchy) (f g : Frame), f.stack = .ofList f.stack.toList →
        ((f.mergeInto h g).1 = .ok true ↔ (f.mergeInto h g).2 ≠ f)) ∧
      ∀ (h : Hierarchy) (f g : Frame) (e : TypeFault), (f.mergeInto h g).1 = .error e →
        (f.mergeInto h g).2 = f := by
  refine ⟨fun k => ⟨foldlM_merge_of_perm hr hp hall, ?_⟩, fun k hk f hf => ?_, ?_, ?_⟩
  · exact foldlM_merge_of_perm hr hp.symm fun f hf => hall f (hp.mem_iff.2 hf)
  · exact mergeInto_self (merge_of_mem_foldlM hr hall hk hf)
  · exact fun h f g hf => mergeInto_changed_iff hf
  · exact fun h f g e he => mergeInto_of_error he

end Frame

namespace ClassTable.Library

/-- A frame with one value in the first local and on the stack, and another in the second local. -/
def holding (x y : VType) : Frame := ⟨[x, y], .ofList [x]⟩

/-- Two numbers and `null`, merged from either end. Two of the frames agree on the second local, and
the third one unsets it. An integer value cannot be merged into any of them. -/
theorem merge_order_free_numbers :
    ∃ a b c k : Frame, numbers.Rooted ∧ [a, b, c].Perm [c, b, a] ∧ (∀ f ∈ [a, b, c], f.Plain) ∧
      [b, c].foldlM (Frame.merge numbers.hierarchy) a = .ok k ∧
      [b, a].foldlM (Frame.merge numbers.hierarchy) c = .ok k ∧
      k.mergeInto numbers.hierarchy b = (.ok false, k) ∧
      (a.mergeInto numbers.hierarchy b).1 = .ok true ∧ (a.mergeInto numbers.hierarchy b).2 ≠ a ∧
      ∃ d e, (a.mergeInto numbers.hierarchy d).1 = .error e ∧
        (a.mergeInto numbers.hierarchy d).2 = a := by
  let a := holding (.ofClass integer) .int
  let b := holding (.ofClass long) .float
  let c := holding .null .int
  have hr : numbers.Rooted := by decide +kernel
  have hp : [a, b, c].Perm [c, b, a] := by decide +kernel
  have hall : ∀ f ∈ [a, b, c], f.Plain := by decide +kernel
  have hk : [b, c].foldlM (Frame.merge numbers.hierarchy) a =
      .ok (holding (.ofClass number) .top) := by decide +kernel
  have hchanged : (a.mergeInto numbers.hierarchy b).1 = .ok true := by decide +kernel
  have hfault : (a.mergeInto numbers.hierarchy (holding .int .int)).1 =
      .error (.incompatibleMerge 0 (.ofClass integer) .int) := by decide +kernel
  obtain ⟨horder, habsorb, hflag, hatomic⟩ := Frame.merge_order_free hr hp hall
  exact ⟨a, b, c, _, hr, hp, hall, hk, (horder _).1 hk, habsorb _ hk b (by simp), hchanged,
    (hflag _ a b rfl).1 hchanged, _, _, hfault, hatomic _ a _ _ hfault⟩

end ClassTable.Library

end Bytecheck
