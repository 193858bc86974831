import Mathlib.Algebra.Order.BigOperators.Group.List
import Mathlib.Algebra.Order.Ring.Nat
import Mathlib.Tactic.Common
import Bytecheck.Proofs.FixedPoint

/-!
Runs end.

Over a tree of classes a value can go up a bounded number of times only, so frames have a rank that
goes down whenever they go up. The ranks of all entry frames, with one more for every block that
waits, bound the number of visits that are left (`potential`).
-/

namespace Bytecheck

/-! ### The height of a class -/

namespace ClassTable

variable {t : ClassTable} {c d : BinaryName}

/-- The number of classes on the way up from a class, with itself and without the root class: how
many links there are to the root, where a way that ends elsewhere is continued by one link. -/
def height (t : ClassTable) (c : BinaryName) : ℕ :=
  (List.range (t.classes.length + 1)).countP fun n => (t.up n c).any (· ≠ .object)

lemma height_le (t : ClassTable) (c : BinaryName) : t.height c ≤ t.classes.length + 1 := by
  unfold height
  exact List.countP_le_length.trans (by rw [List.length_range])

lemma height_pos (h : c ≠ .object) : 0 < t.height c := by
  refine List.countP_pos_iff.2 ⟨0, by simp, ?_⟩
  simp [up, h]

lemma Rooted.height_object (hr : t.Rooted) : t.height .object = 0 := by
  refine List.countP_eq_zero.2 fun n _ => ?_
  cases n with
  | zero => simp [up]
  | succ n => simp [up, hr.root]

lemma Rooted.height_of_extends (hr : t.Rooted) (h : t.Extends c d) :
    t.height c = t.height d + 1 := by
  have hc : c ≠ .object := by
    rintro rfl
    have := hr.root
    rw [h] at this
    cases this
  have hsuper : t.superclass c = some d := h
  -- no way up is longer than the table, and the way from the superclass is the rest of it
  have hlast := up_eq_none hr.acyclic c
  have hlong : t.height c =
      (List.range (t.classes.length + 2)).countP fun n => (t.up n c).any (· ≠ .object) := by
    rw [List.range_succ, List.countP_append]
    simp [height, hlast]
  rw [hlong, List.range_succ_eq_map, List.countP_cons, List.countP_map]
  simp [height, up, hc, Function.comp_def, hsuper]

lemma height_le_one (h : t.superclass c = none) : t.height c ≤ 1 := by
  have hrest : ((List.range t.classes.length).countP fun n =>
      (t.up (n + 1) c).any (· ≠ .object)) = 0 := List.countP_eq_zero.2 (by simp [up, h])
  unfold height
  rw [List.range_succ_eq_map, List.countP_cons, List.countP_map, Function.comp_def, hrest]
  split <;> omega

/-- Where nothing but the root is left after a number of links, the height is at most that. -/
lemma Rooted.height_le_of_up (hr : t.Rooted) {n : ℕ} (h : ∀ d, t.up n c = some d → d = .object) :
    t.height c ≤ n := by
  induction n generalizing c with
  | zero =>
    rw [h c rfl, hr.height_object]
  | succ n ih =>
    cases hs : t.superclass c with
    | none => exact (height_le_one hs).trans (Nat.le_add_left 1 n)
    | some d =>
      have hup : ∀ e, t.up n d = some e → e = .object := fun e he => h e (by simp [up, hs, he])
      rw [hr.height_of_extends hs]
      exact Nat.succ_le_succ (ih hup)

lemma Rooted.height_le_of_ancestor (hr : t.Rooted) (h : t.Ancestor c d) :
    t.height d ≤ t.height c := by
  induction h with
  | refl => exact Nat.le_refl _
  | tail _ hl ih =>
    have := hr.height_of_extends hl
    omega

/-- Strictly above a class, heights are less. -/
lemma Rooted.height_lt_of_under (hr : t.Rooted) (h : t.Under c d) (hne : c ≠ d) :
    t.height d < t.height c := by
  rcases h with rfl | h | ⟨-, h⟩
  · rw [hr.height_object]
    exact height_pos hne
  · exact absurd h hne
  · rcases Relation.ReflTransGen.cases_head h with h | ⟨s, hs, hsd⟩
    · exact absurd h hne
    · have h1 := hr.height_of_extends hs
      have h2 := hr.height_le_of_ancestor hsd
      omega

end ClassTable

/-! ### The rank of a frame -/

/-- How often a reference can go up, with one more for being lost. -/
def RefType.rank (t : ClassTable) : RefType → ℕ
  | .object c => t.height c + 1
  | .objectArray _ c => t.height c + 2
  | .primitiveArray _ _ => 2

/-- How often a value can go up, where no class is higher than the given height. -/
def VType.rank (t : ClassTable) (height : ℕ) : VType → ℕ
  | .top | .bottom => 0
  | .null => height + 3
  | .object r => r.rank t
  | _ => 1

def Frame.rank (t : ClassTable) (height : ℕ) (f : Frame) : ℕ :=
  (f.locals.map (VType.rank t height)).sum + (f.stack.toList.map (VType.rank t height)).sum

section Rank

variable {t : ClassTable} {height n : ℕ} {x y : VType} {f g : Frame}

lemma RefType.rank_bounds (hh : ∀ c, t.height c ≤ height) (r : RefType) :
    1 ≤ r.rank t ∧ r.rank t ≤ height + 2 := by
  rcases r with c | ⟨m, c⟩ | ⟨m, b⟩
  · have := hh c
    simp only [RefType.rank]
    omega
  · have := hh c
    simp only [RefType.rank]
    omega
  · simp only [RefType.rank]
    omega

lemma RefType.rank_lt_of_under (hr : t.Rooted) {r s : RefType} (h : RefType.Under t r s)
    (hne : r ≠ s) : s.rank t < r.rank t := by
  cases h with
  | refl => exact absurd rfl hne
  | root =>
    have h0 := hr.height_object
    rcases r with c | ⟨m, c⟩ | ⟨m, b⟩
    · have := ClassTable.height_pos (t := t) (c := c) (by rintro rfl; exact hne rfl)
      simp only [RefType.rank]
      omega
    · simp only [RefType.rank]
      omega
    · simp only [RefType.rank]
      omega
  | @object c d h =>
    have := hr.height_lt_of_under h (by rintro rfl; exact hne rfl)
    simp only [RefType.rank]
    omega
  | @array c d m h =>
    have := hr.height_lt_of_under h (by rintro rfl; exact hne rfl)
    simp only [RefType.rank]
    omega

lemma VType.rank_le (hh : ∀ c, t.height c ≤ height) (x : VType) : x.rank t height ≤ height + 3 := by
  cases x with
  | object r =>
    have := (RefType.rank_bounds hh r).2
    simp only [VType.rank]
    omega
  | _ =>
    simp only [VType.rank]
    omega

lemma VType.rank_pos (hh : ∀ c, t.height c ≤ height) (hx : x.IsValue) : 0 < x.rank t height := by
  cases x with
  | top => exact absurd rfl hx.1
  | bottom => exact absurd rfl hx.2
  | object r => exact (RefType.rank_bounds hh r).1
  | null =>
    simp only [VType.rank]
    omega
  | _ => exact Nat.one_pos

lemma Lower.rank_lt (hr : t.Rooted) (hh : ∀ c, t.height c ≤ height) (h : Lower t x y)
    (hne : x ≠ y) : y.rank t height < x.rank t height := by
  obtain ⟨hxy, hx, hy⟩ := h
  cases hxy with
  | refl => exact absurd rfl hne
  | bottom => exact absurd rfl hy.2
  | null r =>
    have := (RefType.rank_bounds hh r).2
    simp only [VType.rank]
    omega
  | object h => exact RefType.rank_lt_of_under hr h (by rintro rfl; exact hne rfl)

lemma LocalRel.rank_lt (hr : t.Rooted) (hh : ∀ c, t.height c ≤ height)
    (h : LocalRel (Lower t) x y) (hne : x ≠ y) : y.rank t height < x.rank t height := by
  rcases h with ⟨hb, rfl⟩ | h
  · exact VType.rank_pos hh ⟨hne, hb⟩
  · exact h.rank_lt hr hh hne

/-- Where ranks go down, so do their sums. -/
lemma sum_rank_lt {R : VType → VType → Prop}
    (hR : ∀ x y, R x y → x ≠ y → y.rank t height < x.rank t height) {l l' : List VType}
    (h : List.Forall₂ R l l') (hne : l ≠ l') :
    (l'.map (VType.rank t height)).sum < (l.map (VType.rank t height)).sum := by
  have hle : ∀ {x y}, R x y → y.rank t height ≤ x.rank t height := by
    intro x y hxy
    by_cases h : x = y
    · rw [h]
    · exact Nat.le_of_lt (hR x y hxy h)
  induction h with
  | nil => exact absurd rfl hne
  | @cons x y l l' hxy _ ih =>
    simp only [List.map_cons, List.sum_cons]
    have h1 := hle hxy
    by_cases hl : l = l'
    · have h2 := hR x y hxy fun h => hne (by rw [h, hl])
      rw [hl]
      omega
    · have h2 := ih hl
      omega

lemma Frame.Rel.forall₂_locals {R : VType → VType → Prop} (h : Frame.Rel R n f g) :
    List.Forall₂ (LocalRel R) f.locals g.locals := by
  refine List.forall₂_iff_get.2 ⟨h.left.trans h.right.symm, fun i hi hi' => ?_⟩
  exact h.locals i _ _ (List.getElem?_eq_getElem hi) (List.getElem?_eq_getElem hi')

/-- **A frame that goes up goes down in rank.** -/
theorem Frame.Rel.rank_lt (hr : t.Rooted) (hh : ∀ c, t.height c ≤ height)
    (h : Frame.Rel (Lower t) n f g) (hne : f ≠ g) : g.rank t height < f.rank t height := by
  obtain ⟨hf, hg, hstack⟩ := Stack.rel_iff.1 h.stack
  have hlocals := h.forall₂_locals
  have hl : f.locals ≠ g.locals →
      (g.locals.map (VType.rank t height)).sum < (f.locals.map (VType.rank t height)).sum :=
    sum_rank_lt (fun _ _ h => h.rank_lt hr hh) hlocals
  have hs : f.stack.toList ≠ g.stack.toList → (g.stack.toList.map (VType.rank t height)).sum <
      (f.stack.toList.map (VType.rank t height)).sum :=
    sum_rank_lt (fun _ _ h => h.rank_lt hr hh) hstack
  unfold Frame.rank
  by_cases h1 : f.locals = g.locals
  · have h2 : f.stack.toList ≠ g.stack.toList := fun h2 =>
      hne (Frame.eq_of h1 (by rw [hf, hg, h2]))
    have := hs h2
    rw [h1]
    omega
  · have := hl h1
    by_cases h2 : f.stack.toList = g.stack.toList
    · rw [h2]
      omega
    · have := hs h2
      omega

lemma sum_rank_le (hh : ∀ c, t.height c ≤ height) (l : List VType) :
    (l.map (VType.rank t height)).sum ≤ l.length * (height + 3) := by
  have := List.sum_le_card_nsmul (l.map (VType.rank t height)) (height + 3) (by
    intro k hk
    obtain ⟨x, -, rfl⟩ := List.mem_map.1 hk
    exact VType.rank_le hh x)
  simpa using this

lemma Stack.Rel.length_le_height {R : VType → VType → Prop} {s s' : Stack} (h : Stack.Rel R s s') :
    s.toList.length ≤ s.height := by
  induction h with
  | empty => exact Nat.le_refl _
  | @push s s' x y _ _ ih =>
    have : 1 ≤ width x := by rcases Frame.width_two_or_one x with h | h <;> omega
    rw [SlotVec.toList_push, List.length_append, SlotVec.height_push, List.length_singleton]
    omega

/-- Every slot of a frame can go up a bounded number of times. -/
lemma Frame.Good.rank_le (hh : ∀ c, t.height c ≤ height) (hf : f.Good n) {depth : ℕ}
    (hdepth : f.depth ≤ depth) : f.rank t height ≤ (depth + n) * (height + 3) := by
  have h1 := sum_rank_le hh f.locals
  have h2 := sum_rank_le hh f.stack.toList
  have hlen : f.stack.toList.length ≤ depth := hf.stack.length_le_height.trans hdepth
  have h3 := Nat.mul_le_mul_right (height + 3) hlen
  rw [hf.left] at h1
  unfold Frame.rank
  rw [Nat.add_mul]
  omega

end Rank

/-! ### The potential of a state -/

/-- How many visits a block can still get, where no entry frame has a rank above the ceiling. -/
def BlockState.potential (rank : Frame → ℕ) (ceiling : ℕ) : BlockState → ℕ
  | .unvisited => ceiling + 1
  | .queued f => rank f + 1
  | .stable f => rank f

namespace Analysis

/-- A measure of frames that goes down when they go up. -/
def Descends (R : VType → VType → Prop) (n : ℕ) (rank : Frame → ℕ) : Prop :=
  ∀ {f g}, Frame.Rel R n f g → f ≠ g → rank g < rank f

def State.potential (rank : Frame → ℕ) (ceiling : ℕ) (s : State) : ℕ :=
  (s.states.map (BlockState.potential rank ceiling)).sum

section Potential

variable {p : Problem} {R : VType → VType → Prop} {n ceiling : ℕ} {rank : Frame → ℕ} {s s' : State}

lemma sum_map_set {α : Type} (φ : α → ℕ) {l : List α} {i : ℕ} {a : α} (h : l[i]? = some a) (b : α) :
    ((l.set i b).map φ).sum + φ a = (l.map φ).sum + φ b := by
  induction l generalizing i with
  | nil => cases h
  | cons c l ih =>
    cases i with
    | zero =>
      cases h
      simp only [List.set_cons_zero, List.map_cons, List.sum_cons]
      omega
    | succ i =>
      have := ih (i := i) h
      simp only [List.set_cons_succ, List.map_cons, List.sum_cons]
      omega

lemma Descends.le (hrank : Descends R n rank) {f g : Frame} (h : Frame.Rel R n f g) :
    rank g ≤ rank f := by
  by_cases hfg : f = g
  · rw [hfg]
  · exact Nat.le_of_lt (hrank h hfg)

/-- A block that takes a frame can get no more visits than before. -/
lemma Takes.potential_le (U : Upper p.hierarchy R) (hrank : Descends R n rank) {st st' : BlockState}
    {x : Frame} {w : Bool} (h : Takes p.hierarchy st x st' w) (hx : x.Good n)
    (hle : rank x ≤ ceiling) (hst : ∀ f, st.frame? = some f → f.Good n) :
    st'.potential rank ceiling ≤ st.potential rank ceiling := by
  cases h with
  | first => exact Nat.succ_le_succ hle
  | waiting hm => exact Nat.succ_le_succ (hrank.le (U.rel_merge (hst _ rfl) hx hm).1)
  | kept hm _ => exact hrank.le (U.rel_merge (hst _ rfl) hx hm).1
  | woken hm hdiff =>
    have hup := (U.rel_merge (hst _ rfl) hx hm).1
    refine hrank hup ?_
    rintro rfl
    rw [((hst _ rfl).same_iff (hst _ rfl)).2 rfl] at hdiff
    cases hdiff

lemma posted_potential_le (U : Upper p.hierarchy R) (hrank : Descends R n rank)
    (hs : ∀ b f, s.frame? b = some f → f.Good n) {l : List (ℕ × Frame)} (h : Posted p s l s')
    (hl : ∀ t x, (t, x) ∈ l → x.Good n ∧ rank x ≤ ceiling) :
    s'.potential rank ceiling ≤ s.potential rank ceiling := by
  induction h with
  | none => exact Nat.le_refl _
  | record _ _ _ ih => exact ih hl
  | @post l s₁ s₂ t x hposted hp ih =>
    have hl' : ∀ u y, (u, y) ∈ l → y.Good n ∧ rank y ≤ ceiling := fun u y hu =>
      hl u y (List.mem_append_left _ hu)
    obtain ⟨hx, hle⟩ := hl t x (List.mem_append_right _ List.mem_cons_self)
    have ih := ih hl'
    rcases (propagate_yields p _ _ _).1 _ hp with ⟨-, rfl⟩ | ⟨st, st', w, hst, ht, rfl⟩
    · exact ih
    · have hgood := posted_invariant (Q := fun _ f => f.Good n) (fun _ _ _ _ => good_merge U) hs
        hposted fun u y hu => (hl' u y hu).1
      have htake := ht.potential_le U hrank hx hle fun f hf =>
        hgood t f ((frame?_eq hst).trans hf)
      have hset := sum_map_set (BlockState.potential rank ceiling) hst st'
      unfold State.potential State.put at *
      dsimp only
      omega

lemma potential_claim (rank : Frame → ℕ) (ceiling : ℕ) {b : ℕ} {e : Frame}
    (he : s.states[b]? = some (.queued e)) :
    (s.claim b e).potential rank ceiling + 1 = s.potential rank ceiling := by
  have hset := sum_map_set (BlockState.potential rank ceiling) he (.stable e)
  unfold State.potential State.claim State.settle
  simp only [BlockState.potential] at hset ⊢
  omega

/-- **Runs end**: where entry frames have bounded ranks, the potential bounds the visits. -/
theorem Runs.add_potential_le (L : p.graph.Laid p.code) (U : Upper p.hierarchy R)
    (hrank : Descends R n rank) {entry : Frame} {Q : ℕ → Frame → Prop}
    (hQ : ∀ b f, Q b f → f.Good n ∧ rank f ≤ ceiling) (hentry : Q 0 entry)
    (hmerge : ∀ b f g m, Q b f → Q b g → f.merge p.hierarchy g = .ok m → Q b m)
    (hsend : ∀ b B e t x, p.graph.blocks[b]? = some B → Q b e → HasRoom p B →
      Sends p B e t x → Q t x)
    {k : ℕ} (h : Runs p (initial p entry) k s) :
    k + s.potential rank ceiling ≤ (initial p entry).potential rank ceiling := by
  induction h with
  | none => omega
  | @visit k s₁ s₂ hr hn ih =>
    obtain ⟨b, B, e, hB, he, hv, -⟩ := (hr.tidy L (tidy_initial L entry)).next L hn
    have hinv := entry_invariant L hentry hmerge hsend hr
    obtain ⟨l, hl, hmem⟩ := hv.posts
    have hclaim := potential_claim rank ceiling he
    have hsent : ∀ t x, (t, x) ∈ l → x.Good n ∧ rank x ≤ ceiling := fun t x htx =>
      hQ t x (hsend b B e t x hB (hinv b e (frame?_eq he)) hv.room ((hmem t x).1 htx))
    have hposted := posted_potential_le U hrank
      (fun c f hf => (hQ c f (hinv c f (frame?_claim he ▸ hf))).1) hl hsent
    omega

lemma potential_initial_le (p : Problem) (rank : Frame → ℕ) {entry : Frame}
    (h : rank entry ≤ ceiling) :
    (initial p entry).potential rank ceiling ≤ p.graph.size * (1 + ceiling) := by
  have := List.sum_le_card_nsmul ((initial p entry).states.map (BlockState.potential rank ceiling))
    (1 + ceiling) (by
      intro k hk
      obtain ⟨st, hst, rfl⟩ := List.mem_map.1 hk
      rcases List.mem_or_eq_of_mem_set hst with hst | rfl
      · rw [List.eq_of_mem_replicate hst]
        simp only [BlockState.potential]
        omega
      · simp only [BlockState.potential]
        omega)
  simpa [State.potential, initial] using this

end Potential

/-! ### Runs over a tree of classes -/

section Bound

variable {t : ClassTable} {m : Method} {g : FlowGraph} {code : Code} {entry : Frame}

/-- The visits made and the visits that are still possible are bounded together, by the number of
blocks, the slots of a frame and the height of the class tree. -/
lemma Runs.add_potential_le_bound (hr : t.Rooted) {height : ℕ} (hh : ∀ c, t.height c ≤ height)
    (L : g.Laid code) (hentry : Frame.entry m code.maxLocals = .ok entry) {k : ℕ} {s : State}
    (h : Runs (problem t.hierarchy m g code) (initial (problem t.hierarchy m g code) entry) k s) :
    k + s.potential (Frame.rank t height) ((code.maxStack + code.maxLocals) * (height + 3)) ≤
      g.size * (1 + (code.maxStack + code.maxLocals) * (height + 3)) := by
  have S := steady_interpreter ⟨t.hierarchy, m, code.maxStack⟩ t.hierarchy g code code.maxLocals
  have hgood := good_entry hentry
  have hdepth : entry.depth ≤ code.maxStack := by
    rw [(entry_ok hentry).2]
    exact Nat.zero_le _
  have hrank : Descends (Lower t) code.maxLocals (Frame.rank t height) :=
    fun h hne => h.rank_lt hr hh hne
  have hbound : ∀ (_ : ℕ) (f : Frame), f.Good code.maxLocals ∧ f.depth ≤ code.maxStack →
      f.Good code.maxLocals ∧
        f.rank t height ≤ (code.maxStack + code.maxLocals) * (height + 3) :=
    fun _ f hf => ⟨hf.1, hf.1.rank_le hh hf.2⟩
  have hpotential := h.add_potential_le L hr.upper hrank hbound ⟨hgood, hdepth⟩ ?_ ?_
  · have hinitial := potential_initial_le (problem t.hierarchy m g code) (Frame.rank t height)
      (hbound 0 entry ⟨hgood, hdepth⟩).2
    exact hpotential.trans hinitial
  · rintro b f f' f'' ⟨hf, hd⟩ ⟨hf', -⟩ hm
    obtain ⟨hup, -⟩ := hr.upper.rel_merge hf hf' hm
    refine ⟨hup.good_right (lower_alike t), ?_⟩
    have := hup.stack.height_eq (lower_alike t)
    unfold Frame.depth at hd ⊢
    omega
  · rintro b B e target x - ⟨he, hd⟩ hroom hx
    exact ⟨S.sends he hx, depth_of_sends hd hroom hx⟩

/-- **The analysis ends by itself**: the number of visits in a run is bounded. -/
theorem Runs.length_le (hr : t.Rooted) {height : ℕ} (hh : ∀ c, t.height c ≤ height)
    (L : g.Laid code) (hentry : Frame.entry m code.maxLocals = .ok entry) {k : ℕ} {s : State}
    (h : Runs (problem t.hierarchy m g code) (initial (problem t.hierarchy m g code) entry) k s) :
    k ≤ g.size * (1 + (code.maxStack + code.maxLocals) * (height + 3)) :=
  (Nat.le_add_right k _).trans (h.add_potential_le_bound hr hh L hentry)

/-- While a block waits, the bound is not reached. -/
lemma Runs.length_lt (hr : t.Rooted) {height : ℕ} (hh : ∀ c, t.height c ≤ height)
    (L : g.Laid code) (hentry : Frame.entry m code.maxLocals = .ok entry) {k b : ℕ} {s : State}
    (h : Runs (problem t.hierarchy m g code) (initial (problem t.hierarchy m g code) entry) k s)
    (hb : b ∈ s.queue) :
    k < g.size * (1 + (code.maxStack + code.maxLocals) * (height + 3)) := by
  have hbound := h.add_potential_le_bound hr hh L hentry
  obtain ⟨e, he⟩ := ((h.tidy L (tidy_initial L entry)).mem_iff b).1 hb
  have hclaim := potential_claim (Frame.rank t height)
    ((code.maxStack + code.maxLocals) * (height + 3)) he
  omega

end Bound

end Analysis

end Bytecheck
