import Mathlib.Tactic.Common
import Bytecheck.Proofs.FixedPoint

/-!
Where uninitialized values come from.

An uninitialized value names the `new` that made it. All along a run, and whatever the classes are,
the uninitialized values of an entry frame were made in other blocks that have been visited. So the
frame in which a `new` is interpreted never holds a value that the same instruction made before
(`Runs.fresh`).
-/

namespace Bytecheck

/-- A value is on the stack or in a local. -/
def Frame.Has (f : Frame) (x : VType) : Prop := x ∈ f.stack.toList ∨ x ∈ f.locals

section Has

variable {n : ℕ} {f g : Frame} {r : RefType} {o : ℕ}

lemma Frame.any_iff {q : VType → Bool} : f.any q = true ↔ ∃ x, f.Has x ∧ q x = true := by
  unfold Frame.any Frame.Has
  simp only [Bool.or_eq_true, List.any_eq_true]
  constructor
  · rintro (⟨x, hx, hq⟩ | ⟨x, hx, hq⟩)
    · exact ⟨x, Or.inl hx, hq⟩
    · exact ⟨x, Or.inr hx, hq⟩
  · rintro ⟨x, hx | hx, hq⟩
    · exact Or.inl ⟨x, hx, hq⟩
    · exact Or.inr ⟨x, hx, hq⟩

/-- The values of a frame are related to themselves, unset locals apart. -/
lemma Frame.Rel.of_has {V : VType → Prop} (h : Frame.Rel (Diag V) n f f) {x : VType} (hx : f.Has x)
    (htop : x ≠ .top) : V x := by
  rcases hx with hx | hx
  · exact (List.forall₂_same.1 (Stack.rel_iff.1 h.stack).2.2 x hx).2
  · obtain ⟨i, hi⟩ := List.mem_iff_getElem?.1 hx
    rcases h.locals i x x hi hi with ⟨-, h⟩ | ⟨-, h⟩
    · exact absurd h htop
    · exact h

lemma Frame.Good.rel_diag {V : VType → Prop} (hf : f.Good n) (hV : ∀ x, f.Has x → x.IsValue → V x) :
    Frame.Rel (Diag V) n f f where
  stack := by
    obtain ⟨h1, -, -⟩ := Stack.rel_iff.1 hf.stack
    refine Stack.rel_iff.2 ⟨h1, h1, List.forall₂_same.2 fun x hx => ⟨rfl, ?_⟩⟩
    exact hV x (Or.inl hx) (hf.stack_isValue hx)
  left := hf.left
  right := hf.left
  locals := by
    intro i x y hx hy
    rcases hf.locals i x y hx hy with h | ⟨rfl, h⟩
    · exact Or.inl h
    · exact Or.inr ⟨rfl, hV x (Or.inr (List.mem_of_getElem? hx)) h⟩
  paired := hf.paired

/-- Below a frame with an uninitialized value there is the same value. -/
lemma Frame.Rel.has_uninit (h : Frame.Rel Kindred n f g) (hg : g.Has (.uninit r o)) :
    f.Has (.uninit r o) := by
  have hbelow : ∀ {x : VType}, Kindred x (.uninit r o) → x = .uninit r o := by
    rintro x ⟨-, -, h | ⟨-, s, hs⟩⟩
    · exact h
    · cases hs
  rcases hg with hg | hg
  · obtain ⟨i, hi⟩ := List.mem_iff_getElem?.1 hg
    obtain ⟨x, hx, hk⟩ := h.stack.exists_left hi
    exact Or.inl (hbelow hk ▸ List.mem_of_getElem? hx)
  · obtain ⟨i, hi⟩ := List.mem_iff_getElem?.1 hg
    obtain ⟨x, hx, ⟨-, ht⟩ | hk⟩ := h.exists_left hi
    · cases ht
    · exact Or.inr (hbelow hk ▸ List.mem_of_getElem? hx)

end Has

namespace Analysis

open Transfer

variable {h : Hierarchy} {m : Method} {g : FlowGraph} {code : Code} {entry e f x : Frame}
  {B : Block} {r : RefType} {n o : ℕ} {s s' : State}

/-! ### One block -/

/-- An instruction makes uninitialized values that name itself only. -/
lemma has_of_step {c : Context} {i : ℕ} {insn : Instruction ℕ} {f' : Frame} (hf : f.Good n)
    (hstep : step c i insn f = .ok f') (ho : f'.Has (.uninit r o)) :
    f.Has (.uninit r o) ∨ o = i := by
  -- the values of the frame, with those that can be made here, are kept by every instruction
  let V : VType → Prop := fun x => x.IsValue ∧ ∀ r o, x = .uninit r o → f.Has x ∨ o = i
  have hV : Universe V := by
    refine ⟨And.left, fun hx => ⟨universe_isValue.fixed hx, ?_⟩⟩
    rintro r o rfl
    cases hx
  have hrel : Frame.Rel (Diag V) n f f :=
    hf.rel_diag fun x hx hval => ⟨hval, fun r o _ => Or.inl hx⟩
  have hnew : ∀ r, insn = .op (.new r) → r.isArray = false →
      Diag V (.uninit r i) (.uninit r i) := by
    refine fun r _ _ => ⟨rfl, ⟨by simp, by simp⟩, ?_⟩
    intro r' o' h
    cases h
    exact Or.inr rfl
  have hrel' := ((hV.simulation c).step insn hnew hrel).related hstep hstep
  exact (hrel'.of_has ho (by simp)).2 r o rfl

lemma has_of_walk (he : e.Good n) {i : ℕ} (hw : Walk (problem h m g code) B e i f)
    (ho : f.Has (.uninit r o)) : e.Has (.uninit r o) ∨ B.start ≤ o ∧ o < i := by
  have S := steady_interpreter ⟨h, m, code.maxStack⟩ h g code n
  induction hw with
  | start => exact Or.inl ho
  | next hw _ _ hs ih =>
    rcases has_of_step (S.walk he hw) hs ho with ho | rfl
    · rcases ih ho with ho | ⟨h1, h2⟩
      · exact Or.inl ho
      · exact Or.inr ⟨h1, by omega⟩
    · exact Or.inr ⟨hw.start_le, Nat.lt_succ_self _⟩

/-- The uninitialized values that a block sends are those of its entry frame and its own. -/
lemma has_of_sends (he : e.Good n) {t : ℕ} (hx : Sends (problem h m g code) B e t x)
    (ho : x.Has (.uninit r o)) : e.Has (.uninit r o) ∨ B.start ≤ o ∧ o < B.stop := by
  cases hx with
  | exit hw _ => exact has_of_walk he hw ho
  | thrown hp _ hthrow =>
    obtain ⟨-, y, hy, rfl⟩ := hthrow
    have hlocal : y.Has (.uninit r o) := by
      rcases ho with ho | ho
      · cases List.mem_singleton.1 ho
      · exact Or.inr ho
    have hlt := hp.lt
    have hwalk : ∃ i, i ≤ B.stop ∧ Walk (problem h m g code) B e i y := by
      rcases mem_throwing_iff.1 hy with rfl | ⟨-, rfl⟩
      · exact ⟨_, Nat.le_of_lt hlt, hp.walk⟩
      · exact ⟨_, hlt, .next hp.walk hlt hp.code hp.step⟩
    obtain ⟨i, hi, hw⟩ := hwalk
    exact (has_of_walk he hw hlocal).imp_right fun ⟨h1, h2⟩ => ⟨h1, by omega⟩

/-! ### Runs -/

/-- The value comes from a block that has an entry frame. -/
def MadeIn (p : Problem) (s : State) (o c : ℕ) : Prop :=
  p.graph.block? o = some c ∧ (s.frame? c).isSome = true

/-- The uninitialized values of entry frames come from other blocks. -/
def Foreign (p : Problem) (s : State) : Prop :=
  ∀ b f r o, s.frame? b = some f → f.Has (.uninit r o) → ∃ c, MadeIn p s o c ∧ c ≠ b

/-- While frames are posted, the uninitialized values of entry frames come from other blocks. -/
lemma posted_foreign {p : Problem} (hs : Foreign p s)
    (hgood : ∀ b f, s.frame? b = some f → f.Good n) {l : List (ℕ × Frame)}
    (hposted : Posted p s l s')
    (hl : ∀ t x, (t, x) ∈ l → x.Good n ∧ ∀ r o, x.Has (.uninit r o) → ∃ c, MadeIn p s o c) :
    Foreign p s' ∧ ∀ c, (s.frame? c).isSome = true → (s'.frame? c).isSome = true := by
  have U := kindred_upper p.hierarchy
  induction hposted with
  | none => exact ⟨hs, fun _ h => h⟩
  | record _ _ _ ih => exact ih hl
  | @post l s₁ s₂ t x hposted hp ih =>
    have hl' := fun u y (hu : (u, y) ∈ l) => hl u y (List.mem_append_left _ hu)
    obtain ⟨hforeign, hkeep⟩ := ih hl'
    obtain ⟨hx, hmade⟩ := hl t x (List.mem_append_right _ List.mem_cons_self)
    have hgood₁ : ∀ b f, s₁.frame? b = some f → f.Good n :=
      posted_invariant (fun _ _ _ _ => good_merge U) hgood hposted fun u y hu => (hl' u y hu).1
    rcases (propagate_yields p _ _ _).1 _ hp with ⟨-, rfl⟩ | ⟨st, st', w, hst, ht, rfl⟩
    · exact ⟨hforeign, hkeep⟩
    have hlt := lt_of_states hst
    have hstay : ∀ c, (s₁.frame? c).isSome = true → ((s₁.put t st' w).frame? c).isSome = true := by
      intro c hc
      rw [frame?_put hlt]
      split
      · cases ht <;> rfl
      · exact hc
    refine ⟨?_, fun c hc => hstay c (hkeep c hc)⟩
    intro b f r o hf ho
    rw [frame?_put hlt] at hf
    split at hf
    · rename_i hb
      subst hb
      -- what the block held before the merge, it holds no more than that
      have hold : ∀ {old new}, st.frame? = some old → old.merge p.hierarchy x = .ok new →
          new.Has (.uninit r o) → ∃ c, MadeIn p (s₁.put b st' w) o c ∧ c ≠ b := by
        intro old new hold hm hnew
        have hframe : s₁.frame? b = some old := (frame?_eq hst).trans hold
        have hup := (U.rel_merge (hgood₁ b old hframe) hx hm).1
        obtain ⟨c, ⟨h1, h2⟩, hne⟩ := hforeign b old r o hframe (hup.has_uninit hnew)
        exact ⟨c, ⟨h1, hstay c h2⟩, hne⟩
      cases ht with
      | first =>
        cases hf
        obtain ⟨c, h1, h2⟩ := hmade r o ho
        refine ⟨c, ⟨h1, hstay c (hkeep c h2)⟩, ?_⟩
        -- the block has no entry frame yet, so nothing was made in it
        rintro rfl
        have hnone : s₁.frame? c = none := frame?_eq hst
        have := hkeep c h2
        rw [hnone] at this
        cases this
      | waiting hm =>
        cases hf
        exact hold rfl hm ho
      | kept hm _ =>
        cases hf
        exact hold rfl hm ho
      | woken hm _ =>
        cases hf
        exact hold rfl hm ho
    · obtain ⟨c, ⟨h1, h2⟩, hne⟩ := hforeign b f r o hf ho
      exact ⟨c, ⟨h1, hstay c h2⟩, hne⟩

lemma entry_uninit {k : ℕ} (hentry : Frame.entry m k = .ok entry) : ¬ entry.Has (.uninit r o) := by
  rintro (ho | ho)
  · rw [(entry_ok hentry).2] at ho
    cases ho
  rcases mem_locals_entry hentry ho with harg | htop
  · -- no argument was made by a `new` of the method
    unfold Frame.arguments Frame.receiver at harg
    rcases List.mem_append.1 harg with harg | harg
    · split at harg
      · have := List.mem_singleton.1 harg
        split at this <;> cases this
      · cases harg
    · obtain ⟨q, -, hq⟩ := List.mem_map.1 harg
      rcases q with b | r
      · cases b <;> cases hq
      · cases hq
  · cases htop

/-- **All along a run**, the uninitialized values of entry frames come from other blocks. -/
lemma Runs.foreign (L : g.Laid code) (hentry : Frame.entry m code.maxLocals = .ok entry) {k : ℕ}
    (hruns : Runs (problem h m g code) (initial (problem h m g code) entry) k s) :
    Foreign (problem h m g code) s := by
  have S : Steady (problem h m g code) code.maxLocals := steady_interpreter _ _ _ _ _
  have hsound : ∀ {k s}, Runs (problem h m g code) (initial (problem h m g code) entry) k s →
      Sound (problem h m g code) Kindred code.maxLocals entry s := fun hr =>
    hr.sound L (kindred_upper h) S (good_entry hentry)
  induction hruns with
  | none =>
    intro b f r o hf ho
    obtain ⟨-, rfl⟩ := frame?_initial (p := problem h m g code) L hf
    exact absurd ho (entry_uninit hentry)
  | @visit k s₁ s₂ hr hn ih =>
    have hs := hsound hr
    obtain ⟨b, B, e, hB, he, hv, -⟩ := hs.toTidy.next L hn
    have hframe : s₁.frame? b = some e := frame?_eq he
    obtain ⟨l, hl, hmem⟩ := hv.posts
    have hclaim : ∀ c, (s₁.claim b e).frame? c = s₁.frame? c := fun c => frame?_claim he
    refine (posted_foreign (n := code.maxLocals) ?_ ?_ hl fun t x htx => ?_).1
    · intro c f r o hf ho
      rw [hclaim] at hf
      obtain ⟨d, ⟨h1, h2⟩, hne⟩ := ih c f r o hf ho
      exact ⟨d, ⟨h1, by rw [hclaim]; exact h2⟩, hne⟩
    · intro c f hf
      rw [hclaim] at hf
      exact hs.good c f hf
    · have hegood := hs.good b e hframe
      have hsend := (hmem t x).1 htx
      refine ⟨S.sends hegood hsend, fun r o ho => ?_⟩
      rcases has_of_sends hegood hsend ho with ho | ⟨h1, h2⟩
      · obtain ⟨d, ⟨h1, h2⟩, -⟩ := ih b e r o hframe ho
        exact ⟨d, h1, by rw [hclaim]; exact h2⟩
      · exact ⟨b, L.block hB h1 h2, by rw [hclaim, hframe]; rfl⟩

/-- **A `new` never meets its own values**: in every run, the frame in which an instruction is
interpreted holds no uninitialized value that the same instruction made. -/
theorem Runs.fresh (L : g.Laid code) (hentry : Frame.entry m code.maxLocals = .ok entry) {k : ℕ}
    (hruns : Runs (problem h m g code) (initial (problem h m g code) entry) k s) {b i : ℕ}
    (hB : g.blocks[b]? = some B) (he : s.frame? b = some e)
    (hw : Walk (problem h m g code) B e i f) (hi : i < B.stop) :
    f.any (VType.isUninitFrom i) = false := by
  have S : Steady (problem h m g code) code.maxLocals := steady_interpreter _ _ _ _ _
  have hegood := (hruns.sound L (kindred_upper h) S (good_entry hentry)).good b e he
  rw [Bool.eq_false_iff]
  intro hany
  obtain ⟨x, hx, ho⟩ := Frame.any_iff.1 hany
  cases x with
  | uninit r o =>
    have ho : o = i := by simpa [VType.isUninitFrom] using ho
    subst ho
    rcases has_of_walk hegood hw hx with hx | ⟨-, h2⟩
    · obtain ⟨c, ⟨hc, -⟩, hne⟩ := hruns.foreign L hentry b e r o he hx
      have hb := L.block hB hw.start_le hi
      have hcb : some c = some b := hc.symm.trans hb
      cases hcb
      exact hne rfl
    · omega
  | _ => cases ho

/-- The frame recorded before an instruction holds nothing that the instruction made. -/
lemma EndsWith.fresh {v : Verified} {k i : ℕ} (hends : EndsWith h m code v g entry k s)
    (hf : v.frame? i = some f) : ¬ f.Has (.uninit r i) := by
  intro hhas
  have hf' : s.before[i]? = some (some f) := hends.before ▸ frame?_eq_some_iff.1 hf
  obtain ⟨b, B, e, insn, f₁, f₂, hB, he, hp, hf₁, -⟩ :=
    (hends.sound (kindred_upper h)).exists_passes hends.laid hends.empty (Or.inl ⟨f, hf'⟩)
  rw [hf'] at hf₁
  cases hf₁
  have hnone := hends.runs.fresh hends.laid hends.entered hB (frame?_eq he) hp.walk hp.lt
  rw [Bool.eq_false_iff] at hnone
  exact hnone (Frame.any_iff.2 ⟨_, hhas, by simp [VType.isUninitFrom]⟩)

/-- A `new` that does not meet its own values does not complain about them. -/
lemma step_new_ne_stale {c : Context} {i j : ℕ} (hf : f.any (VType.isUninitFrom i) = false) :
    step c i (.op (.new r)) f ≠ .error (.type (.staleUninitialized j)) := by
  unfold step effect stepOp
  dsimp only
  rw [hf]
  cases r.isArray with
  | true => simp [bind, Except.bind]
  | false =>
    simp only [Bool.false_eq_true, if_false, bind, Except.bind]
    split <;> simp

end Analysis

end Bytecheck
