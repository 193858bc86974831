import Mathlib.Logic.Relation
import Mathlib.Tactic.Common
import Bytecheck.Proofs.FrameOrder
import Bytecheck.Proofs.Visits

/-!
Runs of the analysis.

A run visits blocks that wait, in any order; the analysis itself takes them in the order of the
queue. Entry frames only go up along a run, and a block that does not wait has been visited with its
present entry frame: its walk is recorded, and what it sends is below the entry frames of the blocks
that it is sent to (`Sound`). A property of entry frames that merging and sending keep holds all
along a run (`entry_invariant`).
-/

namespace Bytecheck.Analysis

open Relation

variable {p : Problem} {s s' : State} {n : ℕ} {entry : Frame}

/-! ### Runs -/

/-- One visit, of any block that waits. -/
def Next (p : Problem) (s s' : State) : Prop :=
  ∃ b ∈ s.queue, (visit p { s with queue := s.queue.erase b } b).outcome = .ok s'

/-- A number of visits. -/
inductive Runs (p : Problem) (s : State) : ℕ → State → Prop
  | none : Runs p s 0 s
  | visit {n : ℕ} {s₁ s₂ : State} : Runs p s n s₁ → Next p s₁ s₂ → Runs p s (n + 1) s₂

lemma Runs.head {s₁ : State} (h : Next p s s₁) (hr : Runs p s₁ n s') : Runs p s (n + 1) s' := by
  induction hr with
  | none => exact .visit .none h
  | visit _ hn ih => exact .visit ih hn

lemma erase_of_queue {b : ℕ} {rest : List ℕ} (hq : s.queue = b :: rest) :
    s.queue.erase b = rest := by
  rw [hq, List.erase_cons_head]

/-- The visit of the block that waits longest. -/
lemma next_of_queue {b : ℕ} {rest : List ℕ} (hq : s.queue = b :: rest)
    (hok : (visit p { s with queue := rest } b).outcome = .ok s') : Next p s s' := by
  refine ⟨b, hq ▸ List.mem_cons_self, ?_⟩
  rw [erase_of_queue hq]
  exact hok

lemma loop_nil (limit fuel : ℕ) (hq : s.queue = []) :
    (loop p limit fuel s).outcome = .ok (s, 0) := by
  unfold loop
  simp only [hq]
  rfl

lemma loop_zero (limit : ℕ) {b : ℕ} {rest : List ℕ} (hq : s.queue = b :: rest) :
    (loop p limit 0 s).outcome = .error (.internal none (.iterationLimit limit)) := by
  unfold loop
  simp only [hq]
  rfl

lemma loop_succ (limit fuel : ℕ) {b : ℕ} {rest : List ℕ} (hq : s.queue = b :: rest) :
    (loop p limit (fuel + 1) s).outcome =
      ((visit p { s with queue := rest } b).outcome >>= fun s' =>
        (loop p limit fuel s').outcome >>= fun r => .ok (r.1, r.2 + 1)) := by
  rw [loop]
  simp only [hq, Traced.outcome_bind]
  rfl

/-- The visits of the analysis, in the order of the queue, until nothing waits. -/
lemma loop_ok {limit fuel : ℕ} {r : State × ℕ} (h : (loop p limit fuel s).outcome = .ok r) :
    Runs p s r.2 r.1 ∧ r.1.queue = [] := by
  induction fuel generalizing s r with
  | zero =>
    cases hq : s.queue with
    | nil =>
      rw [loop_nil limit 0 hq] at h
      cases h
      exact ⟨.none, hq⟩
    | cons b rest =>
      rw [loop_zero limit hq] at h
      cases h
  | succ fuel ih =>
    cases hq : s.queue with
    | nil =>
      rw [loop_nil limit _ hq] at h
      cases h
      exact ⟨.none, hq⟩
    | cons b rest =>
      rw [loop_succ limit fuel hq, bind_ok_iff] at h
      obtain ⟨s₁, hvisit, h⟩ := h
      obtain ⟨⟨s₂, m⟩, hloop, hr⟩ := bind_ok_iff.1 h
      cases hr
      obtain ⟨hruns, hempty⟩ := ih hloop
      exact ⟨.head (next_of_queue hq hvisit) hruns, hempty⟩

/-- The loop fails with the fault of a visit, or because it runs out of visits while a block
waits. -/
lemma loop_fails {limit fuel : ℕ} {fault : AnalysisFault}
    (h : (loop p limit fuel s).outcome = .error fault) :
    (∃ k s' b, Runs p s k s' ∧ b ∈ s'.queue ∧
      (visit p { s' with queue := s'.queue.erase b } b).outcome = .error fault) ∨
    ∃ s' b, Runs p s fuel s' ∧ b ∈ s'.queue ∧ fault = .internal none (.iterationLimit limit) := by
  induction fuel generalizing s with
  | zero =>
    cases hq : s.queue with
    | nil =>
      rw [loop_nil limit 0 hq] at h
      cases h
    | cons b rest =>
      rw [loop_zero limit hq] at h
      cases h
      exact Or.inr ⟨s, b, .none, hq ▸ List.mem_cons_self, rfl⟩
  | succ fuel ih =>
    cases hq : s.queue with
    | nil =>
      rw [loop_nil limit _ hq] at h
      cases h
    | cons b rest =>
      rw [loop_succ limit fuel hq, bind_error_iff] at h
      rcases h with hvisit | ⟨s₁, hvisit, h⟩
      · refine Or.inl ⟨0, s, b, .none, hq ▸ List.mem_cons_self, ?_⟩
        rw [erase_of_queue hq]
        exact hvisit
      · have hnext := next_of_queue hq hvisit
        rcases bind_error_iff.1 h with hloop | ⟨r, -, hr⟩
        · rcases ih hloop with ⟨k, s', c, hr, hc, hfail⟩ | ⟨s', c, hr, hc, hfault⟩
          · exact Or.inl ⟨k + 1, s', c, .head hnext hr, hc, hfail⟩
          · exact Or.inr ⟨s', c, .head hnext hr, hc, hfault⟩
        · cases hr

lemma run_ok {settings : Settings} {a : Analysis} (h : (run p settings entry).outcome = .ok a) :
    ∃ s, Runs p (initial p entry) a.visits s ∧ s.queue = [] ∧ a.before = s.before ∧
      a.after = s.after := by
  unfold run at h
  simp only [Traced.outcome_bind, bind_ok_iff] at h
  obtain ⟨⟨s, m⟩, hloop, -, -, ha⟩ := h
  cases ha
  obtain ⟨hruns, hempty⟩ := loop_ok hloop
  exact ⟨s, hruns, hempty, rfl, rfl⟩

/-! ### The queue -/

/-- The queue holds the blocks that are marked as waiting, each once. -/
structure Queue (p : Problem) (s : State) : Prop where
  states : s.states.length = p.graph.blocks.length
  nodup : s.queue.Nodup
  mem_iff : ∀ b, b ∈ s.queue ↔ ∃ f, s.states[b]? = some (.queued f)

lemma lt_of_states {b : ℕ} {st : BlockState} (h : s.states[b]? = some st) : b < s.states.length :=
  (List.getElem?_eq_some_iff.1 h).1

lemma getElem?_put {t b : ℕ} {st : BlockState} {w : Bool} (ht : t < s.states.length) :
    (s.put t st w).states[b]? = if b = t then some st else s.states[b]? := by
  by_cases hb : b = t
  · subst hb
    simp [State.put, ht]
  · simp [State.put, hb, List.getElem?_set_ne (Ne.symm hb)]

lemma Queue.put (hq : Queue p s) {t : ℕ} {st st' : BlockState} {x : Frame} {w : Bool}
    (hst : s.states[t]? = some st) (ht : Takes p.hierarchy st x st' w) :
    Queue p (s.put t st' w) := by
  have hlt := lt_of_states hst
  have hmem := hq.mem_iff t
  rw [hst] at hmem
  have hother : ∀ b, b ≠ t → (b ∈ (s.put t st' w).queue ↔ b ∈ s.queue) := by
    intro b hb
    cases w <;> simp [State.put, hb]
  refine ⟨by simp [State.put, hq.states], ?_, fun b => ?_⟩
  · cases w with
    | false => exact hq.nodup
    | true =>
      have hnot : t ∉ s.queue := by
        cases ht <;> simp [hmem]
      exact List.nodup_append.2 ⟨hq.nodup, by simp, by
        rintro a ha b hb rfl
        exact hnot (List.mem_singleton.1 hb ▸ ha)⟩
  · rw [getElem?_put hlt]
    by_cases hb : b = t
    · subst hb
      rw [if_pos rfl]
      cases ht <;> simp [State.put, hmem]
    · rw [if_neg hb, hother b hb, hq.mem_iff b]

lemma Queue.posted (hq : Queue p s) {l : List (ℕ × Frame)} (h : Posted p s l s') : Queue p s' := by
  induction h with
  | none => exact hq
  | record _ _ _ ih => exact ⟨ih.states, ih.nodup, ih.mem_iff⟩
  | post _ hp ih =>
    rcases (propagate_yields p _ _ _).1 _ hp with ⟨-, rfl⟩ | ⟨st, st', w, hst, ht, rfl⟩
    · exact ih
    · exact ih.put hst ht

/-- The state in which a block that waited is interpreted. -/
def State.claim (s : State) (b : ℕ) (e : Frame) : State :=
  State.settle { s with queue := s.queue.erase b } b e

lemma getElem?_claim {b c : ℕ} {e : Frame} (hb : b < s.states.length) :
    (s.claim b e).states[c]? = if c = b then some (.stable e) else s.states[c]? := by
  by_cases hc : c = b
  · subst hc
    simp [State.claim, State.settle, hb]
  · simp [State.claim, State.settle, hc, List.getElem?_set_ne (Ne.symm hc)]

lemma Queue.claim (hq : Queue p s) {b : ℕ} {e f : Frame} (hb : s.states[b]? = some (.queued f)) :
    Queue p (s.claim b e) := by
  refine ⟨by simp [State.claim, State.settle, hq.states], hq.nodup.erase b, fun c => ?_⟩
  rw [getElem?_claim (lt_of_states hb)]
  by_cases hc : c = b
  · subst hc
    simp [State.claim, State.settle, hq.nodup.mem_erase_iff]
  · simp [State.claim, State.settle, hq.nodup.mem_erase_iff, hc, hq.mem_iff c]

/-! ### One visit in a run -/

/-- What is kept of every state of a run. -/
structure Tidy (p : Problem) (s : State) : Prop extends Queue p s where
  before : s.before.length = p.code.size
  after : s.after.length = p.code.size

/-- A block that waits has an entry frame, and its visit does what visits do. -/
lemma Tidy.visit (L : p.graph.Laid p.code) (hs : Tidy p s) {b : ℕ} (hb : b ∈ s.queue) :
    ∃ B e, p.graph.blocks[b]? = some B ∧ s.states[b]? = some (.queued e) ∧
      Traced.Yields (visit p { s with queue := s.queue.erase b } b)
        (Visited p B e (s.claim b e)) (VisitFault p B e (s.claim b e)) := by
  obtain ⟨e, he⟩ := (hs.mem_iff b).1 hb
  have hlt : b < p.graph.blocks.length := hs.states ▸ lt_of_states he
  have hB := List.getElem?_eq_getElem hlt
  refine ⟨_, e, hB, he, visit_yields L hB ?_ ⟨hs.before, hs.after⟩⟩
  simp [State.frame?, he, BlockState.frame?]

lemma Tidy.next (L : p.graph.Laid p.code) (hs : Tidy p s) (h : Next p s s') :
    ∃ b B e, p.graph.blocks[b]? = some B ∧ s.states[b]? = some (.queued e) ∧
      Visited p B e (s.claim b e) s' ∧ Tidy p s' := by
  obtain ⟨b, hb, hvisit⟩ := h
  obtain ⟨B, e, hB, he, hyields⟩ := hs.visit L hb
  have hv := hyields.1 s' hvisit
  obtain ⟨l, hl, -⟩ := hv.posts
  exact ⟨b, B, e, hB, he, hv, (hs.toQueue.claim he).posted hl, hv.lengths.1, hv.lengths.2⟩

lemma initial_states (p : Problem) (entry : Frame) (b : ℕ) (hb : b < p.graph.blocks.length) :
    (initial p entry).states[b]? = some (if b = 0 then .queued entry else .unvisited) := by
  unfold initial FlowGraph.size
  by_cases h0 : b = 0
  · subst h0
    simp [hb]
  · dsimp only
    rw [List.getElem?_set_ne (Ne.symm h0), if_neg h0, List.getElem?_replicate, if_pos hb]

lemma first_lt (L : p.graph.Laid p.code) : 0 < p.graph.blocks.length := by
  obtain ⟨T, hT, -⟩ := L.first
  exact (List.getElem?_eq_some_iff.1 hT).1

lemma tidy_initial (L : p.graph.Laid p.code) (entry : Frame) : Tidy p (initial p entry) := by
  have hlen : (initial p entry).states.length = p.graph.blocks.length := by
    simp [initial, FlowGraph.size]
  refine ⟨⟨hlen, by simp [initial], fun b => ?_⟩, by simp [initial], by simp [initial]⟩
  by_cases hb : b < p.graph.blocks.length
  · rw [initial_states p entry b hb]
    by_cases h0 : b = 0 <;> simp [initial, h0]
  · have h0 : b ≠ 0 := by
      rintro rfl
      exact hb (first_lt L)
    rw [List.getElem?_eq_none (by omega)]
    simp [initial, h0]

lemma frame?_initial (L : p.graph.Laid p.code) {b : ℕ} {f : Frame}
    (hf : (initial p entry).frame? b = some f) : b = 0 ∧ f = entry := by
  obtain ⟨st, hst, hf⟩ := Option.bind_eq_some_iff.1 hf
  have hb := (tidy_initial L entry).states ▸ lt_of_states hst
  rw [initial_states p entry b hb] at hst
  by_cases h0 : b = 0
  · rw [if_pos h0] at hst
    cases hst
    cases hf
    exact ⟨h0, rfl⟩
  · rw [if_neg h0] at hst
    cases hst
    cases hf

lemma Runs.tidy (L : p.graph.Laid p.code) (h : Runs p s n s') (hs : Tidy p s) : Tidy p s' := by
  induction h with
  | none => exact hs
  | visit _ hn ih =>
    obtain ⟨-, -, -, -, -, -, ht⟩ := ih.next L hn
    exact ht

/-! ### Properties of entry frames -/

lemma frame?_put {t b : ℕ} {st : BlockState} {w : Bool} (ht : t < s.states.length) :
    (s.put t st w).frame? b = if b = t then st.frame? else s.frame? b := by
  unfold State.frame?
  rw [getElem?_put ht]
  split <;> rfl

lemma frame?_claim {b c : ℕ} {e : Frame} (hb : s.states[b]? = some (.queued e)) :
    (s.claim b e).frame? c = s.frame? c := by
  unfold State.frame?
  rw [getElem?_claim (lt_of_states hb)]
  split
  · rename_i hc
    rw [hc, hb]
    rfl
  · rfl

/-- A property that a block's frame and the frames posted have, and that merging keeps. -/
lemma posted_invariant {Q : ℕ → Frame → Prop}
    (hmerge : ∀ b f g m, Q b f → Q b g → f.merge p.hierarchy g = .ok m → Q b m)
    (hs : ∀ b f, s.frame? b = some f → Q b f) {l : List (ℕ × Frame)} (h : Posted p s l s')
    (hl : ∀ t x, (t, x) ∈ l → Q t x) : ∀ b f, s'.frame? b = some f → Q b f := by
  induction h with
  | none => exact hs
  | record _ _ _ ih => exact ih hl
  | post _ hp ih =>
    rename_i l s₁ s₂ t x _
    have ih := ih fun u y hu => hl u y (List.mem_append_left _ hu)
    have hx : Q t x := hl t x (List.mem_append_right _ List.mem_cons_self)
    rcases (propagate_yields p _ _ _).1 _ hp with ⟨-, rfl⟩ | ⟨st, st', w, hst, ht, rfl⟩
    · exact ih
    · intro b f hf
      rw [frame?_put (lt_of_states hst)] at hf
      split at hf
      · rename_i hb
        subst hb
        have hold : ∀ old, st.frame? = some old → Q b old := fun old h =>
          ih b old ((frame?_eq hst).trans h)
        cases ht with
        | first =>
          cases hf
          exact hx
        | waiting hm =>
          cases hf
          exact hmerge b _ _ _ (hold _ rfl) hx hm
        | kept hm _ =>
          cases hf
          exact hmerge b _ _ _ (hold _ rfl) hx hm
        | woken hm _ =>
          cases hf
          exact hmerge b _ _ _ (hold _ rfl) hx hm
      · exact ih b f hf

/-- **Properties of entry frames**: what holds of the entry frame of the method, and is kept by
merging and by sending frames, holds of all entry frames all along a run. -/
theorem entry_invariant (L : p.graph.Laid p.code) {Q : ℕ → Frame → Prop} (hentry : Q 0 entry)
    (hmerge : ∀ b f g m, Q b f → Q b g → f.merge p.hierarchy g = .ok m → Q b m)
    (hsend : ∀ b B e t x, p.graph.blocks[b]? = some B → Q b e → HasRoom p B →
      Sends p B e t x → Q t x)
    (h : Runs p (initial p entry) n s) : ∀ b f, s.frame? b = some f → Q b f := by
  have htidy := tidy_initial L entry
  induction h with
  | none =>
    intro b f hf
    obtain ⟨rfl, rfl⟩ := frame?_initial L hf
    exact hentry
  | visit hr hn ih =>
    obtain ⟨b, B, e, hB, he, hv, -⟩ := (hr.tidy L htidy).next L hn
    obtain ⟨l, hl, hmem⟩ := hv.posts
    have hQ : Q b e := ih b e (frame?_eq he)
    refine posted_invariant hmerge (fun c f hf => ?_) hl fun t x htx => ?_
    · rw [frame?_claim he] at hf
      exact ih c f hf
    · exact hsend b B e t x hB hQ hv.room ((hmem t x).1 htx)

/-! ### Entry frames go up -/

/-- How the state of a block changes while frames are posted: entry frames go up, and a block that
is stable is so with the frame it had. -/
inductive Evolves (R : VType → VType → Prop) (n : ℕ) : BlockState → BlockState → Prop
  | refl (st : BlockState) : Evolves R n st st
  | first (f : Frame) : Evolves R n .unvisited (.queued f)
  | waiting {f g : Frame} : Frame.Rel R n f g → Evolves R n (.queued f) (.queued g)
  | woken {f g : Frame} : Frame.Rel R n f g → Evolves R n (.stable f) (.queued g)

variable {R : VType → VType → Prop}

lemma Evolves.trans (U : Upper p.hierarchy R) {st st' st'' : BlockState} (h1 : Evolves R n st st')
    (h2 : Evolves R n st' st'') : Evolves R n st st'' := by
  cases h1 with
  | refl => exact h2
  | first f =>
    cases h2 with
    | refl => exact .first f
    | waiting => exact .first _
  | waiting h =>
    cases h2 with
    | refl => exact .waiting h
    | waiting h' => exact .waiting (U.rel_trans h h')
  | woken h =>
    cases h2 with
    | refl => exact .woken h
    | waiting h' => exact .woken (U.rel_trans h h')

lemma Evolves.frame (U : Upper p.hierarchy R) {st st' : BlockState} (h : Evolves R n st st')
    {f : Frame} (hf : st.frame? = some f) (hgood : f.Good n) :
    ∃ g, st'.frame? = some g ∧ Frame.Rel R n f g := by
  cases h with
  | refl => exact ⟨f, hf, U.rel_refl hgood⟩
  | first => cases hf
  | waiting h =>
    cases hf
    exact ⟨_, rfl, h⟩
  | woken h =>
    cases hf
    exact ⟨_, rfl, h⟩

/-- A block that takes a frame goes up, to above the frame. -/
lemma Takes.evolves (U : Upper p.hierarchy R) {st st' : BlockState} {x : Frame} {w : Bool}
    (h : Takes p.hierarchy st x st' w) (hx : x.Good n) (hst : ∀ f, st.frame? = some f → f.Good n) :
    Evolves R n st st' ∧ ∃ g, st'.frame? = some g ∧ Frame.Rel R n x g := by
  cases h with
  | first => exact ⟨.first x, x, rfl, U.rel_refl hx⟩
  | waiting hm =>
    obtain ⟨h1, h2⟩ := U.rel_merge (hst _ rfl) hx hm
    exact ⟨.waiting h1, _, rfl, h2⟩
  | kept hm hsame =>
    obtain ⟨h1, h2⟩ := U.rel_merge (hst _ rfl) hx hm
    have heq := ((h1.good_right U.toAlike).same_iff (hst _ rfl)).1 hsame
    subst heq
    exact ⟨.refl _, _, rfl, h2⟩
  | woken hm _ =>
    obtain ⟨h1, h2⟩ := U.rel_merge (hst _ rfl) hx hm
    exact ⟨.woken h1, _, rfl, h2⟩

lemma good_merge {h : Hierarchy} (U : Upper h R) {f g m : Frame} (hf : f.Good n)
    (hg : g.Good n) (hm : f.merge h g = .ok m) : m.Good n :=
  (U.rel_merge hf hg hm).1.good_right U.toAlike

/-- While frames are posted, blocks go up, to above what is posted to them. -/
lemma posted_evolves (U : Upper p.hierarchy R) (hs : ∀ b f, s.frame? b = some f → f.Good n)
    {l : List (ℕ × Frame)} (h : Posted p s l s') (hl : ∀ t x, (t, x) ∈ l → x.Good n) :
    (∀ (b : ℕ) st, s.states[b]? = some st → ∃ st', s'.states[b]? = some st' ∧ Evolves R n st st') ∧
      ∀ t x, (t, x) ∈ l → t < s.states.length → ∃ f, s'.frame? t = some f ∧ Frame.Rel R n x f := by
  induction h with
  | none => exact ⟨fun b st hst => ⟨st, hst, .refl st⟩, fun t x hx => by simp at hx⟩
  | record _ _ _ ih => exact ih hl
  | post hposted hp ih =>
    rename_i l s₁ s₂ t x
    have hl' : ∀ u y, (u, y) ∈ l → y.Good n := fun u y hu => hl u y (List.mem_append_left _ hu)
    obtain ⟨ih1, ih2⟩ := ih hl'
    have hx : x.Good n := hl t x (List.mem_append_right _ List.mem_cons_self)
    have hgood : ∀ b f, s₁.frame? b = some f → f.Good n :=
      posted_invariant (fun _ _ _ _ => good_merge U) hs hposted hl'
    rcases (propagate_yields p _ _ _).1 _ hp with ⟨hnone, rfl⟩ | ⟨st, st', w, hst, ht, rfl⟩
    · refine ⟨ih1, fun u y hu hlt => ?_⟩
      rcases List.mem_append.1 hu with hu | hu
      · exact ih2 u y hu hlt
      · -- there is a block to post to
        cases List.mem_singleton.1 hu
        obtain ⟨st', hst', -⟩ := ih1 t _ (List.getElem?_eq_getElem hlt)
        rw [hnone] at hst'
        cases hst'
    · have hlt := lt_of_states hst
      have hst_good : ∀ f, st.frame? = some f → f.Good n := fun f hf =>
        hgood t f ((frame?_eq hst).trans hf)
      obtain ⟨hev, g, hg, hxg⟩ := ht.evolves U hx hst_good
      refine ⟨fun b st₀ hst₀ => ?_, fun u y hu hult => ?_⟩
      · obtain ⟨st₁, hst₁, hev₁⟩ := ih1 b st₀ hst₀
        rw [getElem?_put hlt]
        split
        · rename_i hb
          subst hb
          rw [hst] at hst₁
          cases hst₁
          exact ⟨st', rfl, hev₁.trans U hev⟩
        · exact ⟨st₁, hst₁, hev₁⟩
      · rw [frame?_put hlt]
        rcases List.mem_append.1 hu with hu | hu
        · obtain ⟨f, hf, hyf⟩ := ih2 u y hu hult
          split
          · rename_i hut
            subst hut
            obtain ⟨f', hf', hff'⟩ := hev.frame U (f := f)
              ((frame?_eq hst).symm.trans hf) (hgood u f hf)
            exact ⟨f', hf', U.rel_trans hyf hff'⟩
          · exact ⟨f, hf, hyf⟩
        · cases List.mem_singleton.1 hu
          exact ⟨g, by rw [if_pos rfl, hg], hxg⟩

/-! ### Sound states -/

/-- Interpreters that keep frames good. -/
structure Steady (p : Problem) (n : ℕ) : Prop where
  step : ∀ {i insn f f'}, f.Good n → p.interpreter.step i insn f = .ok f' → f'.Good n
  caught : ∀ h, (p.interpreter.caught h).IsValue

variable {B : Block} {e : Frame}

lemma Steady.walk (S : Steady p n) (he : e.Good n) {i : ℕ} {f : Frame} (h : Walk p B e i f) :
    f.Good n := by
  induction h with
  | start => exact he
  | next _ _ _ hs ih => exact S.step ih hs

lemma rel_handlerFrame {v : VType} (hv : R v v) {f g : Frame} (h : Frame.Rel R n f g) :
    Frame.Rel R n (handlerFrame v f) (handlerFrame v g) :=
  ⟨Stack.Rel.empty.push hv, h.left, h.right, h.locals, h.paired⟩

lemma good_handlerFrame {v : VType} (hv : v.IsValue) {f : Frame} (hf : f.Good n) :
    (handlerFrame v f).Good n := rel_handlerFrame ⟨rfl, hv⟩ hf

lemma Steady.sends (S : Steady p n) (he : e.Good n) {t : ℕ} {x : Frame} (h : Sends p B e t x) :
    x.Good n := by
  cases h with
  | thrown hp _ hthrow =>
    obtain ⟨-, y, hy, rfl⟩ := hthrow
    have hf := S.walk he hp.walk
    refine good_handlerFrame (S.caught _) ?_
    rcases mem_throwing_iff.1 hy with rfl | ⟨-, rfl⟩
    · exact hf
    · exact S.step hf hp.step
  | exit hw _ => exact S.walk he hw

/-- What a block sends goes along an edge of the graph. -/
lemma Sends.linked (L : p.graph.Laid p.code) {b t : ℕ} (hB : p.graph.blocks[b]? = some B)
    {x : Frame} (h : Sends p B e t x) : p.graph.Linked b t := by
  cases h with
  | thrown hp hcatch hthrow =>
    have hstarts := L.startsAt_of_block hcatch.2.1 hthrow.1
    exact ⟨B, .exception, hB,
      (L.thrown hB).2 ⟨_, _, hp.walk.start_le, hp.lt, hcatch, hstarts⟩⟩
  | exit _ hu => exact ⟨B, .normal, hB, hu⟩

lemma linked_lt (L : p.graph.Laid p.code) {b t : ℕ} (h : p.graph.Linked b t) :
    t < p.graph.blocks.length := by
  obtain ⟨B, k, hB, ht⟩ := h
  cases k with
  | normal =>
    obtain ⟨-, -, T, hT, -⟩ := (L.exit hB).1 ht
    exact (List.getElem?_eq_some_iff.1 hT).1
  | exception =>
    obtain ⟨-, -, -, -, -, T, hT, -⟩ := (L.thrown hB).1 ht
    exact (List.getElem?_eq_some_iff.1 hT).1

/-- The walk through a block is recorded. -/
def Recorded (p : Problem) (s : State) (B : Block) (e : Frame) : Prop :=
  ∀ i, B.start ≤ i → i < B.stop → ∃ insn f f', Passes p B e i insn f f' ∧
    s.before[i]? = some (some f) ∧ s.after[i]? = some (some f')

/-- **The invariant of runs.** Entry frames are good and lie above what stable blocks send; the
walks through stable blocks are recorded, with room for exceptions, and nothing is recorded of
blocks that were not visited. -/
structure Sound (p : Problem) (R : VType → VType → Prop) (n : ℕ) (entry : Frame) (s : State) :
    Prop extends Tidy p s where
  good : ∀ b f, s.frame? b = some f → f.Good n
  entry : ∃ f, s.frame? 0 = some f ∧ Frame.Rel R n entry f
  sent : ∀ {b : ℕ} {B e}, s.states[b]? = some (.stable e) → p.graph.blocks[b]? = some B →
    ∀ t x, Sends p B e t x → ∃ f, s.frame? t = some f ∧ Frame.Rel R n x f
  recorded : ∀ {b : ℕ} {B e}, s.states[b]? = some (.stable e) → p.graph.blocks[b]? = some B →
    Recorded p s B e
  room : ∀ {b : ℕ} {B e}, s.states[b]? = some (.stable e) → p.graph.blocks[b]? = some B →
    HasRoom p B
  blank : ∀ {b : ℕ} {B : Block}, s.states[b]? = some .unvisited → p.graph.blocks[b]? = some B →
    ∀ i, B.start ≤ i → i < B.stop → s.before[i]? = some none ∧ s.after[i]? = some none
  reached : ∀ b f, s.frame? b = some f → ReflTransGen p.graph.Linked 0 b

lemma sound_initial (L : p.graph.Laid p.code) (U : Upper p.hierarchy R) (hentry : entry.Good n) :
    Sound p R n entry (initial p entry) := by
  have htidy := tidy_initial L entry
  have hstates : ∀ (b : ℕ) st, (initial p entry).states[b]? = some st →
      b < p.graph.blocks.length ∧ (b = 0 ∧ st = .queued entry ∨ b ≠ 0 ∧ st = .unvisited) := by
    intro b st hst
    have hb := htidy.states ▸ lt_of_states hst
    rw [initial_states p entry b hb] at hst
    by_cases h0 : b = 0
    · rw [if_pos h0] at hst
      cases hst
      exact ⟨hb, Or.inl ⟨h0, rfl⟩⟩
    · rw [if_neg h0] at hst
      cases hst
      exact ⟨hb, Or.inr ⟨h0, rfl⟩⟩
  refine ⟨htidy, ?_, ⟨entry, ?_, U.rel_refl hentry⟩, ?_, ?_, ?_, ?_, ?_⟩
  · intro b f hf
    rw [(frame?_initial L hf).2]
    exact hentry
  · exact frame?_eq (initial_states p entry 0 (first_lt L))
  · intro b B e hst
    rcases (hstates b _ hst).2 with ⟨-, h⟩ | ⟨-, h⟩ <;> cases h
  · intro b B e hst
    rcases (hstates b _ hst).2 with ⟨-, h⟩ | ⟨-, h⟩ <;> cases h
  · intro b B e hst
    rcases (hstates b _ hst).2 with ⟨-, h⟩ | ⟨-, h⟩ <;> cases h
  · intro b B _ hB i _ hi
    have hlt : i < p.code.size := Nat.lt_of_lt_of_le hi (L.bounds hB).2
    simp [initial, hlt]
  · intro b f hf
    rw [(frame?_initial L hf).1]

/-- The walk through a block stays recorded while other blocks are visited. -/
lemma Recorded.of_other {C : Block} (h : Recorded p s C e)
    (hsame : ∀ i, C.start ≤ i → i < C.stop →
      s'.before[i]? = s.before[i]? ∧ s'.after[i]? = s.after[i]?) : Recorded p s' C e := by
  intro i h1 h2
  rw [(hsame i h1 h2).1, (hsame i h1 h2).2]
  exact h i h1 h2

/-- What the visit of a block changes: entry frames go up, to above what the block sends; the block
is stable unless it woke itself, and no other block becomes stable; what is recorded of other blocks
stays. -/
structure Advances (p : Problem) (R : VType → VType → Prop) (n : ℕ) (s : State) (b : ℕ) (B : Block)
    (e : Frame) (s' : State) : Prop where
  up : ∀ c f, s.frame? c = some f → ∃ g, s'.frame? c = some g ∧ Frame.Rel R n f g
  good : ∀ c f, s'.frame? c = some f → f.Good n
  sent : ∀ t x, Sends p B e t x → ∃ f, s'.frame? t = some f ∧ Frame.Rel R n x f
  stable : ∀ {c : ℕ} {f}, s'.states[c]? = some (.stable f) →
    c = b ∧ f = e ∨ c ≠ b ∧ s.states[c]? = some (.stable f)
  unvisited : ∀ {c : ℕ}, s'.states[c]? = some .unvisited → c ≠ b ∧ s.states[c]? = some .unvisited
  others : ∀ {c : ℕ} {C : Block}, c ≠ b → p.graph.blocks[c]? = some C → ∀ i, C.start ≤ i →
    i < C.stop → s'.before[i]? = s.before[i]? ∧ s'.after[i]? = s.after[i]?

lemma Visited.advances (L : p.graph.Laid p.code) (U : Upper p.hierarchy R) (S : Steady p n)
    (hgood : ∀ c f, s.frame? c = some f → f.Good n) (hq : Queue p s) {b : ℕ}
    (hB : p.graph.blocks[b]? = some B) (he : s.states[b]? = some (.queued e))
    (hv : Visited p B e (s.claim b e) s') (htidy : Tidy p s') : Advances p R n s b B e s' := by
  obtain ⟨l, hl, hmem⟩ := hv.posts
  have hblt := lt_of_states he
  have hegood : e.Good n := hgood b e (frame?_eq he)
  have hclaim : ∀ c f, (s.claim b e).frame? c = some f → f.Good n := fun c f hf =>
    hgood c f (frame?_claim he ▸ hf)
  have hlgood : ∀ t x, (t, x) ∈ l → x.Good n := fun t x h => S.sends hegood ((hmem t x).1 h)
  obtain ⟨hev, hposted⟩ := posted_evolves U hclaim hl hlgood
  -- where the present state of a block comes from
  have hback : ∀ (c : ℕ) st', s'.states[c]? = some st' →
      ∃ st, (s.claim b e).states[c]? = some st ∧ Evolves R n st st' := by
    intro c st' hst'
    have hlt : c < (s.claim b e).states.length := by
      rw [(hq.claim (e := e) he).states, ← htidy.states]
      exact lt_of_states hst'
    obtain ⟨st'', hst'', hev''⟩ := hev c _ (List.getElem?_eq_getElem hlt)
    rw [hst'] at hst''
    cases hst''
    exact ⟨_, List.getElem?_eq_getElem hlt, hev''⟩
  refine ⟨?_, posted_invariant (fun _ _ _ _ => good_merge U) hclaim hl hlgood, ?_, ?_, ?_, ?_⟩
  · intro c f hf
    have hf' : (s.claim b e).frame? c = some f := by rw [frame?_claim he, hf]
    obtain ⟨st, hst, hf''⟩ := Option.bind_eq_some_iff.1 hf'
    obtain ⟨st', hst', hev'⟩ := hev c st hst
    obtain ⟨g, hg, hfg⟩ := hev'.frame U hf'' (hgood c f hf)
    exact ⟨g, (frame?_eq hst').trans hg, hfg⟩
  · intro t x hsend
    refine hposted t x ((hmem t x).2 hsend) ?_
    rw [(hq.claim (e := e) he).states]
    exact linked_lt L (hsend.linked L hB)
  · intro c f hc
    obtain ⟨st, hst, hev'⟩ := hback c _ hc
    rw [getElem?_claim hblt] at hst
    cases hev'
    split at hst
    · rename_i hcb
      cases hst
      exact Or.inl ⟨hcb, rfl⟩
    · rename_i hcb
      exact Or.inr ⟨hcb, hst⟩
  · intro c hc
    obtain ⟨st, hst, hev'⟩ := hback c _ hc
    rw [getElem?_claim hblt] at hst
    cases hev'
    split at hst
    · cases hst
    · rename_i hcb
      exact ⟨hcb, hst⟩
  · intro c C hcb hC i h1 h2
    refine hv.others i fun hin => hcb ?_
    have h3 := L.block hC h1 h2
    rw [L.block hB hin.1 hin.2] at h3
    cases h3
    rfl

/-- **A visit keeps states sound.** -/
theorem Sound.next (L : p.graph.Laid p.code) (U : Upper p.hierarchy R) (S : Steady p n)
    (hs : Sound p R n entry s) (h : Next p s s') : Sound p R n entry s' := by
  obtain ⟨b, B, e, hB, he, hv, htidy⟩ := hs.toTidy.next L h
  have hadv := hv.advances L U S hs.good hs.toQueue hB he htidy
  refine ⟨htidy, hadv.good, ?_, ?_, ?_, ?_, ?_, ?_⟩
  · obtain ⟨f, hf, hef⟩ := hs.entry
    obtain ⟨g, hg, hfg⟩ := hadv.up 0 f hf
    exact ⟨g, hg, U.rel_trans hef hfg⟩
  · intro c C f hc hC t x hsend
    rcases hadv.stable hc with ⟨rfl, rfl⟩ | ⟨-, hc⟩
    · rw [hB] at hC
      cases hC
      exact hadv.sent t x hsend
    · obtain ⟨g, hg, hxg⟩ := hs.sent hc hC t x hsend
      obtain ⟨g', hg', hgg'⟩ := hadv.up t g hg
      exact ⟨g', hg', U.rel_trans hxg hgg'⟩
  · intro c C f hc hC
    rcases hadv.stable hc with ⟨rfl, rfl⟩ | ⟨hcb, hc⟩
    · rw [hB] at hC
      cases hC
      exact hv.recorded
    · exact (hs.recorded hc hC).of_other (hadv.others hcb hC)
  · intro c C f hc hC
    rcases hadv.stable hc with ⟨rfl, rfl⟩ | ⟨-, hc⟩
    · rw [hB] at hC
      cases hC
      exact hv.room
    · exact hs.room hc hC
  · intro c C hc hC i h1 h2
    obtain ⟨hcb, hc⟩ := hadv.unvisited hc
    rw [(hadv.others hcb hC i h1 h2).1, (hadv.others hcb hC i h1 h2).2]
    exact hs.blank hc hC i h1 h2
  · obtain ⟨l, hl, hmem⟩ := hv.posts
    refine posted_invariant (fun _ _ _ _ h _ _ => h) (fun c f hf => ?_) hl fun t x htx => ?_
    · exact hs.reached c f (frame?_claim he ▸ hf)
    · have hb : ReflTransGen p.graph.Linked 0 b :=
        hs.reached b e (frame?_eq he)
      exact hb.tail (((hmem t x).1 htx).linked L hB)

lemma Runs.sound (L : p.graph.Laid p.code) (U : Upper p.hierarchy R) (S : Steady p n)
    (hentry : entry.Good n) {m : ℕ} (h : Runs p (initial p entry) m s) : Sound p R n entry s := by
  induction h with
  | none => exact sound_initial L U hentry
  | visit _ hn ih => exact ih.next L U S hn

/-! ### When nothing waits -/

lemma Recorded.walk_stop (L : p.graph.Laid p.code) {b : ℕ} (hB : p.graph.blocks[b]? = some B)
    (h : Recorded p s B e) :
    ∃ f, Walk p B e B.stop f ∧ s.after[B.stop - 1]? = some (some f) := by
  have hb := L.bounds hB
  obtain ⟨insn, f, f', hp, -, hf'⟩ := h (B.stop - 1) (by omega) (by omega)
  have hw := Walk.next hp.walk hp.lt hp.code hp.step
  rw [Nat.sub_add_cancel (by omega)] at hw
  exact ⟨f', hw, hf'⟩

/-- A recorded block sends something along each of its edges. -/
lemma Recorded.sends (L : p.graph.Laid p.code) {b t : ℕ} (hB : p.graph.blocks[b]? = some B)
    (h : Recorded p s B e) (hlink : p.graph.Linked b t) : ∃ x, Sends p B e t x := by
  obtain ⟨B', k, hB', ht⟩ := hlink
  rw [hB] at hB'
  cases hB'
  cases k with
  | normal =>
    obtain ⟨f, hf, -⟩ := h.walk_stop L hB
    exact ⟨f, .exit hf ht⟩
  | exception =>
    obtain ⟨i, hd, h1, h2, hcatch, hstarts⟩ := (L.thrown hB).1 ht
    obtain ⟨insn, f, f', hp, -⟩ := h i h1 h2
    exact ⟨_, .thrown hp hcatch
      ⟨L.block_of_startsAt hstarts, f, mem_throwing_iff.2 (Or.inl rfl), rfl⟩⟩

/-- When nothing waits, the blocks are stable, save for those that were never visited. -/
lemma Queue.unvisited_or_stable (h : Queue p s) (hq : s.queue = []) {b : ℕ}
    (hb : b < p.graph.blocks.length) :
    s.states[b]? = some .unvisited ∨ ∃ e, s.states[b]? = some (.stable e) := by
  obtain ⟨st, hst⟩ : ∃ st, s.states[b]? = some st :=
    ⟨_, List.getElem?_eq_getElem (h.states.symm ▸ hb)⟩
  cases st with
  | unvisited => exact Or.inl hst
  | queued f =>
    have := (h.mem_iff b).2 ⟨f, hst⟩
    rw [hq] at this
    cases this
  | stable e => exact Or.inr ⟨e, hst⟩

lemma Sound.stable_of_frame (hs : Sound p R n entry s) (hq : s.queue = []) {b : ℕ} {f : Frame}
    (hf : s.frame? b = some f) : s.states[b]? = some (.stable f) := by
  obtain ⟨st, hst, hf⟩ := Option.bind_eq_some_iff.1 hf
  rcases hs.unvisited_or_stable hq (hs.states ▸ lt_of_states hst) with h | ⟨e, h⟩
  · rw [h] at hst
    cases hst
    cases hf
  · rw [h] at hst
    cases hst
    cases hf
    exact h

/-- **When nothing waits**, exactly the blocks that can be reached are stable. -/
theorem Sound.stable_iff (L : p.graph.Laid p.code) (hs : Sound p R n entry s) (hq : s.queue = [])
    {b : ℕ} : (∃ e, s.states[b]? = some (.stable e)) ↔ ReflTransGen p.graph.Linked 0 b := by
  constructor
  · rintro ⟨e, he⟩
    exact hs.reached b e (frame?_eq he)
  · intro h
    induction h with
    | refl =>
      obtain ⟨f, hf, -⟩ := hs.entry
      exact ⟨f, hs.stable_of_frame hq hf⟩
    | tail _ hlink ih =>
      obtain ⟨e, he⟩ := ih
      obtain ⟨B, k, hB, ht⟩ := id hlink
      obtain ⟨x, hx⟩ := (hs.recorded he hB).sends L hB hlink
      obtain ⟨f, hf, -⟩ := hs.sent he hB _ x hx
      exact ⟨f, hs.stable_of_frame hq hf⟩

end Bytecheck.Analysis
