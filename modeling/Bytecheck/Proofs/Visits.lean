import Mathlib.Tactic.Common
import Bytecheck.Analysis
import Bytecheck.Proofs.Layout
import Bytecheck.Proofs.Outcomes

/-!
What the visit of a block does.

The frames of a block are those of a walk from its entry frame, and the block sends frames to other
blocks: the one at its exit and those of the handlers of its instructions. `visit_yields` says that
a visit posts exactly the frames that the block sends, one after the other, and records the walk;
and that it fails only where a step of the walk fails, a frame sent cannot be merged, or there is no
room for an exception.
-/

namespace Bytecheck.Analysis

variable {p : Problem} {B : Block} {e : Frame}

/-! ### Walks -/

/-- The frame before an instruction, on the way through a block from its entry frame. The way ends
after the last instruction. -/
inductive Walk (p : Problem) (B : Block) (e : Frame) : ℕ → Frame → Prop
  | start : Walk p B e B.start e
  | next {i : ℕ} {insn : Instruction ℕ} {f f' : Frame} : Walk p B e i f → i < B.stop →
      p.code.instructions[i]? = some insn → p.interpreter.step i insn f = .ok f' →
      Walk p B e (i + 1) f'

/-- The walk through a block leads over an instruction, with the frames before and after it. -/
structure Passes (p : Problem) (B : Block) (e : Frame) (i : ℕ) (insn : Instruction ℕ)
    (f f' : Frame) : Prop where
  walk : Walk p B e i f
  lt : i < B.stop
  code : p.code.instructions[i]? = some insn
  step : p.interpreter.step i insn f = .ok f'

lemma Walk.start_le {i : ℕ} {f : Frame} (h : Walk p B e i f) : B.start ≤ i := by
  induction h with
  | start => exact Nat.le_refl _
  | next _ _ _ _ ih => exact Nat.le_succ_of_le ih

lemma Walk.cases {i : ℕ} {f : Frame} (h : Walk p B e i f) :
    (i = B.start ∧ f = e) ∨ ∃ j insn g, i = j + 1 ∧ Passes p B e j insn g f := by
  cases h with
  | start => exact Or.inl ⟨rfl, rfl⟩
  | next h hlt hi hs => exact Or.inr ⟨_, _, _, rfl, h, hlt, hi, hs⟩

/-- There is one way through a block. -/
lemma Walk.unique {i : ℕ} {f g : Frame} (hf : Walk p B e i f) (hg : Walk p B e i g) : f = g := by
  induction hf generalizing g with
  | start =>
    rcases hg.cases with ⟨-, rfl⟩ | ⟨j, _, _, hj, h⟩
    · rfl
    · exact absurd h.walk.start_le (by omega)
  | next h _ hi hs ih =>
    rcases hg.cases with ⟨hj, -⟩ | ⟨j, _, _, hj, h'⟩
    · exact absurd h.start_le (by omega)
    · cases hj
      have hi' := h'.code
      rw [hi] at hi'
      cases hi'
      have hs' := h'.step
      rw [← ih h'.walk, hs] at hs'
      cases hs'
      rfl

lemma Passes.unique {i : ℕ} {insn insn' : Instruction ℕ} {f f' g g' : Frame}
    (h : Passes p B e i insn f f') (h' : Passes p B e i insn' g g') :
    insn = insn' ∧ f = g ∧ f' = g' := by
  have hi := h.code
  rw [h'.code] at hi
  cases hi
  have hfg := h.walk.unique h'.walk
  subst hfg
  have hs := h.step
  rw [h'.step] at hs
  cases hs
  exact ⟨rfl, rfl, rfl⟩

/-! ### Frames sent -/

lemma mem_throwing_iff {insn : Instruction ℕ} {f f' x : Frame} :
    x ∈ throwing insn f f' ↔ x = f ∨ insn.writesLocal = true ∧ x = f' := by
  unfold throwing
  cases insn.writesLocal <;> simp

/-- An exception at an instruction, caught by a handler, brings a frame to a block. -/
def Throws (p : Problem) (insn : Instruction ℕ) (f f' : Frame) (h : Handler) (t : ℕ) (x : Frame) :
    Prop :=
  p.graph.block? h.entry = some t ∧
    ∃ y ∈ throwing insn f f', x = handlerFrame (p.interpreter.caught h) y

/-- The frames that a block sends to blocks when it is entered with a frame. -/
inductive Sends (p : Problem) (B : Block) (e : Frame) : ℕ → Frame → Prop
  | thrown {i : ℕ} {insn : Instruction ℕ} {f f' : Frame} {h : Handler} {t : ℕ} {x : Frame} :
      Passes p B e i insn f f' → p.code.Catches i h → Throws p insn f f' h t x → Sends p B e t x
  | exit {f : Frame} {t : ℕ} :
      Walk p B e B.stop f → (t, EdgeKind.normal) ∈ B.successors → Sends p B e t f

/-! ### Propagation -/

/-- How a block takes a frame: its new state, and whether it is put on the queue. -/
inductive Takes (h : Hierarchy) : BlockState → Frame → BlockState → Bool → Prop
  | first (x : Frame) : Takes h .unvisited x (.queued x) true
  | waiting {old new x : Frame} : old.merge h x = .ok new →
      Takes h (.queued old) x (.queued new) false
  | kept {old new x : Frame} : old.merge h x = .ok new → new.same old = true →
      Takes h (.stable old) x (.stable new) false
  | woken {old new x : Frame} : old.merge h x = .ok new → new.same old = false →
      Takes h (.stable old) x (.queued new) true

/-- The state after a block took a frame. -/
def State.put (s : State) (t : ℕ) (st : BlockState) (woken : Bool) : State :=
  { s with states := s.states.set t st, queue := if woken then s.queue ++ [t] else s.queue }

/-- The entry frame of a block in a state of the analysis. -/
def State.frame? (s : State) (b : ℕ) : Option Frame := (s.states[b]?).bind BlockState.frame?

lemma frame?_eq {s : State} {b : ℕ} {st : BlockState} (h : s.states[b]? = some st) :
    s.frame? b = st.frame? := by
  unfold State.frame?
  rw [h]
  rfl

/-- Where a fault of a merge into a block is reported. -/
def Problem.place (p : Problem) (t : ℕ) : ℕ := ((p.graph.blocks[t]?).map Block.start).getD 0

lemma outcome_mergeEntry (p : Problem) (place : ℕ) (old x : Frame) :
    (mergeEntry p place old x).outcome =
      ((old.merge p.hierarchy x).mapError (.type place)).map fun m => (!m.same old, m) := by
  unfold mergeEntry
  rw [Frame.mergeInto_eq, Traced.outcome_bind, Traced.outcome_note]
  cases old.merge p.hierarchy x <;> rfl

lemma propagate_yields (p : Problem) (s : State) (t : ℕ) (x : Frame) :
    Traced.Yields (propagate p s t x)
      (fun s' => (s.states[t]? = none ∧ s' = s) ∨
        ∃ st st' w, s.states[t]? = some st ∧ Takes p.hierarchy st x st' w ∧ s' = s.put t st' w)
      (fun fault => ∃ old k, s.frame? t = some old ∧ old.merge p.hierarchy x = .error k ∧
        fault = .type (p.place t) k) := by
  -- the merge into a block that has a frame
  have hmerge : ∀ old, s.frame? t = some old → Traced.Yields (mergeEntry p (p.place t) old x)
      (fun r => old.merge p.hierarchy x = .ok r.2 ∧ r.1 = !r.2.same old)
      (fun fault => ∃ old k, s.frame? t = some old ∧ old.merge p.hierarchy x = .error k ∧
        fault = .type (p.place t) k) := by
    intro old hold
    unfold Traced.Yields
    rw [outcome_mergeEntry]
    cases hm : old.merge p.hierarchy x with
    | ok m => exact ⟨fun r hr => by cases hr; exact ⟨rfl, rfl⟩, fun e he => by cases he⟩
    | error k =>
      exact ⟨fun r hr => (by cases hr), fun e he => by cases he; exact ⟨old, k, hold, hm, rfl⟩⟩
  unfold propagate
  split
  · rename_i hn
    exact Traced.yields_pure (Or.inl ⟨hn, rfl⟩)
  · rename_i hn
    exact Traced.yields_pure (Or.inr ⟨_, _, _, hn, .first x, rfl⟩)
  · rename_i old hn
    refine (hmerge old (frame?_eq hn)).bind fun ⟨_, new⟩ ⟨hm, _⟩ => ?_
    exact Traced.yields_pure (Or.inr ⟨_, _, _, hn, .waiting hm, rfl⟩)
  · rename_i old hn
    refine (hmerge old (frame?_eq hn)).bind fun ⟨changed, new⟩ ⟨hm, hchanged⟩ => ?_
    cases changed with
    | true =>
      have hsame : new.same old = false := by simpa using hchanged
      exact Traced.yields_pure (Or.inr ⟨_, _, _, hn, .woken hm hsame, rfl⟩)
    | false =>
      have hsame : new.same old = true := by simpa using hchanged
      exact Traced.yields_pure (Or.inr ⟨_, _, _, hn, .kept hm hsame, rfl⟩)

/-- Frames are posted to blocks one after the other. What is recorded of instructions may change. -/
inductive Posted (p : Problem) (s : State) : List (ℕ × Frame) → State → Prop
  | none : Posted p s [] s
  | post {l : List (ℕ × Frame)} {s₁ s₂ : State} {t : ℕ} {x : Frame} : Posted p s l s₁ →
      (propagate p s₁ t x).outcome = .ok s₂ → Posted p s (l ++ [(t, x)]) s₂
  | record {l : List (ℕ × Frame)} {s₁ : State} (before after : List (Option Frame)) :
      Posted p s l s₁ → Posted p s l { s₁ with before := before, after := after }

/-- The frames with a property, and no others, are posted. -/
def Posts (p : Problem) (s : State) (P : ℕ → Frame → Prop) (s' : State) : Prop :=
  ∃ l, Posted p s l s' ∧ ∀ t x, (t, x) ∈ l ↔ P t x

/-- Why the visit of a block fails. -/
inductive VisitFault (p : Problem) (B : Block) (e : Frame) (s : State) : AnalysisFault → Prop
  | step {i : ℕ} {insn : Instruction ℕ} {f : Frame} {k : StepFault} : Walk p B e i f → i < B.stop →
      p.code.instructions[i]? = some insn → p.interpreter.step i insn f = .error k →
      VisitFault p B e s (.ofStep i k)
  | room {i : ℕ} {insn : Instruction ℕ} {f f' : Frame} {h : Handler} : Passes p B e i insn f f' →
      p.code.Catches i h → p.code.maxStack < 1 →
      VisitFault p B e s (.type i (.stackOverflow p.code.maxStack))
  | merge {t : ℕ} {x old : Frame} {s' : State} {P : ℕ → Frame → Prop} {k : TypeFault} :
      Sends p B e t x → Posts p s P s' → (∀ u y, P u y → Sends p B e u y) →
      s'.frame? t = some old → old.merge p.hierarchy x = .error k →
      VisitFault p B e s (.type (p.place t) k)

/-- Some more frames are posted, and nothing else changes. -/
structure PostsMore (p : Problem) (s₀ : State) (P : ℕ → Frame → Prop) (s s' : State) : Prop where
  posts : Posts p s₀ P s'
  before : s'.before = s.before
  after : s'.after = s.after

lemma yields_post {s₀ s : State} {P : ℕ → Frame → Prop} {t : ℕ} {x : Frame} (hs : Posts p s₀ P s)
    (hP : ∀ u y, P u y → Sends p B e u y) (hx : Sends p B e t x) :
    Traced.Yields (propagate p s t x)
      (PostsMore p s₀ (fun u y => P u y ∨ u = t ∧ y = x) s) (VisitFault p B e s₀) := by
  obtain ⟨l, hl, hmem⟩ := hs
  constructor
  · intro s' hs'
    have hcases := (propagate_yields p s t x).1 s' hs'
    refine ⟨⟨_, hl.post hs', fun u y => ?_⟩, ?_, ?_⟩
    · rw [List.mem_append, hmem]
      simp
    · rcases hcases with ⟨-, rfl⟩ | ⟨-, -, -, -, -, rfl⟩ <;> rfl
    · rcases hcases with ⟨-, rfl⟩ | ⟨-, -, -, -, -, rfl⟩ <;> rfl
  · intro fault hfault
    obtain ⟨old, k, hold, hm, rfl⟩ := (propagate_yields p s t x).2 fault hfault
    exact .merge hx ⟨l, hl, hmem⟩ hP hold hm

/-- A loop that posts frames in each of its rounds. -/
lemma yields_rounds {β : Type} {s₀ s : State} {P : ℕ → Frame → Prop} (l : List β)
    (round : State → β → Run State) (Q : β → ℕ → Frame → Prop)
    (hround : ∀ b ∈ l, ∀ s P, Posts p s₀ P s → (∀ u y, P u y → Sends p B e u y) →
      Traced.Yields (round s b) (PostsMore p s₀ (fun u y => P u y ∨ Q b u y) s)
        (VisitFault p B e s₀))
    (hQ : ∀ b ∈ l, ∀ u y, Q b u y → Sends p B e u y)
    (hs : Posts p s₀ P s) (hP : ∀ u y, P u y → Sends p B e u y) :
    Traced.Yields (l.foldlM round s)
      (PostsMore p s₀ (fun u y => P u y ∨ ∃ b ∈ l, Q b u y) s) (VisitFault p B e s₀) := by
  induction l generalizing s P with
  | nil =>
    refine Traced.yields_pure ⟨?_, rfl, rfl⟩
    simpa using hs
  | cons b l ih =>
    rw [List.foldlM_cons]
    refine (hround b List.mem_cons_self s P hs hP).bind fun s' hs' => ?_
    have hP' : ∀ u y, P u y ∨ Q b u y → Sends p B e u y := fun u y h =>
      h.elim (hP u y) (hQ b List.mem_cons_self u y)
    refine (ih (fun b hb => hround b (List.mem_cons_of_mem _ hb))
      (fun b hb => hQ b (List.mem_cons_of_mem _ hb)) hs'.posts hP').imp ?_ fun _ h => h
    rintro s'' ⟨⟨k, hk, hmem⟩, h1, h2⟩
    refine ⟨⟨k, hk, fun u y => ?_⟩, h1.trans hs'.before, h2.trans hs'.after⟩
    rw [hmem]
    simp [or_assoc]

/-! ### Visits -/

variable {s₀ : State}

lemma propagateTo_yields (L : p.graph.Laid p.code) {s : State} {P : ℕ → Frame → Prop} {i place : ℕ}
    {insn : Instruction ℕ} {f f' : Frame} (hpass : Passes p B e i insn f f')
    (hplace : place ∈ p.graph.handlers i) (hs : Posts p s₀ P s)
    (hP : ∀ u y, P u y → Sends p B e u y) :
    Traced.Yields (propagateTo p i insn f f' s place)
      (PostsMore p s₀
        (fun u y => P u y ∨ ∃ h, p.code.handlers[place]? = some h ∧ Throws p insn f f' h u y) s)
      (VisitFault p B e s₀) := by
  obtain ⟨h, hh, hcatch⟩ := L.handlers.1 hplace
  unfold propagateTo
  rw [hh]
  dsimp only
  split
  · rename_i hroom
    exact Traced.yields_fail (.room hpass hcatch hroom)
  · split
    · rename_i hnone
      refine Traced.yields_pure ⟨?_, rfl, rfl⟩
      simpa [Throws, hnone] using hs
    · rename_i t ht
      have hsend : ∀ y ∈ throwing insn f f',
          Sends p B e t (handlerFrame (p.interpreter.caught h) y) :=
        fun y hy => .thrown hpass hcatch ⟨ht, y, hy, rfl⟩
      refine (yields_rounds (throwing insn f f') _
        (fun y u x => u = t ∧ x = handlerFrame (p.interpreter.caught h) y)
        (fun y hy s P hs hP => yields_post hs hP (hsend y hy))
        (by rintro y hy u x ⟨rfl, rfl⟩; exact hsend y hy) hs hP).imp ?_ fun _ h => h
      rintro s' ⟨⟨l, hl, hmem⟩, h1, h2⟩
      refine ⟨⟨l, hl, fun u x => ?_⟩, h1, h2⟩
      rw [hmem]
      refine or_congr_right ⟨?_, ?_⟩
      · rintro ⟨y, hy, rfl, rfl⟩
        exact ⟨h, rfl, ht, y, hy, rfl⟩
      · rintro ⟨h', hh', ht', y, hy, rfl⟩
        cases hh'
        rw [ht] at ht'
        cases ht'
        exact ⟨y, hy, rfl, rfl⟩

/-- Without room for an exception, no exception of a covered instruction is propagated. -/
lemma room_of_propagateTo (L : p.graph.Laid p.code) {i : ℕ} {insn : Instruction ℕ} {f f' : Frame}
    {s s' : State} {h : Handler} (hcatch : p.code.Catches i h)
    (hok : ((p.graph.handlers i).foldlM (propagateTo p i insn f f') s).outcome = .ok s') :
    1 ≤ p.code.maxStack := by
  by_contra hroom
  cases hplaces : p.graph.handlers i with
  | nil =>
    obtain ⟨place, hplace⟩ := List.mem_iff_getElem?.1 hcatch.2.1
    have hmem := L.handlers.2 ⟨h, hplace, hcatch⟩
    rw [hplaces] at hmem
    cases hmem
  | cons place places =>
    obtain ⟨h', hh', -⟩ := L.handlers.1 (hplaces ▸ List.mem_cons_self : place ∈ p.graph.handlers i)
    rw [hplaces, List.foldlM_cons, Traced.outcome_bind, bind_ok_iff] at hok
    obtain ⟨s₁, hs₁, -⟩ := hok
    unfold propagateTo at hs₁
    rw [hh'] at hs₁
    dsimp only at hs₁
    rw [if_pos (by omega)] at hs₁
    cases hs₁

/-- The part of a visit before an instruction: where the walk is, what was posted and what was
recorded. -/
structure Progress (p : Problem) (B : Block) (e : Frame) (s₀ : State) (k : ℕ) (r : State × Frame) :
    Prop where
  walk : Walk p B e k r.2
  posts : Posts p s₀ (fun t x => ∃ i insn f f' h, i < k ∧ Passes p B e i insn f f' ∧
    p.code.Catches i h ∧ Throws p insn f f' h t x) r.1
  recorded : ∀ i, B.start ≤ i → i < k → ∃ insn f f', Passes p B e i insn f f' ∧
    r.1.before[i]? = some (some f) ∧ r.1.after[i]? = some (some f')
  others : ∀ i, ¬ (B.start ≤ i ∧ i < k) →
    r.1.before[i]? = s₀.before[i]? ∧ r.1.after[i]? = s₀.after[i]?
  lengths : r.1.before.length = p.code.size ∧ r.1.after.length = p.code.size
  room : ∀ i h, B.start ≤ i → i < k → p.code.Catches i h → 1 ≤ p.code.maxStack

lemma visitInstruction_yields (L : p.graph.Laid p.code) (hB : B.stop ≤ p.code.size) {k : ℕ}
    (hk : k < B.stop) {r : State × Frame} (hr : Progress p B e s₀ k r) :
    Traced.Yields (visitInstruction p r.1 r.2 k) (Progress p B e s₀ (k + 1))
      (VisitFault p B e s₀) := by
  obtain ⟨insn, hi⟩ : ∃ insn, p.code.instructions[k]? = some insn :=
    ⟨_, List.getElem?_eq_getElem (show k < p.code.size by omega)⟩
  unfold visitInstruction
  rw [hi]
  refine (Traced.yields_note _).bind fun _ _ => ?_
  refine Traced.Yields.bind (P := fun f' => p.interpreter.step k insn r.2 = .ok f')
    (Traced.yields_lift_mapError (fun _ hstep => hstep) fun _ hstep =>
      .step hr.walk hk hi hstep) fun f' hstep => ?_
  have hpass : Passes p B e k insn r.2 f' := ⟨hr.walk, hk, hi, hstep⟩
  refine (yields_rounds (p.graph.handlers k) _
    (fun place u y => ∃ h, p.code.handlers[place]? = some h ∧ Throws p insn r.2 f' h u y)
    (fun place hplace s P hs hP => propagateTo_yields L hpass hplace hs hP) ?_ hr.posts
    ?_).with_outcome.bind ?_
  · rintro place hplace u y ⟨h, hh, hthrow⟩
    obtain ⟨h', hh', hcatch⟩ := L.handlers.1 hplace
    rw [hh] at hh'
    cases hh'
    exact .thrown hpass hcatch hthrow
  · rintro u y ⟨i, _, _, _, h, -, hp, hcatch, hthrow⟩
    exact .thrown hp hcatch hthrow
  rintro s' ⟨⟨⟨l, hl, hmem⟩, hbefore, hafter⟩, hok⟩
  obtain ⟨hlen1, hlen2⟩ := hr.lengths
  refine Traced.yields_pure
    ⟨.next hr.walk hk hi hstep, ⟨l, hl.record _ _, fun u y => ?_⟩, ?_, ?_, ?_, ?_⟩
  · rw [hmem]
    constructor
    · rintro (⟨i, insn', f, f'', h, hik, hp, hrest⟩ | ⟨place, hplace, h, hh, hthrow⟩)
      · exact ⟨i, insn', f, f'', h, Nat.lt_succ_of_lt hik, hp, hrest⟩
      · obtain ⟨h', hh', hcatch⟩ := L.handlers.1 hplace
        rw [hh] at hh'
        cases hh'
        exact ⟨k, insn, r.2, f', h, Nat.lt_succ_self k, hpass, hcatch, hthrow⟩
    · rintro ⟨i, insn', f, f'', h, hik, hp, hcatch, hthrow⟩
      rcases Nat.lt_succ_iff_lt_or_eq.1 hik with hik | rfl
      · exact Or.inl ⟨i, insn', f, f'', h, hik, hp, hcatch, hthrow⟩
      · obtain ⟨rfl, rfl, rfl⟩ := hp.unique hpass
        obtain ⟨place, hplace⟩ := List.mem_iff_getElem?.1 hcatch.2.1
        exact Or.inr ⟨place, L.handlers.2 ⟨h, hplace, hcatch⟩, h, hplace, hthrow⟩
  · intro i hi1 hi2
    dsimp only
    rcases Nat.lt_succ_iff_lt_or_eq.1 hi2 with hik | rfl
    · rw [List.getElem?_set_ne (by omega), List.getElem?_set_ne (by omega), hbefore, hafter]
      exact hr.recorded i hi1 hik
    · refine ⟨insn, r.2, f', hpass, ?_, ?_⟩
      · rw [List.getElem?_set_self (by rw [hbefore, hlen1]; omega)]
      · rw [List.getElem?_set_self (by rw [hafter, hlen2]; omega)]
  · intro i hn
    have hstart := hr.walk.start_le
    dsimp only
    rw [List.getElem?_set_ne (by omega), List.getElem?_set_ne (by omega), hbefore, hafter]
    exact hr.others i (by omega)
  · simp [hbefore, hafter, hlen1, hlen2]
  · intro i h hi1 hi2 hcatch
    rcases Nat.lt_succ_iff_lt_or_eq.1 hi2 with hik | rfl
    · exact hr.room i h hi1 hik hcatch
    · exact room_of_propagateTo L hcatch hok

lemma visitInstructions_yields (L : p.graph.Laid p.code) (hB : B.stop ≤ p.code.size) (m : ℕ) {k : ℕ}
    (hk : k + m = B.stop) {r : State × Frame} (hr : Progress p B e s₀ k r) :
    Traced.Yields
      ((List.range' k m).foldlM (fun r index => visitInstruction p r.1 r.2 index) r)
      (Progress p B e s₀ B.stop) (VisitFault p B e s₀) := by
  induction m generalizing k r with
  | zero =>
    rw [Nat.add_zero] at hk
    subst hk
    exact Traced.yields_pure hr
  | succ m ih =>
    rw [List.range'_succ, List.foldlM_cons]
    refine (visitInstruction_yields L hB (by omega) hr).bind fun r' hr' => ih (by omega) hr'

/-- There is room for the exceptions that can be caught in a block. -/
def HasRoom (p : Problem) (B : Block) : Prop :=
  ∀ i h, B.start ≤ i → i < B.stop → p.code.Catches i h → 1 ≤ p.code.maxStack

/-- What a visit does: it posts what the block sends, and records the walk. There is room for the
exceptions that can be caught. -/
structure Visited (p : Problem) (B : Block) (e : Frame) (s₀ s' : State) : Prop where
  posts : Posts p s₀ (Sends p B e) s'
  recorded : ∀ i, B.start ≤ i → i < B.stop → ∃ insn f f', Passes p B e i insn f f' ∧
    s'.before[i]? = some (some f) ∧ s'.after[i]? = some (some f')
  others : ∀ i, ¬ (B.start ≤ i ∧ i < B.stop) →
    s'.before[i]? = s₀.before[i]? ∧ s'.after[i]? = s₀.after[i]?
  lengths : s'.before.length = p.code.size ∧ s'.after.length = p.code.size
  room : HasRoom p B

lemma visitBlock_yields (L : p.graph.Laid p.code) {b : ℕ} (hB : p.graph.blocks[b]? = some B)
    (hlen : s₀.before.length = p.code.size ∧ s₀.after.length = p.code.size) :
    Traced.Yields (visitBlock p s₀ B e) (Visited p B e s₀) (VisitFault p B e s₀) := by
  have hbounds := L.bounds hB
  have hstart : Progress p B e s₀ B.start (s₀, e) := by
    refine ⟨.start, ⟨[], .none, fun t x => ?_⟩, fun i h1 h2 => ?_, fun i _ => ⟨rfl, rfl⟩, hlen,
      fun i h h1 h2 => ?_⟩
    · simp only [List.not_mem_nil, false_iff]
      rintro ⟨i, _, _, _, _, hi, hp, -⟩
      exact absurd hp.walk.start_le (by omega)
    · omega
    · omega
  refine (visitInstructions_yields L hbounds.2 (B.stop - B.start) (by omega) hstart).bind ?_
  rintro ⟨s, f⟩ hprog
  have hexit : ∀ u ∈ B.successors.filter (fun e => e.2 = .normal), Sends p B e u.1 f := by
    rintro ⟨t, kind⟩ hu
    simp only [List.mem_filter, decide_eq_true_eq] at hu
    obtain ⟨hu, rfl⟩ := hu
    exact .exit hprog.walk hu
  refine (yields_rounds _ _ (fun u t x => t = u.1 ∧ x = f)
    (fun u hu s P hs hP => yields_post hs hP (hexit u hu))
    (by rintro u hu t x ⟨rfl, rfl⟩; exact hexit u hu) hprog.posts ?_).imp ?_ fun _ h => h
  · rintro u y ⟨i, _, _, _, h, -, hp, hcatch, hthrow⟩
    exact .thrown hp hcatch hthrow
  rintro s' ⟨⟨l, hl, hmem⟩, hbefore, hafter⟩
  refine ⟨⟨l, hl, fun t x => ?_⟩, ?_, ?_, ?_, hprog.room⟩
  · rw [hmem]
    constructor
    · rintro (⟨i, _, _, _, h, -, hp, hcatch, hthrow⟩ | ⟨u, hu, rfl, rfl⟩)
      · exact .thrown hp hcatch hthrow
      · exact hexit u hu
    · rintro (⟨hp, hcatch, hthrow⟩ | ⟨hw, hu⟩)
      · exact Or.inl ⟨_, _, _, _, _, hp.lt, hp, hcatch, hthrow⟩
      · exact Or.inr ⟨(t, .normal), List.mem_filter.2 ⟨hu, by simp⟩, rfl, hw.unique hprog.walk⟩
  · rw [hbefore, hafter]
    exact hprog.recorded
  · rw [hbefore, hafter]
    exact hprog.others
  · rw [hbefore, hafter]
    exact hprog.lengths

/-- The state in which a block is interpreted: it counts as stable from here on. -/
def State.settle (s : State) (b : ℕ) (e : Frame) : State :=
  { s with states := s.states.set b (.stable e) }

/-- **What a visit does**, and why it fails. -/
theorem visit_yields (L : p.graph.Laid p.code) {s : State} {b : ℕ}
    (hB : p.graph.blocks[b]? = some B) (he : s.frame? b = some e)
    (hlen : s.before.length = p.code.size ∧ s.after.length = p.code.size) :
    Traced.Yields (visit p s b) (Visited p B e (s.settle b e))
      (VisitFault p B e (s.settle b e)) := by
  have he' : (s.states[b]?).bind BlockState.frame? = some e := he
  unfold visit
  rw [hB]
  dsimp only
  rw [he']
  dsimp only
  rw [if_neg (by have := L.bounds hB; omega)]
  refine (Traced.yields_note _).bind fun _ _ => ?_
  exact visitBlock_yields L hB hlen

end Bytecheck.Analysis
