import Mathlib.Logic.Relation
import Mathlib.Tactic.Common
import Bytecheck.Verify
import Bytecheck.Proofs.Subsumption
import Bytecheck.Proofs.Worklist

/-!
The fixed point of the analysis.

When the analysis ends, the recorded frames are a solution of the flow equations of the code, and
over a tree of classes no solution is more special: the recorded frames are the least ones.
-/

namespace Bytecheck.Analysis

open Relation Transfer

/-! ### The entry frame -/

section Entry

lemma length_slotsOf (t : VType) : (Frame.slotsOf t).length = width t := by
  rcases Frame.width_two_or_one t with h | h <;> simp [Frame.slotsOf, h]

lemma paired_slotsOf_append {t : VType} {l : List VType} (hl : Paired l) :
    Paired (Frame.slotsOf t ++ l) := by
  intro i x hx hw
  have htop : width VType.top = 1 := rfl
  rcases Frame.width_two_or_one t with h | h
  · simp only [Frame.slotsOf, h, List.cons_append] at hx ⊢
    match i with
    | 0 => rfl
    | 1 =>
      cases hx
      omega
    | i + 2 => exact hl i x hx hw
  · simp only [Frame.slotsOf, h, Nat.sub_self, List.replicate_zero, List.cons_append,
      List.nil_append] at hx ⊢
    match i with
    | 0 =>
      cases hx
      omega
    | i + 1 => exact hl i x hx hw

lemma paired_flatMap_append (ts : List VType) {l : List VType} (hl : Paired l) :
    Paired (ts.flatMap Frame.slotsOf ++ l) := by
  induction ts with
  | nil => exact hl
  | cons t ts ih =>
    rw [List.flatMap_cons, List.append_assoc]
    exact paired_slotsOf_append ih

lemma width_ofField (t : FieldType) : width (VType.ofField t) = width t := by
  rcases t with b | r
  · cases b <;> rfl
  · rfl

lemma length_arguments (m : Method) :
    ((Frame.arguments m).flatMap Frame.slotsOf).length =
      m.descriptor.argumentSlots m.hasReceiver := by
  have hparams : ∀ ps : List FieldType, ((ps.map VType.ofField).flatMap Frame.slotsOf).length =
      ps.foldr (fun t n => width t + n) 0 := by
    intro ps
    induction ps with
    | nil => rfl
    | cons t ps ih =>
      rw [List.map_cons, List.flatMap_cons, List.length_append, length_slotsOf, width_ofField, ih]
      rfl
  have hreceiver : width (Frame.receiver m) = 1 := by
    unfold Frame.receiver
    split <;> rfl
  unfold Frame.arguments MethodDescriptor.argumentSlots
  rw [List.flatMap_append, List.length_append, hparams]
  cases m.hasReceiver with
  | false => simp
  | true => simp [length_slotsOf, hreceiver]

lemma arguments_isValue {m : Method} {t : VType} (ht : t ∈ Frame.arguments m) : t.IsValue := by
  unfold Frame.arguments Frame.receiver at ht
  rcases List.mem_append.1 ht with ht | ht
  · split at ht
    · rw [List.mem_singleton.1 ht]
      split <;> exact ⟨by simp [VType.ofClass], by simp [VType.ofClass]⟩
    · cases ht
  · obtain ⟨f, -, rfl⟩ := List.mem_map.1 ht
    exact ((universe_isValue.alike).vtype_field f).2

/-- The entry frame holds the arguments, in locals that are unset from there on. -/
lemma entry_ok {m : Method} {n : ℕ} {f : Frame} (h : Frame.entry m n = .ok f) :
    m.descriptor.argumentSlots m.hasReceiver ≤ n ∧
      f = ⟨(Frame.arguments m).flatMap Frame.slotsOf ++
        List.replicate (n - m.descriptor.argumentSlots m.hasReceiver) .top, .empty⟩ := by
  unfold Frame.entry at h
  dsimp only at h
  split at h
  · cases h
  · rename_i hle
    cases h
    exact ⟨Nat.le_of_not_lt hle, rfl⟩

/-- A local of the entry frame holds an argument, or it is unset. -/
lemma mem_locals_entry {m : Method} {n : ℕ} {f : Frame} (h : Frame.entry m n = .ok f) {x : VType}
    (hx : x ∈ f.locals) : x ∈ Frame.arguments m ∨ x = .top := by
  obtain ⟨-, rfl⟩ := entry_ok h
  rcases List.mem_append.1 hx with hx | hx
  · obtain ⟨t, ht, hx⟩ := List.mem_flatMap.1 hx
    rcases List.mem_cons.1 hx with rfl | hx
    · exact Or.inl ht
    · exact Or.inr (List.eq_of_mem_replicate hx)
  · exact Or.inr (List.eq_of_mem_replicate hx)

/-- The entry frame is good. -/
lemma good_entry {m : Method} {n : ℕ} {f : Frame} (h : Frame.entry m n = .ok f) : f.Good n := by
  have hmem := fun x => mem_locals_entry (x := x) h
  obtain ⟨hle, rfl⟩ := entry_ok h
  have hlen : ((Frame.arguments m).flatMap Frame.slotsOf ++ List.replicate
      (n - m.descriptor.argumentSlots m.hasReceiver) VType.top).length = n := by
    rw [List.length_append, length_arguments, List.length_replicate]
    omega
  refine ⟨.empty, hlen, hlen, ?_, ?_⟩
  · intro i x y hx hy
    rw [hx] at hy
    cases hy
    rcases hmem x (List.mem_of_getElem? hx) with harg | rfl
    · exact Or.inr ⟨rfl, arguments_isValue harg⟩
    · exact Or.inl ⟨by simp, rfl⟩
  · refine paired_flatMap_append _ fun i x hx hw => ?_
    rw [List.eq_of_mem_replicate (List.mem_of_getElem? hx)] at hw
    cases hw

end Entry

/-! ### The interpreter of verification types -/

lemma good_step {c : Context} {n i : ℕ} {insn : Instruction ℕ} {f f' : Frame} (hf : f.Good n)
    (h : step c i insn f = .ok f') : f'.Good n :=
  ((universe_isValue.simulation c).step insn (fun _ _ _ => ⟨rfl, by simp, by simp⟩) hf).related h h

lemma steady_interpreter (c : Context) (h : Hierarchy) (g : FlowGraph) (code : Code) (n : ℕ) :
    Steady ⟨interpreter c, h, g, code⟩ n where
  step := good_step
  caught := fun _ => ⟨by simp [interpreter, caught, VType.ofClass],
    by simp [interpreter, caught, VType.ofClass]⟩

/-- The analysis of a method. -/
def problem (h : Hierarchy) (m : Method) (g : FlowGraph) (code : Code) : Problem :=
  ⟨interpreter ⟨h, m, code.maxStack⟩, h, g, code⟩

/-! #### Heights -/

section Depth

variable {h : Hierarchy} {m : Method} {g : FlowGraph} {code : Code} {B : Block} {e x : Frame}

lemma depth_of_step {c : Context} {i : ℕ} {insn : Instruction ℕ} {f f' : Frame}
    (h : step c i insn f = .ok f') : f'.depth ≤ c.maxStack := by
  obtain ⟨f₁, -, h⟩ := bind_ok_iff.1 h
  split at h
  · cases h
  · cases h
    omega

lemma depth_of_walk {i : ℕ} {f : Frame} (he : e.depth ≤ code.maxStack)
    (hw : Walk (problem h m g code) B e i f) : f.depth ≤ code.maxStack := by
  cases hw with
  | start => exact he
  | next _ _ _ hs => exact depth_of_step hs

lemma depth_of_sends {target : ℕ} (he : e.depth ≤ code.maxStack)
    (hroom : HasRoom (problem h m g code) B) (hx : Sends (problem h m g code) B e target x) :
    x.depth ≤ code.maxStack := by
  cases hx with
  | thrown hp hcatch hthrow =>
    obtain ⟨-, y, -, rfl⟩ := hthrow
    exact hroom _ _ hp.walk.start_le hp.lt hcatch
  | exit hw _ => exact depth_of_walk he hw

end Depth

/-- A method is accepted when its graph and its entry frame can be made and the analysis ends. -/
lemma method_ok {h : Hierarchy} {settings : Settings} {m : Method} {code : Code}
    {lineOf? : ℕ → Option ℕ} {v : Verified}
    (hok : (Verify.method h settings m code lineOf?).outcome = .ok v) :
    ∃ g entry a, FlowGraph.build code = .ok g ∧ Frame.entry m code.maxLocals = .ok entry ∧
      (run (problem h m g code) settings entry).outcome = .ok a ∧
      v = ⟨a.before, a.after, g.deadCode⟩ := by
  unfold Verify.method Verify.withInterpreter at hok
  dsimp only at hok
  split at hok
  · rename_i v' hv
    cases hok
    unfold Verify.verified Verify.analyze Verify.buildGraph at hv
    simp only [Traced.outcome_bind, Traced.outcome_lift, bind_ok_iff, mapError_ok_iff] at hv
    obtain ⟨⟨g', a⟩, ⟨g, ⟨_, hg, -, -, hgg⟩, entry, hentry, _, ha, hga⟩, hrest⟩ := hv
    cases hgg
    cases hga
    refine ⟨_, entry, a, hg, hentry, ha, ?_⟩
    split at hrest
    · cases hrest
      rfl
    · cases hrest
      rfl
  · cases hok

/-! ### Solutions -/

/-- Frames around instructions that solve the flow equations of the code, up to an order. -/
structure Solution (p : Problem) (R : VType → VType → Prop) (n : ℕ) (entry : Frame)
    (before after : List (Option Frame)) : Prop where
  entry : ∃ f, before[0]? = some (some f) ∧ Frame.Rel R n entry f
  step : ∀ {i : ℕ} {f : Frame}, before[i]? = some (some f) → f.Good n ∧ ∃ insn f',
    p.code.instructions[i]? = some insn ∧ p.interpreter.step i insn f = .ok f' ∧
      after[i]? = some (some f')
  flows : ∀ {i j : ℕ} {f' : Frame}, after[i]? = some (some f') → p.code.Flows i j →
    ∃ g, before[j]? = some (some g) ∧ Frame.Rel R n f' g
  thrown : ∀ {i : ℕ} {insn : Instruction ℕ} {f f' : Frame} {h : Handler},
    p.code.instructions[i]? = some insn → before[i]? = some (some f) → after[i]? = some (some f') →
    p.code.Catches i h → ∀ x ∈ throwing insn f f',
      ∃ g, before[h.entry]? = some (some g) ∧
        Frame.Rel R n (handlerFrame (p.interpreter.caught h) x) g

section Solution

variable {p : Problem} {s : State} {n : ℕ} {entry : Frame} {R : VType → VType → Prop}

/-- The frame recorded at the start of a stable block is its entry frame. -/
lemma Sound.before_start (L : p.graph.Laid p.code) (hs : Sound p R n entry s) {b : ℕ} {B : Block}
    {e : Frame} (hB : p.graph.blocks[b]? = some B) (he : s.states[b]? = some (.stable e)) :
    s.before[B.start]? = some (some e) := by
  obtain ⟨insn, f, f', hp, hf, -⟩ := hs.recorded he hB B.start (Nat.le_refl _) (L.bounds hB).1
  rw [hf, hp.walk.unique .start]

/-- What is recorded was recorded on the walk through a stable block. -/
lemma Sound.exists_passes (L : p.graph.Laid p.code) (hs : Sound p R n entry s) (hq : s.queue = [])
    {i : ℕ} (hi : (∃ f, s.before[i]? = some (some f)) ∨ ∃ f', s.after[i]? = some (some f')) :
    ∃ (b : ℕ) (B : Block) (e : Frame) (insn : Instruction ℕ) (f f' : Frame),
      p.graph.blocks[b]? = some B ∧ s.states[b]? = some (.stable e) ∧
      Passes p B e i insn f f' ∧ s.before[i]? = some (some f) ∧ s.after[i]? = some (some f') := by
  have hlt : i < p.code.size := by
    rcases hi with ⟨f, hf⟩ | ⟨f', hf'⟩
    · exact hs.before ▸ (List.getElem?_eq_some_iff.1 hf).1
    · exact hs.after ▸ (List.getElem?_eq_some_iff.1 hf').1
  obtain ⟨b, B, hB, h1, h2⟩ := L.cover hlt
  rcases hs.unvisited_or_stable hq (List.getElem?_eq_some_iff.1 hB).1 with hst | ⟨e, hst⟩
  · obtain ⟨h3, h4⟩ := hs.blank hst hB i h1 h2
    rw [h3, h4] at hi
    simp at hi
  · obtain ⟨insn, f, f', hp, hf, hf'⟩ := hs.recorded hst hB i h1 h2
    exact ⟨b, B, e, insn, f, f', hB, hst, hp, hf, hf'⟩

/-- The frames recorded around an instruction are those of the walk through a stable block. -/
lemma Sound.passes_of_recorded (L : p.graph.Laid p.code) (hs : Sound p R n entry s)
    (hq : s.queue = []) {i : ℕ} {insn : Instruction ℕ} {f f' : Frame}
    (hi : p.code.instructions[i]? = some insn) (hf : s.before[i]? = some (some f))
    (hf' : s.after[i]? = some (some f')) :
    ∃ (b : ℕ) (B : Block) (e : Frame), p.graph.blocks[b]? = some B ∧
      s.states[b]? = some (.stable e) ∧ Passes p B e i insn f f' := by
  obtain ⟨b, B, e, insn', g, g', hB, he, hp, hg, hg'⟩ := hs.exists_passes L hq (Or.inl ⟨f, hf⟩)
  rw [hf] at hg
  cases hg
  rw [hf'] at hg'
  cases hg'
  have hi' := hp.code
  rw [hi] at hi'
  cases hi'
  exact ⟨b, B, e, hB, he, hp⟩

/-- What a stable block sends is below the frame recorded where it is sent to. -/
lemma Sound.before_of_sends (L : p.graph.Laid p.code) (hs : Sound p R n entry s) (hq : s.queue = [])
    {b t j : ℕ} {B : Block} {e x : Frame} (hB : p.graph.blocks[b]? = some B)
    (he : s.states[b]? = some (.stable e)) (hx : Sends p B e t x) (hj : p.graph.StartsAt t j) :
    ∃ g, s.before[j]? = some (some g) ∧ Frame.Rel R n x g := by
  obtain ⟨g, hg, hxg⟩ := hs.sent he hB t x hx
  obtain ⟨T, hT, rfl⟩ := hj
  exact ⟨g, hs.before_start L hT (hs.stable_of_frame hq hg), hxg⟩

/-- **The frames recorded when nothing waits are a solution.** -/
theorem Sound.solution (L : p.graph.Laid p.code) (U : Upper p.hierarchy R) (S : Steady p n)
    (hs : Sound p R n entry s) (hq : s.queue = []) : Solution p R n entry s.before s.after where
  entry := by
    obtain ⟨f, hf, hle⟩ := hs.entry
    obtain ⟨T, hT, hT0⟩ := L.first
    have := hs.before_start L hT (hs.stable_of_frame hq hf)
    rw [hT0] at this
    exact ⟨f, this, hle⟩
  step := by
    intro i f hf
    obtain ⟨b, B, e, insn, g, g', hB, he, hp, hg, hg'⟩ := hs.exists_passes L hq (Or.inl ⟨f, hf⟩)
    rw [hf] at hg
    cases hg
    have hgood := hs.good b e (frame?_eq he)
    exact ⟨S.walk hgood hp.walk, insn, g', hp.code, hp.step, hg'⟩
  flows := by
    intro i j f' hf' hj
    obtain ⟨b, B, e, insn, g, g', hB, he, hp, hg, hg'⟩ := hs.exists_passes L hq (Or.inr ⟨f', hf'⟩)
    rw [hf'] at hg'
    cases hg'
    have hnext := Walk.next hp.walk hp.lt hp.code hp.step
    by_cases hlast : i + 1 < B.stop
    · -- within the block, the next frame is the one left by the instruction
      obtain ⟨insn', g₁, g₂, hp', hg₁, -⟩ :=
        hs.recorded he hB (i + 1) (Nat.le_succ_of_le hp.walk.start_le) hlast
      obtain ⟨o, ho⟩ := L.inner hB hp.walk.start_le hlast
      obtain ⟨insn'', hi, ⟨-, rfl⟩ | hj⟩ := hj
      · rw [hp'.walk.unique hnext] at hg₁
        have hgood := hs.good b e (frame?_eq he)
        exact ⟨f', hg₁, U.rel_refl (S.walk hgood hnext)⟩
      · rw [ho] at hi
        cases hi
        cases hj
    · have hstop : i + 1 = B.stop := by
        have := hp.lt
        omega
      have hi : i = B.stop - 1 := by omega
      rw [hstop] at hnext
      rw [hi] at hj
      obtain ⟨u, hu⟩ := L.flows hB hj
      exact hs.before_of_sends L hq hB he (.exit hnext ((L.exit hB).2 ⟨j, hj, hu⟩)) hu
  thrown := by
    intro i insn f f' h hi hf hf' hcatch x hx
    obtain ⟨b, B, e, hB, he, hp⟩ := hs.passes_of_recorded L hq hi hf hf'
    obtain ⟨u, hu⟩ := L.entry hcatch.2.1
    exact hs.before_of_sends L hq hB he
      (.thrown hp hcatch ⟨L.block_of_startsAt hu, x, hx, rfl⟩) hu

end Solution

/-! ### Accepted methods -/

/-- The analysis of a method ends in a state, with the frames recorded there. -/
structure EndsWith (h : Hierarchy) (m : Method) (code : Code) (v : Verified) (g : FlowGraph)
    (entry : Frame) (k : ℕ) (s : State) : Prop where
  laid : g.Laid code
  entered : Frame.entry m code.maxLocals = .ok entry
  runs : Runs (problem h m g code) (initial (problem h m g code) entry) k s
  empty : s.queue = []
  before : v.before = s.before
  after : v.after = s.after

section Accepted

variable {h : Hierarchy} {m : Method} {code : Code} {v : Verified} {g : FlowGraph} {entry : Frame}
  {k : ℕ} {s : State} {R : VType → VType → Prop}

lemma method_ends {settings : Settings} {lineOf? : ℕ → Option ℕ}
    (hok : (Verify.method h settings m code lineOf?).outcome = .ok v) :
    ∃ g entry k s, EndsWith h m code v g entry k s := by
  obtain ⟨g, entry, a, hg, hentry, hrun, rfl⟩ := method_ok hok
  obtain ⟨s, hruns, hq, hbefore, hafter⟩ := run_ok hrun
  exact ⟨g, entry, a.visits, s, FlowGraph.build_laid hg, hentry, hruns, hq, hbefore, hafter⟩

lemma EndsWith.sound (hends : EndsWith h m code v g entry k s) (U : Upper h R) :
    Sound (problem h m g code) R code.maxLocals entry s :=
  hends.runs.sound hends.laid U (steady_interpreter _ _ _ _ _) (good_entry hends.entered)

lemma EndsWith.solution (hends : EndsWith h m code v g entry k s) (U : Upper h R) :
    Solution (problem h m g code) R code.maxLocals entry v.before v.after := by
  rw [hends.before, hends.after]
  exact (hends.sound U).solution hends.laid U (steady_interpreter _ _ _ _ _) hends.empty

lemma frame?_eq_some_iff {i : ℕ} {f : Frame} : v.frame? i = some f ↔ v.before[i]? = some (some f) :=
  Option.join_eq_some_iff

end Accepted

/-! ### Ordered walks -/

section Monotone

variable {t : ClassTable} {m : Method} {g : FlowGraph} {code : Code} {n : ℕ} {B : Block}

lemma lower_handlerFrame {v : VType} (hv : v.IsValue) {f u : Frame}
    (h : Frame.Rel (Lower t) n f u) :
    Frame.Rel (Lower t) n (handlerFrame v f) (handlerFrame v u) :=
  rel_handlerFrame ⟨.refl v, hv, hv⟩ h

lemma lower_throwing {insn : Instruction ℕ} {f f' u u' x : Frame} (h : Frame.Rel (Lower t) n f u)
    (h' : Frame.Rel (Lower t) n f' u') (hx : x ∈ throwing insn f f') :
    ∃ y ∈ throwing insn u u', Frame.Rel (Lower t) n x y := by
  rcases mem_throwing_iff.1 hx with rfl | ⟨hw, rfl⟩
  · exact ⟨u, mem_throwing_iff.2 (Or.inl rfl), h⟩
  · exact ⟨u', mem_throwing_iff.2 (Or.inr ⟨hw, rfl⟩), h'⟩

lemma walk_lower {e u f v : Frame} {i : ℕ} (h : Frame.Rel (Lower t) n e u)
    (hf : Walk (problem t.hierarchy m g code) B e i f)
    (hv : Walk (problem t.hierarchy m g code) B u i v) :
    Frame.Rel (Lower t) n f v := by
  induction hf generalizing v with
  | start =>
    rw [hv.unique .start]
    exact h
  | next hw _ hi hs ih =>
    rcases hv.cases with ⟨hstart, -⟩ | ⟨j, insn, w, hj, hp⟩
    · exact absurd hw.start_le (by omega)
    · cases hj
      have hi' := hp.code
      rw [hi] at hi'
      cases hi'
      exact step_lower (ih hp.walk) hs hp.step

/-- A block that is entered with a lower frame sends lower frames. -/
lemma sends_lower {s : State} {e u x : Frame} {b : ℕ} {target : ℕ}
    (L : (problem t.hierarchy m g code).graph.Laid (problem t.hierarchy m g code).code)
    (hB : g.blocks[b]? = some B)
    (h : Frame.Rel (Lower t) n e u) (hrec : Recorded (problem t.hierarchy m g code) s B u)
    (hx : Sends (problem t.hierarchy m g code) B e target x) :
    ∃ y, Sends (problem t.hierarchy m g code) B u target y ∧ Frame.Rel (Lower t) n x y := by
  cases hx with
  | thrown hp hcatch hthrow =>
    obtain ⟨htarget, z, hz, rfl⟩ := hthrow
    obtain ⟨insn', v, v', hp', -⟩ := hrec _ hp.walk.start_le hp.lt
    have hi := hp.code
    rw [hp'.code] at hi
    cases hi
    have hv := walk_lower h hp.walk hp'.walk
    obtain ⟨y, hy, hzy⟩ := lower_throwing hv (step_lower hv hp.step hp'.step) hz
    exact ⟨_, .thrown hp' hcatch ⟨htarget, y, hy, rfl⟩,
      lower_handlerFrame ((steady_interpreter _ _ _ _ n).caught _) hzy⟩
  | exit hw hu =>
    obtain ⟨v, hv, -⟩ := hrec.walk_stop L hB
    exact ⟨v, .exit hv hu, walk_lower h hw hv⟩

end Monotone

/-! ### The least solution -/

/-- Frames for some of the instructions that are consistent with the code: the entry frame of the
method adds nothing to the first of them, and neither does any instruction to those that follow it
or that handle its exceptions. -/
structure Consistent (p : Problem) (entry : Frame) (F : ℕ → Option Frame) : Prop where
  locals : ∀ {i f}, F i = some f → f.locals.length = p.code.maxLocals
  entry : ∃ f, F 0 = some f ∧ entry.Below p.hierarchy f
  step : ∀ {i f}, F i = some f → ∃ insn f', p.code.instructions[i]? = some insn ∧
    p.interpreter.step i insn f = .ok f' ∧
    (∀ j, p.code.Flows i j → ∃ k, F j = some k ∧ f'.Below p.hierarchy k) ∧
    ∀ h, p.code.Catches i h → ∀ x ∈ throwing insn f f',
      ∃ k, F h.entry = some k ∧ (handlerFrame (p.interpreter.caught h) x).Below p.hierarchy k

section Least

variable {t : ClassTable} {m : Method} {g : FlowGraph} {code : Code} {entry : Frame}
  {F : ℕ → Option Frame}

/-- An instruction on a frame below a consistent one leads to frames below consistent ones. -/
lemma Consistent.follow (hr : t.Rooted)
    (hF : Consistent (problem t.hierarchy m g code) entry F) {i : ℕ} {insn : Instruction ℕ}
    {f f' u : Frame} (hu : F i = some u)
    (hfu : Frame.Rel (Lower t) code.maxLocals f u) (hi : code.instructions[i]? = some insn)
    (hs : (problem t.hierarchy m g code).interpreter.step i insn f = .ok f') :
    (∀ j, code.Flows i j → ∃ k, F j = some k ∧ Frame.Rel (Lower t) code.maxLocals f' k) ∧
      ∀ h, code.Catches i h → ∀ x ∈ throwing insn f f', ∃ k, F h.entry = some k ∧
        Frame.Rel (Lower t) code.maxLocals (handlerFrame (Transfer.caught h) x) k := by
  obtain ⟨insn', u', hi', hs', hflows, hthrown⟩ := hF.step hu
  have hcode : some insn = some insn' := hi.symm.trans hi'
  cases hcode
  have S := steady_interpreter ⟨t.hierarchy, m, code.maxStack⟩ t.hierarchy g code code.maxLocals
  have hugood := hfu.good_right (lower_alike t)
  have hfu' := step_lower hfu hs hs'
  constructor
  · intro j hj
    obtain ⟨k, hk, hbelow⟩ := hflows j hj
    have hle := (hr.below_iff (S.step hugood hs') (hF.locals hk)).1 hbelow
    exact ⟨k, hk, hr.upper.rel_trans hfu' hle⟩
  · intro h hcatch x hx
    obtain ⟨y, hy, hxy⟩ := lower_throwing hfu hfu' hx
    obtain ⟨k, hk, hbelow⟩ := hthrown h hcatch y hy
    have hygood := hxy.good_right (lower_alike t)
    have hle := (hr.below_iff (good_handlerFrame (S.caught h) hygood) (hF.locals hk)).1 hbelow
    exact ⟨k, hk, hr.upper.rel_trans (lower_handlerFrame (S.caught h) hxy) hle⟩

/-- A walk from a frame below a consistent one stays below consistent ones. -/
lemma Consistent.walk (hr : t.Rooted) (L : g.Laid code)
    (hF : Consistent (problem t.hierarchy m g code) entry F) {b : ℕ} {B : Block} {e u : Frame}
    (hB : g.blocks[b]? = some B) (hu : F B.start = some u)
    (heu : Frame.Rel (Lower t) code.maxLocals e u) {i : ℕ} {f : Frame}
    (hw : Walk (problem t.hierarchy m g code) B e i f) (hi : i < B.stop) :
    ∃ k, F i = some k ∧ Frame.Rel (Lower t) code.maxLocals f k := by
  induction hw with
  | start => exact ⟨u, hu, heu⟩
  | next hw hlt hcode hs ih =>
    obtain ⟨k, hk, hfk⟩ := ih hlt
    obtain ⟨o, ho⟩ := L.inner hB hw.start_le hi
    exact (hF.follow hr hk hfk hcode hs).1 _ ⟨_, ho, Or.inl ⟨rfl, rfl⟩⟩

/-- The entry frames of a run are below every consistent choice of frames. -/
lemma Consistent.bounds (hr : t.Rooted) (L : g.Laid code) (hentry : entry.Good code.maxLocals)
    (hF : Consistent (problem t.hierarchy m g code) entry F) {n : ℕ} {s : State}
    (hruns : Runs (problem t.hierarchy m g code)
      (initial (problem t.hierarchy m g code) entry) n s) :
    ∀ b f, s.frame? b = some f → ∃ j u, g.StartsAt b j ∧ F j = some u ∧
      Frame.Rel (Lower t) code.maxLocals f u := by
  refine entry_invariant L (Q := fun b f => ∃ j u, g.StartsAt b j ∧ F j = some u ∧
    Frame.Rel (Lower t) code.maxLocals f u) ?_ ?_ ?_ hruns
  · obtain ⟨u, hu, hbelow⟩ := hF.entry
    exact ⟨0, u, L.first, hu, (hr.below_iff hentry (hF.locals hu)).1 hbelow⟩
  · rintro b f f' k ⟨j, u, ⟨T, hT, rfl⟩, hu, hfu⟩ ⟨j', u', ⟨T', hT', rfl⟩, hu', hfu'⟩ hm
    rw [hT] at hT'
    cases hT'
    rw [hu] at hu'
    cases hu'
    exact ⟨T.start, u, ⟨T, hT, rfl⟩, hu, hr.rel_merge_left hfu hfu' hm⟩
  · rintro b B e target x hB ⟨j, u, ⟨T, hT, rfl⟩, hu, heu⟩ - hx
    have hTB : some T = some B := hT.symm.trans hB
    cases hTB
    cases hx with
    | thrown hp hcatch hthrow =>
      obtain ⟨htarget, y, hy, rfl⟩ := hthrow
      obtain ⟨k, hk, hfk⟩ := hF.walk hr L hB hu heu hp.walk hp.lt
      obtain ⟨q, hq, hle⟩ := (hF.follow hr hk hfk hp.code hp.step).2 _ hcatch y hy
      exact ⟨_, q, L.startsAt_of_block hcatch.2.1 htarget, hq, hle⟩
    | exit hw htarget =>
      obtain ⟨j, hj, hstarts⟩ := (L.exit hB).1 htarget
      obtain ⟨hlt, -⟩ := L.bounds hB
      rcases hw.cases with ⟨hstart, -⟩ | ⟨i, insn, f, hstop, hp⟩
      · omega
      · obtain ⟨k, hk, hfk⟩ := hF.walk hr L hB hu heu hp.walk hp.lt
        have hi : B.stop - 1 = i := by omega
        rw [hi] at hj
        obtain ⟨q, hq, hle⟩ := (hF.follow hr hk hfk hp.code hp.step).1 j hj
        exact ⟨j, q, hstarts, hq, hle⟩

/-- **The inferred frames are principal.** When the analysis of a method ends, the recorded frames
are consistent with the code, and every consistent choice of frames has a frame above the recorded
one at every instruction that can be reached. -/
theorem recorded_isLeast_consistent (hr : t.Rooted) (hg : FlowGraph.build code = .ok g)
    (hentry : Frame.entry m code.maxLocals = .ok entry) {settings : Settings} {a : Analysis}
    (hrun : (run (problem t.hierarchy m g code) settings entry).outcome = .ok a) :
    Consistent (problem t.hierarchy m g code) entry (fun i => (a.before[i]?).join) ∧
      ∀ F, Consistent (problem t.hierarchy m g code) entry F → ∀ i, g.Reached i →
        ∃ f u, a.before[i]? = some (some f) ∧ F i = some u ∧ f.Below t.hierarchy u := by
  have L := FlowGraph.build_laid hg
  have hgood := good_entry hentry
  have S := steady_interpreter ⟨t.hierarchy, m, code.maxStack⟩ t.hierarchy g code code.maxLocals
  obtain ⟨s, hruns, hq, hbefore, -⟩ := run_ok hrun
  have hs : Sound (problem t.hierarchy m g code) (Lower t) code.maxLocals entry s :=
    hruns.sound L hr.upper S hgood
  have hsol := hs.solution L hr.upper S hq
  have hbelow : ∀ {f k : Frame}, Frame.Rel (Lower t) code.maxLocals f k →
      f.Below t.hierarchy k := fun h =>
    (hr.below_iff (h.good_left (lower_alike t)) h.right).2 h
  rw [hbefore]
  refine ⟨⟨?_, ?_, ?_⟩, ?_⟩
  · intro i f hf
    exact (hsol.step (Option.join_eq_some_iff.1 hf)).1.left
  · obtain ⟨f, hf, hle⟩ := hsol.entry
    exact ⟨f, Option.join_eq_some_iff.2 hf, hbelow hle⟩
  · intro i f hf
    obtain ⟨-, insn, f', hi, hstep, hf'⟩ := hsol.step (Option.join_eq_some_iff.1 hf)
    refine ⟨insn, f', hi, hstep, fun j hj => ?_, fun h hcatch x hx => ?_⟩
    · obtain ⟨k, hk, hle⟩ := hsol.flows hf' hj
      exact ⟨k, Option.join_eq_some_iff.2 hk, hbelow hle⟩
    · obtain ⟨k, hk, hle⟩ := hsol.thrown hi (Option.join_eq_some_iff.1 hf) hf' hcatch x hx
      exact ⟨k, Option.join_eq_some_iff.2 hk, hbelow hle⟩
  · intro F hF i hi
    obtain ⟨b, B, hB, h1, h2, hreach⟩ := L.reached_iff.1 hi
    obtain ⟨e, he⟩ := (hs.stable_iff L hq).2 hreach
    obtain ⟨insn, f, f', hp, hf, -⟩ := hs.recorded he hB i h1 h2
    obtain ⟨j, u, ⟨T, hT, rfl⟩, hu, heu⟩ := hF.bounds hr L hgood hruns b e
      (frame?_eq he)
    have hTB : some T = some B := hT.symm.trans hB
    cases hTB
    obtain ⟨k, hk, hle⟩ := hF.walk hr L hB hu heu hp.walk hp.lt
    exact ⟨f, k, hf, hk, hbelow hle⟩

end Least

/-! ### A sample -/

namespace Sample

def base : BinaryName := ⟨"p/Base", by decide +kernel⟩
def left : BinaryName := ⟨"p/Left", by decide +kernel⟩
def right : BinaryName := ⟨"p/Right", by decide +kernel⟩

/-- Two classes with a common superclass. -/
def table : ClassTable :=
  ⟨[⟨base, some .object, [], ⟨0x21⟩⟩, ⟨left, some base, [], ⟨0x21⟩⟩,
    ⟨right, some base, [], ⟨0x21⟩⟩]⟩

/-- A method that takes a number and an instance of either class. -/
def method : Method :=
  ⟨base, ⟨"pick", by decide +kernel⟩,
    ⟨[.base .int, .ref (.object left), .ref (.object right)], some (.ref (.object base))⟩, ⟨8⟩⟩

/-- A loop that replaces one instance by the other, in the range of a handler. -/
def code : Code where
  instructions := [.op (.load .ref 1), .op (.store .ref 3), .op (.load (.num .int) 0),
    .branch (.ifZero .eq 7), .op (.load .ref 2), .op (.store .ref 3), .branch (.goto 2),
    .op (.load .ref 3), .branch (.leave (some .ref)), .branch .athrow]
  maxStack := 1
  maxLocals := 4
  handlers := [⟨4, 7, 9, none⟩]

def entry : Frame := ⟨[.int, .ofClass left, .ofClass right, .top], .empty⟩

lemma wellFormed_table : table.WellFormed := by decide +kernel

lemma build_code : FlowGraph.build code = .ok (Flow.graphOf code) := by
  have h : Flow.firstFault code = none := by decide +kernel
  simp [FlowGraph.build, h]

lemma entry_method : Frame.entry method code.maxLocals = .ok entry := by decide +kernel

def problem : Problem := Analysis.problem table.hierarchy method (Flow.graphOf code) code

lemma run_problem : ∃ a, (run problem .standard entry).outcome = .ok a :=
  exists_ok_of_toBool (by decide +kernel)

/-- The sample method joins the two classes in its loop. -/
theorem recorded_isLeast_consistent_sample : ∃ a, (run problem .standard entry).outcome = .ok a ∧
    Consistent problem entry (fun i => (a.before[i]?).join) ∧
      ∀ F, Consistent problem entry F → ∀ i, problem.graph.Reached i →
        ∃ f u, a.before[i]? = some (some f) ∧ F i = some u ∧ f.Below table.hierarchy u := by
  obtain ⟨a, ha⟩ := run_problem
  exact ⟨a, ha, recorded_isLeast_consistent wellFormed_table.rooted build_code entry_method ha⟩

end Sample

end Bytecheck.Analysis
