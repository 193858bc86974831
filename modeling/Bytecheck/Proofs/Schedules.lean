import Mathlib.Tactic.Common
import Bytecheck.Proofs.Inflows
import Bytecheck.Proofs.Origins
import Bytecheck.Proofs.Termination

/-!
The order in which blocks are visited.

A schedule picks any of the blocks that wait. No schedule goes on for ever, and all schedules that
end without a fault end with the same frames. A schedule can fail although another one ends: a block
that is visited before all frames have reached it is interpreted with a frame that is too special,
and a few checks fail on special frames only (`Premature`). Merges never fail early, and neither
does any other check.
-/

namespace Bytecheck.Analysis

open Transfer

/-- Some schedule ends in the state, without a fault. -/
def Ends (p : Problem) (entry : Frame) (s : State) : Prop :=
  ∃ k, Runs p (initial p entry) k s ∧ s.queue = []

/-- A fault of an instruction in a frame that is too special. A `new` that meets its own value is
not among them. -/
def Early (t : ClassTable) (code : Code) (fault : AnalysisFault) : Prop :=
  ∃ i insn k, fault = .type i k ∧ code.instructions[i]? = some insn ∧ Premature t insn k ∧
    ∀ j, k ≠ .staleUninitialized j

/-- What the schedules of an analysis have in common when one of them ends in a state: they make a
bounded number of visits, those that end do so with the same frames, and those that fail do so
early. The order of the queue is one of them, if it is given enough fuel. -/
structure Agree (t : ClassTable) (p : Problem) (entry : Frame) (s₀ : State) (bound : ℕ) : Prop where
  length : ∀ {k s}, Runs p (initial p entry) k s → k ≤ bound
  ended : ∀ {s}, Ends p entry s → s.before = s₀.before ∧ s.after = s₀.after
  failed : ∀ {k s b fault}, Runs p (initial p entry) k s → b ∈ s.queue →
    (visit p { s with queue := s.queue.erase b } b).outcome = .error fault → Early t p.code fault
  queue : ∀ limit fuel, bound < fuel →
    (∃ s k, (loop p limit fuel (initial p entry)).outcome = .ok (s, k) ∧ s.before = s₀.before ∧
      s.after = s₀.after) ∨
    ∃ fault, (loop p limit fuel (initial p entry)).outcome = .error fault ∧ Early t p.code fault

section Schedules

variable {t : ClassTable} {m : Method} {g : FlowGraph} {code : Code} {entry : Frame} {s s₀ : State}
  {k n : ℕ}

lemma Runs.sound_lower (hr : t.Rooted) (L : g.Laid code)
    (hentry : Frame.entry m code.maxLocals = .ok entry)
    (hruns : Runs (problem t.hierarchy m g code)
      (initial (problem t.hierarchy m g code) entry) k s) :
    Sound (problem t.hierarchy m g code) (Lower t) code.maxLocals entry s :=
  hruns.sound L hr.upper (steady_interpreter _ _ _ _ _) (good_entry hentry)

/-! ### Schedules that end -/

/-- Schedules that end agree on the blocks. -/
lemma states_eq_of_ended (hr : t.Rooted) (L : g.Laid code)
    (hentry : Frame.entry m code.maxLocals = .ok entry)
    (h : Ends (problem t.hierarchy m g code) entry s)
    (h₀ : Ends (problem t.hierarchy m g code) entry s₀) {b : ℕ} {e : Frame}
    (he : s.states[b]? = some (.stable e)) : s₀.states[b]? = some (.stable e) := by
  obtain ⟨k, hruns, hq⟩ := h
  obtain ⟨k₀, hruns₀, hq₀⟩ := h₀
  have hs := hruns.sound_lower hr L hentry
  have hs₀ := hruns₀.sound_lower hr L hentry
  have hframe : s.frame? b = some e := frame?_eq he
  obtain ⟨e₀, he₀, hle, -⟩ := frame_le_of_inflows hr L hs₀ hq₀ hruns hframe
  have hframe₀ : s₀.frame? b = some e₀ := frame?_eq he₀
  obtain ⟨e', he', hle', -⟩ := frame_le_of_inflows hr L hs hq hruns₀ hframe₀
  rw [he] at he'
  cases he'
  rw [hr.rel_antisymm hle hle']
  exact he₀

/-- What is recorded of an instruction is determined by the states of the blocks. -/
lemma recorded_eq_of_ended (hr : t.Rooted) (L : g.Laid code)
    (hentry : Frame.entry m code.maxLocals = .ok entry)
    (h : Ends (problem t.hierarchy m g code) entry s)
    (h₀ : Ends (problem t.hierarchy m g code) entry s₀) (i : ℕ) :
    s.before[i]? = s₀.before[i]? ∧ s.after[i]? = s₀.after[i]? := by
  obtain ⟨k, hruns, hq⟩ := id h
  obtain ⟨k₀, hruns₀, hq₀⟩ := id h₀
  have hs := hruns.sound_lower hr L hentry
  have hs₀ := hruns₀.sound_lower hr L hentry
  by_cases hi : i < code.size
  · obtain ⟨b, B, hB, h1, h2⟩ := L.cover hi
    have hlt : b < g.blocks.length := (List.getElem?_eq_some_iff.1 hB).1
    by_cases hstable : ∃ e, s.states[b]? = some (.stable e)
    · obtain ⟨e, he⟩ := hstable
      have he₀ := states_eq_of_ended hr L hentry h h₀ he
      obtain ⟨_, f, f', hp, hf, hf'⟩ := hs.recorded he hB i h1 h2
      obtain ⟨_, f₀, f₀', hp₀, hf₀, hf₀'⟩ := hs₀.recorded he₀ hB i h1 h2
      obtain ⟨-, rfl, rfl⟩ := hp.unique hp₀
      rw [hf, hf₀, hf', hf₀']
      exact ⟨rfl, rfl⟩
    · -- a block that is stable in neither state was visited in neither run
      have hblank : ∀ {s : State},
          Sound (problem t.hierarchy m g code) (Lower t) code.maxLocals entry s → s.queue = [] →
          (¬ ∃ e, s.states[b]? = some (.stable e)) →
          s.before[i]? = some none ∧ s.after[i]? = some none := by
        intro s hs hq hno
        exact hs.blank ((hs.unvisited_or_stable hq hlt).resolve_right hno) hB i h1 h2
      obtain ⟨h3, h4⟩ := hblank hs hq hstable
      obtain ⟨h5, h6⟩ := hblank hs₀ hq₀ fun ⟨e, he⟩ =>
        hstable ⟨e, states_eq_of_ended hr L hentry h₀ h he⟩
      rw [h3, h4, h5, h6]
      exact ⟨rfl, rfl⟩
  · have h1 : s.before.length = code.size := hs.before
    have h2 : s.after.length = code.size := hs.after
    have h3 : s₀.before.length = code.size := hs₀.before
    have h4 : s₀.after.length = code.size := hs₀.after
    rw [List.getElem?_eq_none (by omega), List.getElem?_eq_none (by omega),
      List.getElem?_eq_none (by omega), List.getElem?_eq_none (by omega)]
    exact ⟨rfl, rfl⟩

/-! ### Faults where another schedule ends -/

/-- An instruction that is fine in the frames that a schedule ended with fails early only. -/
lemma early_of_step (wf : t.WellFormed) (L : g.Laid code)
    (hentry : Frame.entry m code.maxLocals = .ok entry)
    (hruns : Runs (problem t.hierarchy m g code) (initial (problem t.hierarchy m g code) entry) k s)
    {b i : ℕ} {B : Block} {e e₀ f v v' : Frame} {insn insn' : Instruction ℕ} {fault : StepFault}
    (hB : g.blocks[b]? = some B) (he : s.frame? b = some e)
    (hle : Frame.Rel (Lower t) code.maxLocals e e₀)
    (hp : Passes (problem t.hierarchy m g code) B e₀ i insn v v')
    (hw : Walk (problem t.hierarchy m g code) B e i f) (hi : i < B.stop)
    (hcode : code.instructions[i]? = some insn')
    (hfault : (problem t.hierarchy m g code).interpreter.step i insn' f = .error fault) :
    Early t code (.ofStep i fault) := by
  have hsame : some insn = some insn' := hp.code.symm.trans hcode
  cases hsame
  have hfv := walk_lower hle hw hp.walk
  have hnew : ∀ r, insn = .op (.new r) → r.isArray = false →
      Lower t (.uninit r i) (.uninit r i) := fun r _ _ =>
    ⟨.refl _, ⟨by simp, by simp⟩, by simp, by simp⟩
  have hfault : step ⟨t.hierarchy, m, code.maxStack⟩ i insn f = .error fault := hfault
  rcases (premature_simulation wf m code.maxStack).step insn hnew hfv v' hp.step with
    ⟨f', hf', -⟩ | ⟨err, herr, kind, rfl, hpre⟩
  · rw [hfault] at hf'
    cases hf'
  · rw [hfault] at herr
    cases herr
    refine ⟨i, insn, kind, rfl, hcode, hpre, ?_⟩
    rintro j rfl
    -- a stale value would have been made by this instruction
    cases hpre with
    | stale r =>
      exact step_new_ne_stale (hruns.fresh L hentry hB he hw hi) hfault

/-- **Where a schedule ends, all others fail early only**: a visit fails because an instruction does
so in a frame that is too special, never because there is no room or frames cannot be merged. -/
lemma early_of_visit (wf : t.WellFormed) (L : g.Laid code)
    (hentry : Frame.entry m code.maxLocals = .ok entry)
    (h₀ : Ends (problem t.hierarchy m g code) entry s₀)
    (hruns : Runs (problem t.hierarchy m g code) (initial (problem t.hierarchy m g code) entry) k s)
    {b : ℕ} (hb : b ∈ s.queue) {fault : AnalysisFault}
    (hfault : (visit (problem t.hierarchy m g code) { s with queue := s.queue.erase b } b).outcome =
      .error fault) : Early t code fault := by
  obtain ⟨k₀, hruns₀, hq₀⟩ := h₀
  have hr := wf.rooted
  have hs := hruns.sound_lower hr L hentry
  have hs₀ := hruns₀.sound_lower hr L hentry
  -- entry frames, and what blocks send, are below the frames that the other schedule ended with
  have hbelow : ∀ {c f}, s.frame? c = some f →
      ∃ e₀, s₀.states[c]? = some (.stable e₀) ∧ Frame.Rel (Lower t) code.maxLocals f e₀ := by
    intro c f hf
    obtain ⟨e₀, he₀, hle, -⟩ := frame_le_of_inflows hr L hs₀ hq₀ hruns hf
    exact ⟨e₀, he₀, hle⟩
  obtain ⟨B, e, hB, he, hyields⟩ := hs.toTidy.visit L hb
  obtain ⟨e₀, he₀, hle⟩ := hbelow (frame?_eq he)
  have hsent : ∀ {u y}, Sends (problem t.hierarchy m g code) B e u y →
      ∃ e', s₀.states[u]? = some (.stable e') ∧ Frame.Rel (Lower t) code.maxLocals y e' := by
    intro u y hy
    obtain ⟨z, hz, hyz⟩ := sends_lower L hB hle (hs₀.recorded he₀ hB) hy
    obtain ⟨e', he', hze'⟩ := hs₀.sent he₀ hB u z hz
    exact ⟨e', hs₀.stable_of_frame hq₀ he', hr.upper.rel_trans hyz hze'⟩
  cases hyields.2 fault hfault with
  | @step i insn f kind hw hi hcode hstep =>
    obtain ⟨_, v, v', hp, -⟩ := hs₀.recorded he₀ hB i hw.start_le hi
    exact early_of_step wf L hentry hruns hB (frame?_eq he) hle hp hw hi hcode hstep
  | @room i insn f f' hd hp hcatch hroom =>
    have := hs₀.room he₀ hB i hd hp.walk.start_le hp.lt hcatch
    omega
  | @merge u x old s' P kind hx hposts hP hold hm =>
    obtain ⟨e', he', hxe'⟩ := hsent hx
    obtain ⟨l, hl, hmem⟩ := hposts
    have holds := posted_invariant (Q := fun c f => ∃ e₀, s₀.states[c]? = some (.stable e₀) ∧
        Frame.Rel (Lower t) code.maxLocals f e₀) ?_ ?_ hl ?_ u old hold
    · obtain ⟨e'', he'', hle''⟩ := holds
      rw [he'] at he''
      cases he''
      obtain ⟨new, hnew, -⟩ := hr.exists_merge hle'' hxe'
      have hm : old.merge t.hierarchy x = .error kind := hm
      rw [hnew] at hm
      cases hm
    · rintro c f₁ f₂ f₃ ⟨e₁, he₁, h1⟩ ⟨e₂, he₂, h2⟩ hm
      rw [he₁] at he₂
      cases he₂
      exact ⟨e₁, he₁, hr.rel_merge_left h1 h2 hm⟩
    · intro c f hf
      rw [frame?_claim he] at hf
      exact hbelow hf
    · exact fun c y hy => hsent (hP c y ((hmem c y).1 hy))

/-- **The order of visits.** Where some schedule ends without a fault, no schedule goes on for ever,
all schedules that end do so with the same frames, and the others fail early. The order of the queue
is one of them. -/
theorem schedules_agree_or_fail_early (wf : t.WellFormed) (hg : FlowGraph.build code = .ok g)
    (hentry : Frame.entry m code.maxLocals = .ok entry)
    (h₀ : Ends (problem t.hierarchy m g code) entry s₀) :
    ∃ bound, Agree t (problem t.hierarchy m g code) entry s₀ bound := by
  have L := FlowGraph.build_laid hg
  have hr := wf.rooted
  have hended : ∀ {s}, Ends (problem t.hierarchy m g code) entry s →
      s.before = s₀.before ∧ s.after = s₀.after := fun h =>
    ⟨List.ext_getElem? fun i => (recorded_eq_of_ended hr L hentry h h₀ i).1,
      List.ext_getElem? fun i => (recorded_eq_of_ended hr L hentry h h₀ i).2⟩
  refine ⟨_, fun hruns => hruns.length_le hr t.height_le L hentry, hended,
    fun hruns hb hfault => early_of_visit wf L hentry h₀ hruns hb hfault,
    fun limit fuel hfuel => ?_⟩
  cases hloop : (loop (problem t.hierarchy m g code) limit fuel
    (initial (problem t.hierarchy m g code) entry)).outcome with
  | ok r =>
    obtain ⟨hruns, hq⟩ := loop_ok hloop
    exact Or.inl ⟨r.1, r.2, rfl, hended ⟨r.2, hruns, hq⟩⟩
  | error fault =>
    refine Or.inr ⟨fault, rfl, ?_⟩
    rcases loop_fails hloop with ⟨k, s, b, hruns, hb, hfault⟩ | ⟨s, b, hruns, -⟩
    · exact early_of_visit wf L hentry h₀ hruns hb hfault
    · -- there was fuel for more visits than there can be
      have := hruns.length_le hr t.height_le L hentry
      omega

end Schedules

/-! ### Methods in which a block is visited too early -/

/-- The state after visits of the given blocks, one after the other. -/
def follow (p : Problem) : List ℕ → State → Option State
  | [], s => some s
  | b :: bs, s =>
    if b ∈ s.queue then
      match (visit p { s with queue := s.queue.erase b } b).outcome with
      | .ok s' => follow p bs s'
      | .error _ => none
    else none

lemma runs_of_follow {p : Problem} {l : List ℕ} {s s' : State} (h : follow p l s = some s') :
    Runs p s l.length s' := by
  induction l generalizing s with
  | nil =>
    cases h
    exact .none
  | cons b l ih =>
    unfold follow at h
    split at h
    · rename_i hb
      split at h
      · rename_i s₁ hs₁
        exact .head ⟨b, hb, hs₁⟩ (ih h)
      · cases h
    · cases h

lemma exists_ends {p : Problem} {entry : Frame} (l : List ℕ)
    (h : ((follow p l (initial p entry)).any fun s => s.queue.isEmpty) = true) :
    ∃ s, Ends p entry s := by
  obtain ⟨s, hs, hq⟩ := (Option.any_eq_true _ _).1 h
  exact ⟨s, l.length, runs_of_follow hs, List.isEmpty_iff.1 hq⟩

namespace Rushed

def owner : BinaryName := ⟨"p/T", by decide +kernel⟩
def left : BinaryName := ⟨"p/A", by decide +kernel⟩
def right : BinaryName := ⟨"p/B", by decide +kernel⟩
def face : BinaryName := ⟨"p/I", by decide +kernel⟩

/-- One interface; the other classes are not recorded. -/
def table : ClassTable := ⟨[⟨face, some .object, [], ⟨0x600⟩⟩]⟩

/-- A method whose verdict depends on the order of visits: an order in which it is accepted, and the
fault that is met in the order of the queue. -/
structure Case where
  method : Method
  code : Code
  entry : Frame
  order : List ℕ
  fault : AnalysisFault

def Case.problem (c : Case) : Problem :=
  Analysis.problem table.hierarchy c.method (Flow.graphOf c.code) c.code

/-- An array is stored into an array of another class, or of the common superclass of both. -/
def store : Case where
  method := ⟨owner, ⟨"f", by decide +kernel⟩,
    ⟨[.base .int, .ref (.objectArray 0 left), .ref (.objectArray 0 right)], none⟩, ⟨8⟩⟩
  code :=
    { instructions := [.op (.load .ref 1), .op (.load (.num .int) 0), .branch (.ifZero .eq 7),
        .op (.load (.num .int) 0), .op (.load .ref 2), .op (.arrayStore .ref),
        .branch (.leave none), .op (.stack .pop), .op (.load .ref 2), .branch (.goto 3)]
      maxStack := 3
      maxLocals := 3
      handlers := [] }
  entry := ⟨[.int, .object (.objectArray 0 left), .object (.objectArray 0 right)], .empty⟩
  order := [0, 2, 1]
  fault := .type 5 (.incompatible (.object (.objectArray 0 right)) (.ofClass left))

/-- An array, or an object of any class, is passed for an interface. -/
def interface : Case where
  method := ⟨owner, ⟨"f", by decide +kernel⟩,
    ⟨[.base .int, .ref (.objectArray 0 left), .ref (.object .object)], none⟩, ⟨8⟩⟩
  code :=
    { instructions := [.op (.load .ref 1), .op (.load (.num .int) 0), .branch (.ifZero .eq 5),
        .op (.invoke .static ⟨.object owner, ⟨"g", by decide +kernel⟩,
          ⟨[.ref (.object face)], none⟩, false⟩),
        .branch (.leave none), .op (.stack .pop), .op (.load .ref 2), .branch (.goto 3)]
      maxStack := 2
      maxLocals := 3
      handlers := [] }
  entry := ⟨[.int, .object (.objectArray 0 left), .ofClass .object], .empty⟩
  order := [0, 2, 1]
  fault := .type 3 (.incompatible (.object (.objectArray 0 left)) (.ofClass face))

/-- A constructor returns with its receiver, or after it has lost it. -/
def leave : Case where
  method := ⟨owner, .init, ⟨[.base .int], none⟩, ⟨1⟩⟩
  code :=
    { instructions := [.op (.load (.num .int) 1), .branch (.ifZero .eq 3), .branch (.leave none),
        .op (.load .ref 0), .op (.invoke .special ⟨.object .object, .init, ⟨[], none⟩, false⟩),
        .branch (.goto 2)]
      maxStack := 1
      maxLocals := 2
      handlers := [] }
  entry := ⟨[.uninitThis, .int], .empty⟩
  order := [0, 2, 1]
  fault := .type 2 .returnBeforeInit

def cases : List Case := [store, interface, leave]

lemma wellFormed_table : table.WellFormed := by decide +kernel

lemma build_case {c : Case} (hc : c ∈ cases) :
    FlowGraph.build c.code = .ok (Flow.graphOf c.code) := by
  have h : ∀ c ∈ cases, Flow.firstFault c.code = none := by decide +kernel
  simp [FlowGraph.build, h c hc]

lemma entry_case : ∀ c ∈ cases, Frame.entry c.method c.code.maxLocals = .ok c.entry := by
  decide +kernel

lemma ends_case {c : Case} (hc : c ∈ cases) : ∃ s, Ends c.problem c.entry s := by
  have h : ∀ c ∈ cases,
      ((follow c.problem c.order (initial c.problem c.entry)).any fun s =>
        s.queue.isEmpty) = true := by
    decide +kernel
  exact exists_ends c.order (h c hc)

/-- Each of the checks that can fail early does so in the order of the queue, in a method that
another order accepts. -/
theorem verdict_depends_on_order : table.WellFormed ∧ ∀ c ∈ cases,
    FlowGraph.build c.code = .ok (Flow.graphOf c.code) ∧
    Frame.entry c.method c.code.maxLocals = .ok c.entry ∧ (∃ s, Ends c.problem c.entry s) ∧
    (run c.problem .standard c.entry).outcome = .error c.fault := by
  have hrun : ∀ c ∈ cases, (run c.problem .standard c.entry).outcome = .error c.fault := by
    decide +kernel
  exact ⟨wellFormed_table, fun c hc => ⟨build_case hc, entry_case c hc, ends_case hc, hrun c hc⟩⟩

end Rushed

/-- The schedules of the sample that stores an array agree, or fail early. -/
theorem schedules_agree_or_fail_early_store : ∃ s₀ bound,
    Ends Rushed.store.problem Rushed.store.entry s₀ ∧
      Agree Rushed.table Rushed.store.problem Rushed.store.entry s₀ bound := by
  have hmem : Rushed.store ∈ Rushed.cases := List.mem_cons_self
  obtain ⟨s₀, h₀⟩ := Rushed.ends_case hmem
  obtain ⟨bound, hagree⟩ := schedules_agree_or_fail_early Rushed.wellFormed_table
    (Rushed.build_case hmem) (Rushed.entry_case _ hmem) h₀
  exact ⟨s₀, bound, h₀, hagree⟩

end Bytecheck.Analysis
