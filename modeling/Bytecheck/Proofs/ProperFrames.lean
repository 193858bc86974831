import Mathlib.Tactic.Common
import Bytecheck.Proofs.Origins

/-!
What every recorded frame is like.

The values that a method can come to hold are closed under instructions and under joins: an
uninitialized object names a `new` of its class in the code, and the uninitialized receiver occurs
in constructors that need it only. Frames of such values, with the right number of locals and no
more on the stack than the code allows, are what a run keeps, whatever the classes are.
-/

namespace Bytecheck

/-- A frame that the code allows: as many locals and no more stack than it declares, wide locals in
two slots, no value without a type, and uninitialized values of the code and the method only. -/
structure Frame.Proper (m : Method) (code : Code) (f : Frame) : Prop where
  locals : f.locals.length = code.maxLocals
  depth : f.depth ≤ code.maxStack
  bottom : ¬ f.Has .bottom
  top : .top ∉ f.stack.toList
  wide : ∀ {i : ℕ} {x}, f.locals[i]? = some x → x = .long ∨ x = .double →
    f.locals[i + 1]? = some .top
  origin : ∀ {r o}, f.Has (.uninit r o) →
    r.isArray = false ∧ code.instructions[o]? = some (.op (.new r))
  this : f.Has .uninitThis → m.hasReceiver = true ∧ m.name = .init ∧ m.owner ≠ .object

/-- The values that a method can come to hold. -/
structure Known (m : Method) (code : Code) (x : VType) : Prop where
  value : x.IsValue
  origin : ∀ {r o}, x = .uninit r o →
    r.isArray = false ∧ code.instructions[o]? = some (.op (.new r))
  this : x = .uninitThis → m.hasReceiver = true ∧ m.mustInitialize = true

section Known

variable {m : Method} {code : Code} {f g k : Frame} {x y : VType}

lemma known_universe (m : Method) (code : Code) : Universe (Known m code) where
  values := Known.value
  fixed := by
    intro x hx
    refine ⟨universe_isValue.fixed hx, ?_, ?_⟩
    · rintro r o rfl
      cases hx
    · rintro rfl
      cases hx

/-- A value that is more general is known too. -/
lemma Known.up (hx : Known m code x) (hxy : Kindred x y) : Known m code y := by
  obtain ⟨-, -, rfl | ⟨-, s, rfl⟩⟩ := hxy
  · exact hx
  · exact (known_universe m code).fixed rfl

/-- Frames of known values that fit the code. -/
def Frame.Within (m : Method) (code : Code) (f : Frame) : Prop :=
  Frame.Rel (Diag (Known m code)) code.maxLocals f f ∧ f.depth ≤ code.maxStack

lemma Frame.Within.good (hf : f.Within m code) : f.Good code.maxLocals :=
  hf.1.good_left (known_universe m code).alike

lemma Frame.Within.proper (hf : f.Within m code) : f.Proper m code := by
  obtain ⟨hrel, hdepth⟩ := id hf
  have hformed := hf.good.formed
  refine ⟨hrel.left, hdepth, fun hb => hformed.bottom (List.mem_append.2 hb), hformed.top, ?_, ?_, ?_⟩
  · rintro i x hx (rfl | rfl)
    · exact hrel.paired i _ hx rfl
    · exact hrel.paired i _ hx rfl
  · exact fun ho => (hrel.of_has ho (by simp)).origin rfl
  · intro hthis
    obtain ⟨hreceiver, hinit⟩ := (hrel.of_has hthis (by simp)).this rfl
    unfold Method.mustInitialize Method.isConstructor at hinit
    simp only [Bool.and_eq_true, decide_eq_true_eq] at hinit
    exact ⟨hreceiver, hinit⟩

lemma within_entry (h : Frame.entry m code.maxLocals = .ok f) : f.Within m code := by
  refine ⟨(Analysis.good_entry h).rel_diag fun x hx hval => ⟨hval, ?_, ?_⟩, ?_⟩
  · rintro r o rfl
    exact absurd hx (Analysis.entry_uninit h)
  · rintro rfl
    have harg : VType.uninitThis ∈ Frame.arguments m := by
      rcases hx with hx | hx
      · rw [(Analysis.entry_ok h).2] at hx
        cases hx
      · rcases Analysis.mem_locals_entry h hx with hx | hx
        · exact hx
        · cases hx
    -- no parameter is a receiver
    unfold Frame.arguments Frame.receiver at harg
    rcases List.mem_append.1 harg with harg | harg
    · split at harg
      · rename_i hreceiver
        have hthis := List.mem_singleton.1 harg
        split at hthis
        · rename_i hinit
          exact ⟨hreceiver, hinit⟩
        · cases hthis
      · cases harg
    · obtain ⟨q, -, hq⟩ := List.mem_map.1 harg
      rcases q with b | r
      · cases b <;> cases hq
      · cases hq
  · rw [(Analysis.entry_ok h).2]
    exact Nat.zero_le _

/-- **One instruction** keeps frames within the code. -/
lemma within_step {h : Hierarchy} {i : ℕ} {insn : Instruction ℕ} (hf : f.Within m code)
    (hi : code.instructions[i]? = some insn)
    (hstep : Transfer.step ⟨h, m, code.maxStack⟩ i insn f = .ok g) : g.Within m code := by
  have hnew : ∀ r, insn = .op (.new r) → r.isArray = false →
      Diag (Known m code) (.uninit r i) (.uninit r i) := by
    rintro r rfl harray
    refine ⟨rfl, ⟨by simp, by simp⟩, ?_, by simp⟩
    rintro r' o ho
    cases ho
    exact ⟨harray, hi⟩
  exact ⟨(((known_universe m code).simulation _).step insn hnew hf.1).related hstep hstep,
    Analysis.depth_of_step hstep⟩

/-- **One merge** keeps frames within the code. -/
lemma within_merge {h : Hierarchy} (hf : f.Within m code) (hg : g.Within m code)
    (hm : f.merge h g = .ok k) : k.Within m code := by
  have hup := ((kindred_upper h).rel_merge hf.good hg.good hm).1
  refine ⟨hup.diag_right kindred_alike Known.up hf.1, ?_⟩
  have hheight := hup.stack.height_eq kindred_alike
  have hdepth := hf.2
  unfold Frame.depth at hdepth ⊢
  omega

end Known

namespace Analysis

open Transfer

variable {h : Hierarchy} {m : Method} {g : FlowGraph} {code : Code} {entry e f x : Frame}
  {B : Block} {v : Verified}

lemma within_walk (he : e.Within m code) {i : ℕ} (hw : Walk (problem h m g code) B e i f) :
    f.Within m code := by
  induction hw with
  | start => exact he
  | next _ _ hi hs ih => exact within_step ih hi hs

lemma within_sends (he : e.Within m code) (hroom : HasRoom (problem h m g code) B) {t : ℕ}
    (hx : Sends (problem h m g code) B e t x) : x.Within m code := by
  refine ⟨?_, depth_of_sends he.2 hroom hx⟩
  cases hx with
  | exit hw _ => exact (within_walk he hw).1
  | thrown hp _ hthrow =>
    obtain ⟨-, y, hy, rfl⟩ := hthrow
    have hf := within_walk he hp.walk
    refine rel_handlerFrame ⟨rfl, (known_universe m code).fixed rfl⟩ ?_
    rcases mem_throwing_iff.1 hy with rfl | ⟨-, rfl⟩
    · exact hf.1
    · exact (within_step hf hp.code hp.step).1

/-- **A whole run** keeps entry frames within the code. -/
lemma Runs.within (L : g.Laid code) (hentry : Frame.entry m code.maxLocals = .ok entry) {k : ℕ}
    {s : State} (hruns : Runs (problem h m g code) (initial (problem h m g code) entry) k s) :
    ∀ b f, s.frame? b = some f → f.Within m code := by
  refine entry_invariant (p := problem h m g code) L (Q := fun _ f => f.Within m code)
    (within_entry hentry) ?_ ?_ hruns
  · exact fun _ _ _ _ hf hg hm => within_merge hf hg hm
  · exact fun _ _ _ _ _ _ he hroom hx => within_sends he hroom hx

/-- **Recorded frames are proper.** An accepted method has a place for a frame before and after each
instruction, and all frames that are there are proper, whatever the classes are. -/
theorem recorded_frames_proper {settings : Settings} {lineOf? : ℕ → Option ℕ}
    (hok : (Verify.method h settings m code lineOf?).outcome = .ok v) :
    v.before.length = code.size ∧ v.after.length = code.size ∧
      ∀ f, some f ∈ v.before ∨ some f ∈ v.after → f.Proper m code := by
  obtain ⟨g, entry, k, s, hends⟩ := method_ends hok
  have hs := hends.sound (kindred_upper h)
  have hentry := hends.runs.within hends.laid hends.entered
  rw [hends.before, hends.after]
  refine ⟨hs.before, hs.after, ?_⟩
  rintro f (hf | hf)
  · obtain ⟨i, hi⟩ := List.mem_iff_getElem?.1 hf
    obtain ⟨b, B, e, insn, f₁, f₂, -, he, hp, hf₁, -⟩ :=
      hs.exists_passes hends.laid hends.empty (Or.inl ⟨f, hi⟩)
    rw [hi] at hf₁
    cases hf₁
    exact (within_walk (hentry b e (frame?_eq he)) hp.walk).proper
  · obtain ⟨i, hi⟩ := List.mem_iff_getElem?.1 hf
    obtain ⟨b, B, e, insn, f₁, f₂, -, he, hp, -, hf₂⟩ :=
      hs.exists_passes hends.laid hends.empty (Or.inr ⟨f, hi⟩)
    rw [hi] at hf₂
    cases hf₂
    exact (within_step (within_walk (hentry b e (frame?_eq he)) hp.walk) hp.code hp.step).proper

end Analysis

/-! ### A constructor with a wide argument -/

namespace Opening

def owner : BinaryName := ⟨"p/Vault", by decide +kernel⟩
def box : BinaryName := ⟨"p/Box", by decide +kernel⟩

def method : Method := ⟨owner, .init, ⟨[.base .long], none⟩, ⟨1⟩⟩

/-- An object is kept in a local and never initialized; then the receiver is. -/
def code : Code where
  instructions := [.op (.new (.object box)), .op (.store .ref 3), .op (.load .ref 0),
    .op (.invoke .special ⟨.object .object, .init, ⟨[], none⟩, false⟩), .branch (.leave none)]
  maxStack := 1
  maxLocals := 4
  handlers := []

def hierarchy : Hierarchy := ClassTable.hierarchy ⟨[]⟩

lemma accepted :
    ∃ v, (Verify.method hierarchy .standard method code fun _ => none).outcome = .ok v :=
  exists_ok_of_toBool (by decide +kernel)

end Opening

/-- The frames of the sample constructor are proper. -/
theorem recorded_frames_proper_opening : ∃ v,
    (Verify.method Opening.hierarchy .standard Opening.method Opening.code
      fun _ => none).outcome = .ok v ∧
    v.before.length = Opening.code.size ∧ v.after.length = Opening.code.size ∧
      ∀ f, some f ∈ v.before ∨ some f ∈ v.after → f.Proper Opening.method Opening.code := by
  obtain ⟨v, hv⟩ := Opening.accepted
  exact ⟨v, hv, Analysis.recorded_frames_proper hv⟩

end Bytecheck
