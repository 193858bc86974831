import Mathlib.Tactic.Common
import Mathlib.Tactic.Ring
import Bytecheck.Proofs.InternalFaults
import Bytecheck.Proofs.Termination

/-!
The ceiling on visits.

Without a ceiling, the analysis visits blocks in the order of the queue until nothing waits or a
visit fails (`Drains`). Over a tree of classes it ends by itself, after a number of visits that is
bounded by the number of blocks, the slots of a frame and the depth of the tree. A ceiling below
that number turns the outcome into a fault, and any other ceiling leaves it as it is.
-/

namespace Bytecheck

/-! ### The depth of a class tree -/

namespace ClassTable

variable {t : ClassTable} {depth : ℕ}

/-- No class is further from the root than the given number of links, where a way up that ends at
another class is continued by one link to the root. -/
def isWithin (t : ClassTable) (depth : ℕ) : Bool :=
  0 < depth && t.classes.all fun c => (t.up depth c.name).all (· = .object)

lemma Rooted.height_le_of_isWithin (hr : t.Rooted) (h : t.isWithin depth = true)
    (c : BinaryName) : t.height c ≤ depth := by
  obtain ⟨hpos, hall⟩ : 0 < depth ∧
      ∀ i ∈ t.classes, ∀ d, t.up depth i.name = some d → d = .object := by
    simpa [isWithin, Option.all_eq_true] using h
  cases hs : t.superclass c with
  | none => exact (height_le_one hs).trans hpos
  | some d =>
    obtain ⟨i, hi, rfl⟩ := List.mem_map.1 (recorded_of_extends hs)
    exact hr.height_le_of_up (hall i hi)

end ClassTable

namespace Analysis

/-! ### Runs without a ceiling -/

/-- The analysis without a ceiling: blocks are visited in the order of the queue, a number of times,
until nothing waits or a visit fails. -/
inductive Drains (p : Problem) : State → ℕ → Except AnalysisFault State → Prop
  | done {s : State} : s.queue = [] → Drains p s 0 (.ok s)
  | fails {s : State} {b : ℕ} {rest : List ℕ} {fault : AnalysisFault} : s.queue = b :: rest →
      (visit p { s with queue := rest } b).outcome = .error fault → Drains p s 1 (.error fault)
  | visit {s s' : State} {b n : ℕ} {rest : List ℕ} {r : Except AnalysisFault State} :
      s.queue = b :: rest → (visit p { s with queue := rest } b).outcome = .ok s' →
      Drains p s' n r → Drains p s (n + 1) r

section Drains

variable {p : Problem} {s : State} {n : ℕ} {r : Except AnalysisFault State} {entry : Frame}

/-- **The ceiling decides nothing but whether the run is cut short.** -/
theorem loop_of_drains (h : Drains p s n r) (limit fuel : ℕ) :
    (loop p limit fuel s).outcome =
      if n ≤ fuel then r.map (·, n) else .error (.internal none (.iterationLimit limit)) := by
  induction h generalizing fuel with
  | done hq =>
    rw [loop_nil limit fuel hq, if_pos (Nat.zero_le fuel)]
    rfl
  | fails hq hv =>
    cases fuel with
    | zero => rw [loop_zero limit hq, if_neg (by omega)]
    | succ fuel =>
      rw [loop_succ limit fuel hq, hv, if_pos (by omega)]
      rfl
  | @visit s s' b n rest r hq hv _ ih =>
    cases fuel with
    | zero => rw [loop_zero limit hq, if_neg (by omega)]
    | succ fuel =>
      rw [loop_succ limit fuel hq, hv]
      change ((loop p limit fuel s').outcome >>= _) = _
      rw [ih fuel]
      simp only [Nat.add_le_add_iff_right]
      split
      · cases r <;> rfl
      · rfl

lemma run_of_drains (h : Drains p (initial p entry) n r) (settings : Settings) :
    (run p settings entry).outcome =
      if n ≤ ceiling p settings then r.map fun s => ⟨s.before, s.after, n⟩
      else .error (.internal none (.iterationLimit (ceiling p settings))) := by
  unfold run
  rw [Traced.outcome_bind, loop_of_drains h]
  split
  · cases r <;> rfl
  · rfl

/-- The outcome of a verification, from that of the analysis. -/
lemma method_of_run {h : Hierarchy} {settings : Settings} {m : Method} {code : Code}
    {lineOf? : ℕ → Option ℕ} {g : FlowGraph} (hg : FlowGraph.build code = .ok g)
    (hentry : Frame.entry m code.maxLocals = .ok entry) :
    (Verify.method h settings m code lineOf?).outcome =
      ((run (problem h m g code) settings entry).outcome.map fun a =>
        ⟨a.before, a.after, g.deadCode⟩).mapError fun cause =>
          ⟨cause, cause.instruction.bind lineOf?⟩ := by
  have hverified : (Verify.verified (Transfer.interpreter ⟨h, m, code.maxStack⟩) h settings m
      code).outcome = (run (problem h m g code) settings entry).outcome.map fun a =>
        ⟨a.before, a.after, g.deadCode⟩ := by
    unfold Verify.verified Verify.analyze Verify.buildGraph
    simp only [Traced.outcome_bind, Traced.outcome_lift, hg, hentry, Except.mapError]
    change ((run (problem h m g code) settings entry).outcome >>= _) >>= _ = _
    cases (run (problem h m g code) settings entry).outcome with
    | error cause => rfl
    | ok a => cases settings.logDeadCode <;> rfl
  unfold Verify.method Verify.withInterpreter
  rw [← hverified]
  dsimp only
  split
  · rename_i v hv
    rw [hv]
    rfl
  · rename_i cause hcause
    rw [hcause]
    rfl

/-- Where the runs are bounded, the analysis ends by itself. -/
lemma exists_drains {bound : ℕ}
    (hbound : ∀ k s' b, Runs p s k s' → b ∈ s'.queue → k < bound) :
    ∃ n r, n ≤ bound ∧ Drains p s n r := by
  -- by induction on the visits that the bound still allows
  have hmain : ∀ left k s', Runs p s k s' → k + left = bound →
      ∃ n r, n ≤ left ∧ Drains p s' n r := by
    intro left
    induction left with
    | zero =>
      intro k s' hruns hk
      cases hq : s'.queue with
      | nil => exact ⟨0, _, Nat.le_refl _, .done hq⟩
      | cons b rest =>
        have := hbound k s' b hruns (hq ▸ List.mem_cons_self)
        omega
    | succ left ih =>
      intro k s' hruns hk
      cases hq : s'.queue with
      | nil => exact ⟨0, _, Nat.zero_le _, .done hq⟩
      | cons b rest =>
        cases hv : (visit p { s' with queue := rest } b).outcome with
        | error fault => exact ⟨1, _, by omega, .fails hq hv⟩
        | ok s'' =>
          have hnext : Next p s' s'' := by
            refine ⟨b, hq ▸ List.mem_cons_self, ?_⟩
            rw [hq, List.erase_cons_head]
            exact hv
          obtain ⟨n, r, hn, hdrains⟩ := ih (k + 1) s'' (.visit hruns hnext) (by omega)
          exact ⟨n + 1, r, by omega, .visit hq hv hdrains⟩
  exact hmain bound 0 s .none (by omega)

end Drains

/-! ### Runs over a tree of classes -/

section Bound

variable {t : ClassTable} {depth : ℕ} {m : Method} {g : FlowGraph} {code : Code} {entry : Frame}

/-- **The analysis ends by itself.** Over a tree of classes, the analysis without a ceiling ends
after a number of visits that is bounded by the number of blocks, the slots of a frame and the depth
of the tree; and with a ceiling its outcome is the same, if the ceiling allows that number. -/
theorem drains_within (hr : t.Rooted) (hdepth : t.isWithin depth = true)
    (hg : FlowGraph.build code = .ok g) (hentry : Frame.entry m code.maxLocals = .ok entry) :
    ∃ n r, n ≤ g.size * (1 + (code.maxStack + code.maxLocals) * (depth + 3)) ∧
      Drains (problem t.hierarchy m g code) (initial (problem t.hierarchy m g code) entry) n r ∧
      ∀ limit fuel, (loop (problem t.hierarchy m g code) limit fuel
          (initial (problem t.hierarchy m g code) entry)).outcome =
        if n ≤ fuel then r.map (·, n) else .error (.internal none (.iterationLimit limit)) := by
  obtain ⟨n, r, hn, hdrains⟩ := exists_drains fun k s b hruns hb =>
    hruns.length_lt hr (hr.height_le_of_isWithin hdepth) (FlowGraph.build_laid hg) hentry hb
  exact ⟨n, r, hn, hdrains, loop_of_drains hdrains⟩

/-- The sample method with a loop and a handler is analyzed in a bounded number of visits. -/
theorem drains_within_sample : Sample.table.isWithin 2 = true ∧
    ∃ n r, n ≤ (Flow.graphOf Sample.code).size *
        (1 + (Sample.code.maxStack + Sample.code.maxLocals) * (2 + 3)) ∧
      Drains Sample.problem (initial Sample.problem Sample.entry) n r ∧
      ∀ limit fuel, (loop Sample.problem limit fuel (initial Sample.problem Sample.entry)).outcome =
        if n ≤ fuel then r.map (·, n) else .error (.internal none (.iterationLimit limit)) := by
  have hdepth : Sample.table.isWithin 2 = true := by decide +kernel
  exact ⟨hdepth, drains_within Sample.wellFormed_table.rooted hdepth Sample.build_code
    Sample.entry_method⟩

/-- **A ceiling that is high enough.** Over a class tree of depth five or less, and over a deeper
one where frames have few slots, no method is rejected because of the standard ceiling. -/
theorem standard_limit_not_reached {lineOf? : ℕ → Option ℕ} (hr : t.Rooted)
    (hdepth : t.isWithin depth = true) (hg : FlowGraph.build code = .ok g)
    (hslots : 1 + (code.maxStack + code.maxLocals) * (depth + 3) ≤
      8 * (code.maxStack + code.maxLocals + 1))
    (hmax : 8 * g.size * (code.maxStack + code.maxLocals + 1) ≤ Settings.maxLimit)
    (place : Option ℕ) (limit : ℕ) (line : Option ℕ) :
    (Verify.method t.hierarchy .standard m code lineOf?).outcome ≠
      .error ⟨.internal place (.iterationLimit limit), line⟩ := by
  intro hfail
  rcases method_fails hfail with ⟨fault, hfault⟩ | ⟨g', entry, hg', hentry, hrun⟩
  · cases hfault
  · obtain rfl : g = g' := Except.ok.inj (hg.symm.trans hg')
    have L := FlowGraph.build_laid hg
    -- a block waits after as many visits as the ceiling allows
    obtain ⟨s, b, hruns, hb, -⟩ := waiting_of_run L hentry hrun
    have hlt := hruns.length_lt hr (hr.height_le_of_isWithin hdepth) L hentry hb
    have hceiling : ceiling (problem t.hierarchy m g code) .standard =
        8 * g.size * (code.maxStack + code.maxLocals + 1) := Nat.min_eq_left hmax
    have hbound : g.size * (1 + (code.maxStack + code.maxLocals) * (depth + 3)) ≤
        8 * g.size * (code.maxStack + code.maxLocals + 1) :=
      calc g.size * (1 + (code.maxStack + code.maxLocals) * (depth + 3))
          ≤ g.size * (8 * (code.maxStack + code.maxLocals + 1)) := Nat.mul_le_mul_left _ hslots
        _ = 8 * g.size * (code.maxStack + code.maxLocals + 1) := by ring
    exact absurd (hbound.trans hceiling.ge) (Nat.not_le.2 hlt)

/-- The sample method stays below the standard ceiling. -/
theorem standard_limit_not_reached_sample : Sample.table.isWithin 2 = true ∧
    1 + (Sample.code.maxStack + Sample.code.maxLocals) * (2 + 3) ≤
      8 * (Sample.code.maxStack + Sample.code.maxLocals + 1) ∧
    ∀ place limit line,
      (Verify.method Sample.table.hierarchy .standard Sample.method Sample.code
        fun _ => none).outcome ≠ .error ⟨.internal place (.iterationLimit limit), line⟩ := by
  have hdepth : Sample.table.isWithin 2 = true := by decide +kernel
  have hslots : 1 + (Sample.code.maxStack + Sample.code.maxLocals) * (2 + 3) ≤
      8 * (Sample.code.maxStack + Sample.code.maxLocals + 1) := by decide
  exact ⟨hdepth, hslots, standard_limit_not_reached Sample.wellFormed_table.rooted hdepth
    Sample.build_code hslots (by decide +kernel)⟩

end Bound

end Analysis

end Bytecheck
