import Mathlib.Logic.Relation
import Mathlib.Tactic.Common
import Bytecheck.Hierarchy
import Bytecheck.Proofs.Reachability

/-!
The tree of classes, and the join of two classes as their nearest common ancestor.

Superclass links that never close on themselves make a forest; every class without a recorded
superclass, and every interface, hangs from the root class. `Under` is the order of that tree.
The main statement is that `joinClass` finds least upper bounds in it.
-/

namespace Bytecheck

namespace ClassTable

open Relation

/-- The second class is the recorded superclass of the first. -/
def Extends (t : ClassTable) (c d : BinaryName) : Prop := t.superclass c = some d

/-- The second class is met on the way up from the first. -/
def Ancestor (t : ClassTable) : BinaryName → BinaryName → Prop := ReflTransGen t.Extends

/-- The links up form a tree under the root class: they never close on themselves, and none but a
link to the root ends at an interface. Classes that are not recorded are allowed. -/
structure Rooted (t : ClassTable) : Prop where
  root : t.superclass .object = none
  acyclic : ∀ c, ¬ TransGen t.Extends c c
  parent : ∀ c d, t.Extends c d → d ≠ .object → t.isInterface d = false

/-- Well-formed tables: the root class has no links out of it, superclass links never cycle, no
superclass is an interface, and the superclass of an interface is the root class, if it has one. -/
structure WellFormed (t : ClassTable) : Prop where
  root : t.links .object = []
  acyclic : ∀ c, ¬ TransGen t.Extends c c
  parent : ∀ c d, t.Extends c d → t.isInterface d = false
  interface : ∀ c d, t.isInterface c = true → t.Extends c d → d = .object

variable {t : ClassTable} {c d e : BinaryName}

lemma superclass_of_find? {i : ClassInfo} (h : t.find? c = some i) :
    t.superclass c = i.superclass := by
  rw [superclass, h, Option.bind_some]

lemma isInterface_of_find? {i : ClassInfo} (h : t.find? c = some i) :
    t.isInterface c = i.isInterface := by
  rw [isInterface, h, Option.map_some, Option.getD_some]

lemma superclass_mem_links (h : t.Extends c d) : d ∈ t.links c :=
  mem_links_of_superLinks (Option.mem_toList.2 h)

/-- Only recorded classes are known to be interfaces. -/
lemma exists_of_isInterface (h : t.isInterface c = true) :
    ∃ i, t.find? c = some i ∧ i.isInterface = true := by
  cases hi : t.find? c with
  | none => simp [isInterface, hi] at h
  | some i => exact ⟨i, rfl, isInterface_of_find? hi ▸ h⟩

lemma WellFormed.rooted (wf : t.WellFormed) : t.Rooted where
  root := by
    cases h : t.superclass .object with
    | none => rfl
    | some d =>
      have := superclass_mem_links h
      rw [wf.root] at this
      simp at this
  acyclic := wf.acyclic
  parent c d h _ := wf.parent c d h

lemma recorded_of_mem_links (h : d ∈ t.links c) : c ∈ t.classes.map ClassInfo.name := by
  unfold links at h
  cases hf : t.find? c with
  | none => simp [hf] at h
  | some i =>
    have hname := List.find?_some hf
    exact List.mem_map.2 ⟨i, List.mem_of_find?_eq_some hf, by simpa using hname⟩

lemma recorded_of_extends (h : t.Extends c d) : c ∈ t.classes.map ClassInfo.name :=
  recorded_of_mem_links (superclass_mem_links h)

lemma length_names_le : (t.classes.map ClassInfo.name).length ≤ t.classes.length :=
  Nat.le_of_eq (List.length_map _)

/-! ### The way up -/

/-- The class a number of links up, if the way is that long. -/
def up (t : ClassTable) : ℕ → BinaryName → Option BinaryName
  | 0, c => some c
  | n + 1, c => (t.superclass c).bind (t.up n)

/-- The classes passed on the way up are recorded and all different. -/
lemma exists_trail (ha : ∀ c, ¬ TransGen t.Extends c c) (n : ℕ) (h : t.up n c = some d) :
    ∃ l : List BinaryName, l.length = n ∧ l.Nodup ∧ l ⊆ t.classes.map ClassInfo.name ∧
      ∀ x ∈ l, t.Ancestor c x := by
  induction n generalizing c with
  | zero => exact ⟨[], rfl, List.nodup_nil, by simp, by simp⟩
  | succ n ih =>
    obtain ⟨s, hs, hup⟩ := Option.bind_eq_some_iff.1 h
    obtain ⟨l, hlen, hnd, hsub, hanc⟩ := ih hup
    refine ⟨c :: l, by simp [hlen], List.nodup_cons.2 ⟨fun hc => ?_, hnd⟩, ?_, ?_⟩
    · exact ha c (TransGen.head' hs (hanc c hc))
    · exact List.cons_subset.2 ⟨recorded_of_extends hs, hsub⟩
    · intro x hx
      rcases List.mem_cons.1 hx with rfl | hx
      · exact ReflTransGen.refl
      · exact ReflTransGen.head hs (hanc x hx)

/-- No way up is longer than the table. -/
lemma up_eq_none (ha : ∀ c, ¬ TransGen t.Extends c c) (c : BinaryName) :
    t.up (t.classes.length + 1) c = none := by
  cases h : t.up (t.classes.length + 1) c with
  | none => rfl
  | some d =>
    obtain ⟨l, hlen, hnd, hsub, -⟩ := exists_trail ha _ h
    have := hnd.length_le_of_subset hsub
    rw [List.length_map] at this
    omega

/-- A class on a cycle has ways up of every length. -/
lemma up_ne_none_of_cycle (h : TransGen t.Extends c c) (n : ℕ) : t.up n c ≠ none := by
  induction n generalizing c with
  | zero => simp [up]
  | succ n ih =>
    obtain ⟨s, hs, hsc⟩ := TransGen.head'_iff.1 h
    have hup : t.up (n + 1) c = t.up n s := by rw [up, hs, Option.bind_some]
    rw [hup]
    exact ih (TransGen.tail' hsc hs)

/-- The check for a tree: the way up from each recorded class ends. -/
def isRooted (t : ClassTable) : Bool :=
  t.superclass .object = none && t.classes.all fun i =>
    (t.up (t.classes.length + 1) i.name).isNone &&
      (t.superclass i.name).all fun d => d = .object || !t.isInterface d

lemma isRooted_iff : t.isRooted = true ↔ t.Rooted := by
  have hcheck : t.isRooted = true ↔ t.superclass .object = none ∧ ∀ i ∈ t.classes,
      t.up (t.classes.length + 1) i.name = none ∧
        ∀ d, t.Extends i.name d → d = .object ∨ t.isInterface d = false := by
    simp [isRooted, Extends, Option.all_eq_true]
  rw [hcheck]
  constructor
  · rintro ⟨hroot, hall⟩
    have hrec : ∀ {c d}, t.Extends c d → ∃ i ∈ t.classes, i.name = c :=
      fun h => List.mem_map.1 (recorded_of_extends h)
    refine ⟨hroot, fun c h => ?_, fun c d h hd => ?_⟩
    · obtain ⟨s, hs, -⟩ := TransGen.head'_iff.1 h
      obtain ⟨i, hi, rfl⟩ := hrec hs
      exact up_ne_none_of_cycle h _ (hall i hi).1
    · obtain ⟨i, hi, rfl⟩ := hrec h
      exact ((hall i hi).2 d h).resolve_left hd
  · intro hr
    refine ⟨hr.root, fun i _ => ⟨up_eq_none hr.acyclic i.name, fun d h => ?_⟩⟩
    by_cases hd : d = .object
    · exact Or.inl hd
    · exact Or.inr (hr.parent i.name d h hd)

instance : Decidable t.Rooted := decidable_of_iff (t.isRooted = true) isRooted_iff

/-- Beyond a tree, a well-formed table asks something of the links out of recorded classes only. -/
lemma wellFormed_iff : t.WellFormed ↔ t.links .object = [] ∧ t.Rooted ∧ ∀ i ∈ t.classes,
    ∀ d ∈ t.superclass i.name,
      t.isInterface d = false ∧ (t.isInterface i.name = true → d = .object) := by
  constructor
  · intro wf
    exact ⟨wf.root, wf.rooted, fun i _ d h =>
      ⟨wf.parent i.name d h, fun hi => wf.interface i.name d hi h⟩⟩
  · rintro ⟨hroot, hr, hall⟩
    have hlinks : ∀ c d, t.Extends c d →
        t.isInterface d = false ∧ (t.isInterface c = true → d = .object) := by
      intro c d h
      obtain ⟨i, hi, rfl⟩ := List.mem_map.1 (recorded_of_extends h)
      exact hall i hi d h
    exact ⟨hroot, hr.acyclic, fun c d h => (hlinks c d h).1, fun c d hc h => (hlinks c d h).2 hc⟩

instance : Decidable t.WellFormed := decidable_of_iff' _ wellFormed_iff

/-! ### Subtypes of classes -/

lemma links_superLinks_iff : Reach.Links t.superLinks c d ↔ t.Extends c d := by
  unfold Reach.Links superLinks Extends
  cases t.superclass c <;> simp [eq_comm]

lemma recorded_of_mem_superLinks (h : d ∈ t.superLinks c) : c ∈ t.classes.map ClassInfo.name :=
  recorded_of_extends (links_superLinks_iff.1 h)

/-- **A subtype is found by the search** for its supertype. -/
lemma isSubtype_iff_links : t.isSubtype c d = true ↔
    d = .object ∨ ReflTransGen (Reach.Links (t.upLinks d)) c d := by
  unfold isSubtype
  simp only [Bool.or_eq_true, decide_eq_true_eq, Reach.explore_iff]
  constructor
  · rintro ((rfl | h) | h)
    · exact Or.inr ReflTransGen.refl
    · exact Or.inl h
    · exact Or.inr h
  · rintro (h | h)
    · exact Or.inl (Or.inr h)
    · exact Or.inr h

/-- The subtypes of a class that is no interface: the classes below it. -/
lemma isSubtype_iff (hd : t.isInterface d = false) :
    t.isSubtype c d = true ↔ d = .object ∨ t.Ancestor c d := by
  have hrel : Reach.Links (t.upLinks d) = t.Extends := by
    funext a b
    rw [← propext links_superLinks_iff, Reach.Links, Reach.Links, upLinks, hd]
    rfl
  rw [isSubtype_iff_links, hrel, Ancestor]

/-- The subtypes of an interface: those from which links of either kind lead to it. -/
lemma isSubtype_interface_iff (hd : t.isInterface d = true) :
    t.isSubtype c d = true ↔ d = .object ∨ ReflTransGen (Reach.Links t.links) c d := by
  have hrel : t.upLinks d = t.links := by
    funext a
    rw [upLinks, if_pos hd]
  rw [isSubtype_iff_links, hrel]

/-! ### The order of the tree -/

/-- The first class stands under the second in the tree of classes. Interfaces stand under the root
class only. -/
def Under (t : ClassTable) (c d : BinaryName) : Prop :=
  d = .object ∨ c = d ∨ t.isInterface c = false ∧ t.Ancestor c d

lemma Under.refl (c : BinaryName) : t.Under c c := Or.inr (Or.inl rfl)

lemma under_object (c : BinaryName) : t.Under c .object := Or.inl rfl

lemma Rooted.eq_object_of_ancestor (hr : t.Rooted) (h : t.Ancestor .object d) : d = .object := by
  rcases ReflTransGen.cases_head h with h | ⟨s, hs, -⟩
  · exact h.symm
  · have := hr.root
    rw [hs] at this
    simp at this

lemma Rooted.eq_object_of_under (hr : t.Rooted) (h : t.Under .object d) : d = .object := by
  rcases h with h | h | ⟨-, h⟩
  · exact h
  · exact h.symm
  · exact hr.eq_object_of_ancestor h

lemma Rooted.isInterface_of_ancestor (hr : t.Rooted) (hc : t.isInterface c = false)
    (h : t.Ancestor c d) (hd : d ≠ .object) : t.isInterface d = false := by
  rcases ReflTransGen.cases_tail h with h | ⟨s, -, hs⟩
  · rw [h]; exact hc
  · exact hr.parent s d hs hd

lemma Rooted.under_trans (hr : t.Rooted) (h1 : t.Under c d) (h2 : t.Under d e) : t.Under c e := by
  rcases h1 with rfl | rfl | ⟨hc, h1⟩
  · rw [hr.eq_object_of_under h2]
    exact under_object c
  · exact h2
  · rcases h2 with h2 | rfl | ⟨-, h2⟩
    · exact Or.inl h2
    · exact Or.inr (Or.inr ⟨hc, h1⟩)
    · exact Or.inr (Or.inr ⟨hc, h1.trans h2⟩)

lemma Rooted.eq_of_ancestor (hr : t.Rooted) (h1 : t.Ancestor c d) (h2 : t.Ancestor d c) :
    c = d := by
  rcases ReflTransGen.cases_head h1 with h | ⟨s, hs, hsd⟩
  · exact h
  · exact absurd (TransGen.head' hs (hsd.trans h2)) (hr.acyclic c)

lemma Rooted.under_antisymm (hr : t.Rooted) (h1 : t.Under c d) (h2 : t.Under d c) : c = d := by
  rcases h1 with rfl | h | ⟨-, h1⟩
  · exact hr.eq_object_of_under h2
  · exact h
  · rcases h2 with rfl | h | ⟨-, h2⟩
    · exact (hr.eq_object_of_ancestor h1).symm
    · exact h.symm
    · exact hr.eq_of_ancestor h1 h2

/-- Below a class that is no interface, the order of the tree and subtyping agree. -/
lemma under_iff_isSubtype (hc : t.isInterface c = false) (hd : t.isInterface d = false) :
    t.Under c d ↔ t.isSubtype c d = true := by
  rw [isSubtype_iff hd]
  constructor
  · rintro (h | rfl | ⟨-, h⟩)
    · exact Or.inl h
    · exact Or.inr ReflTransGen.refl
    · exact Or.inr h
  · rintro (h | h)
    · exact Or.inl h
    · exact Or.inr (Or.inr ⟨hc, h⟩)

lemma isSubtype_object (c : BinaryName) : t.isSubtype c .object = true := by simp [isSubtype]

lemma Rooted.isSubtype_iff_under (hr : t.Rooted) (hc : t.isInterface c = false)
    (hd : t.isInterface d = false) {u : BinaryName} (hu : t.Ancestor c u) :
    t.isSubtype d u = true ↔ t.Under d u := by
  by_cases hobj : u = .object
  · rw [hobj]
    exact ⟨fun _ => under_object d, fun _ => isSubtype_object d⟩
  · exact (under_iff_isSubtype hd (hr.isInterface_of_ancestor hc hu hobj)).symm

/-! ### The nearest common ancestor -/

/-- The walk up from a class ends at the first class of which `sub` is a subtype, or past the last
class when there is none. -/
lemma climb_spec (hr : t.Rooted) (sub : BinaryName) (n : ℕ) {passed : List BinaryName}
    (hn : t.up n c = none) (hp : ∀ x ∈ passed, TransGen t.Extends x c) :
    (∃ e, t.hierarchy.climb sub n passed (some c) = .found e ∧ t.Ancestor c e ∧
        t.isSubtype sub e = true ∧
        ∀ u, t.Ancestor c u → t.isSubtype sub u = true → t.Ancestor e u) ∨
      (t.hierarchy.climb sub n passed (some c) = .top ∧
        ∀ u, t.Ancestor c u → t.isSubtype sub u = false) := by
  induction n generalizing c passed with
  | zero => simp [up] at hn
  | succ n ih =>
    have hc : c ∉ passed := fun h => hr.acyclic c (hp c h)
    by_cases hsub : t.isSubtype sub c = true
    · refine Or.inl ⟨c, ?_, ReflTransGen.refl, hsub, fun u hu _ => hu⟩
      simp [Hierarchy.climb, hc, hierarchy, hsub]
    · have hstep : t.hierarchy.climb sub (n + 1) passed (some c) =
          t.hierarchy.climb sub n (c :: passed) (t.superclass c) := by
        simp [Hierarchy.climb, hc, hierarchy, hsub]
      rw [hstep]
      cases hs : t.superclass c with
      | none =>
        refine Or.inr ⟨by cases n <;> rfl, fun u hu => ?_⟩
        rcases ReflTransGen.cases_head hu with rfl | ⟨s, hs', -⟩
        · exact Bool.eq_false_iff.2 hsub
        · rw [Extends, hs] at hs'
          simp at hs'
      | some s =>
        have hup : t.up n s = none := by simpa [up, hs] using hn
        have hpass : ∀ x ∈ c :: passed, TransGen t.Extends x s := by
          intro x hx
          rcases List.mem_cons.1 hx with rfl | hx
          · exact TransGen.single hs
          · exact (hp x hx).tail hs
        -- an ancestor of `c` is `c` itself, which does not fit, or an ancestor of `s`
        have hanc : ∀ u, t.Ancestor c u → u = c ∨ t.Ancestor s u := by
          intro u hu
          rcases ReflTransGen.cases_head hu with h | ⟨s', hs', hu⟩
          · exact Or.inl h.symm
          · rw [Extends, hs, Option.some.injEq] at hs'
            exact Or.inr (hs' ▸ hu)
        rcases ih hup hpass with ⟨e, he, hse, hsube, hleast⟩ | ⟨htop, hnone⟩
        · refine Or.inl ⟨e, he, ReflTransGen.head hs hse, hsube, fun u hu hsu => ?_⟩
          rcases hanc u hu with rfl | hu
          · exact absurd hsu hsub
          · exact hleast u hu hsu
        · refine Or.inr ⟨htop, fun u hu => ?_⟩
          rcases hanc u hu with rfl | hu
          · exact Bool.eq_false_iff.2 hsub
          · exact hnone u hu

/-- What the walk from the superclass of `c` means when `d` is not under `c`: it ends at the least
class above both, or there is none but the root. -/
lemma climbFrom_spec (hr : t.Rooted) (hc : t.isInterface c = false) (hd : t.isInterface d = false)
    (hndc : ¬ t.Under d c) :
    (∃ e, t.hierarchy.climbFrom c d = .found e ∧ t.Under c e ∧ t.Under d e ∧
        ∀ u, t.Under c u → t.Under d u → t.Under e u) ∨
      (t.hierarchy.climbFrom c d = .top ∧ ∀ u, t.Under c u → t.Under d u → u = .object) := by
  have hspan : t.hierarchy.span = t.classes.length := rfl
  -- a class above both is the root, or lies above the superclass of `c`
  have habove : ∀ u, t.Under c u → t.Under d u → u = .object ∨
      ∃ s, t.superclass c = some s ∧ t.Ancestor s u ∧ t.Ancestor c u := by
    rintro u (h | rfl | ⟨-, h⟩) hdu
    · exact Or.inl h
    · exact absurd hdu hndc
    · rcases ReflTransGen.cases_head h with rfl | ⟨s, hs, hsu⟩
      · exact absurd hdu hndc
      · exact Or.inr ⟨s, hs, hsu, h⟩
  unfold Hierarchy.climbFrom
  have hsup : t.hierarchy.superclass c = t.superclass c := rfl
  rw [hsup, hspan]
  cases hs : t.superclass c with
  | none =>
    refine Or.inr ⟨by rfl, fun u hcu hdu => ?_⟩
    rcases habove u hcu hdu with h | ⟨s, hs', -, -⟩
    · exact h
    · rw [hs] at hs'
      simp at hs'
  | some s =>
    have hcs : t.Ancestor c s := ReflTransGen.single hs
    have hpass : ∀ x ∈ [c], TransGen t.Extends x s := by
      intro x hx
      rw [List.mem_singleton.1 hx]
      exact TransGen.single hs
    rcases climb_spec hr d (t.classes.length + 1) (up_eq_none hr.acyclic s) hpass with
      ⟨e, he, hse, hsub, hleast⟩ | ⟨htop, hnone⟩
    · have hce : t.Ancestor c e := hcs.trans hse
      refine Or.inl ⟨e, he, Or.inr (Or.inr ⟨hc, hce⟩),
        (hr.isSubtype_iff_under hc hd hce).1 hsub, fun u hcu hdu => ?_⟩
      rcases habove u hcu hdu with rfl | ⟨s', hs', hsu, hcu'⟩
      · exact under_object e
      · rw [hs, Option.some.injEq] at hs'
        subst hs'
        have heu := hleast u hsu ((hr.isSubtype_iff_under hc hd hcu').2 hdu)
        by_cases hobj : e = .object
        · rw [hobj] at heu ⊢
          rw [hr.eq_object_of_ancestor heu]
          exact Under.refl _
        · exact Or.inr (Or.inr ⟨hr.isInterface_of_ancestor hc hce hobj, heu⟩)
    · refine Or.inr ⟨htop, fun u hcu hdu => ?_⟩
      rcases habove u hcu hdu with h | ⟨s', hs', hsu, hcu'⟩
      · exact h
      · rw [hs, Option.some.injEq] at hs'
        subst hs'
        have := (hr.isSubtype_iff_under hc hd hcu').2 hdu
        rw [hnone u hsu] at this
        simp at this

/-- Above an interface there are itself and the root class. -/
lemma Rooted.eq_object_of_interface (hr : t.Rooted) (hc : t.isInterface c = true) (hcd : c ≠ d)
    {u : BinaryName} (h1 : t.Under c u) (h2 : t.Under d u) : u = .object := by
  rcases h1 with h | rfl | ⟨h, -⟩
  · exact h
  · rcases h2 with h | h | ⟨hd, h⟩
    · exact h
    · exact absurd h.symm hcd
    · by_contra hobj
      have := hr.isInterface_of_ancestor hd h hobj
      rw [hc] at this
      simp at this
  · rw [hc] at h
    simp at h

/-- **The join of two classes** is the least class above both. -/
theorem joinClass_isLeast (hr : t.Rooted) (c d : BinaryName) :
    t.Under c (t.hierarchy.joinClass c d) ∧ t.Under d (t.hierarchy.joinClass c d) ∧
      ∀ u, t.Under c u → t.Under d u → t.Under (t.hierarchy.joinClass c d) u := by
  have hi : t.hierarchy.isInterface = t.isInterface := rfl
  have hsub : t.hierarchy.isSubtype = t.isSubtype := rfl
  unfold Hierarchy.joinClass
  rw [hi, hsub]
  by_cases hcd : c = d
  · rw [if_pos hcd, hcd]
    exact ⟨Under.refl d, Under.refl d, fun u h _ => h⟩
  rw [if_neg hcd]
  by_cases hint : (t.isInterface c || t.isInterface d) = true
  · rw [if_pos hint]
    refine ⟨under_object c, under_object d, fun u h1 h2 => Or.inl ?_⟩
    rcases Bool.or_eq_true_iff.1 hint with h | h
    · exact hr.eq_object_of_interface h hcd h1 h2
    · exact hr.eq_object_of_interface h (Ne.symm hcd) h2 h1
  rw [if_neg hint]
  rw [Bool.or_eq_true_iff, not_or, Bool.not_eq_true, Bool.not_eq_true] at hint
  obtain ⟨hc, hd⟩ := hint
  by_cases h1 : t.isSubtype c d = true
  · rw [if_pos h1]
    exact ⟨(under_iff_isSubtype hc hd).2 h1, Under.refl d, fun u _ h => h⟩
  rw [if_neg h1]
  by_cases h2 : t.isSubtype d c = true
  · rw [if_pos h2]
    exact ⟨Under.refl c, (under_iff_isSubtype hd hc).2 h2, fun u h _ => h⟩
  rw [if_neg h2]
  have hndc : ¬ t.Under d c := fun h => h2 ((under_iff_isSubtype hd hc).1 h)
  rcases climbFrom_spec hr hc hd hndc with ⟨e, he, hce, hde, hleast⟩ | ⟨htop, hroot⟩
  · rw [he]
    exact ⟨hce, hde, hleast⟩
  · rw [htop]
    exact ⟨under_object c, under_object d, fun u h1 h2 => Or.inl (hroot u h1 h2)⟩

end ClassTable

end Bytecheck
