import Mathlib.Logic.Relation
import Mathlib.Tactic.Common
import Bytecheck.Proofs.Simulation
import Bytecheck.Proofs.TypeOrder

/-!
Instructions are monotone.

Frames are ordered slot by slot by the order of verification types. An instruction that succeeds on
two ordered frames leaves ordered frames. What the upper frame may do, the lower one may do as well,
except for a few checks that get stricter as types get more special (`Premature`).

The diagonal of a set of values is a simulation too: it gives the invariants of single frames.
-/

namespace Bytecheck

open Relation Transfer

/-! ### Single frames -/

/-- Equal values out of a set. -/
def Diag (V : VType → Prop) (x y : VType) : Prop := x = y ∧ V x

/-- Sets of values that hold what instructions can make out of nothing. -/
structure Universe (V : VType → Prop) : Prop where
  values : ∀ {x}, V x → x.IsValue
  fixed : ∀ {x}, VType.isInitialized x = true → V x

lemma universe_isValue : Universe VType.IsValue where
  values := id
  fixed := by
    intro x hx
    constructor <;> rintro rfl <;> simp [VType.isInitialized] at hx

variable {V : VType → Prop}

lemma Universe.alike (U : Universe V) : Alike (Diag V) where
  values := fun ⟨h, hx⟩ => ⟨U.values hx, h ▸ U.values hx⟩
  fixed := fun hx => ⟨rfl, U.fixed hx⟩
  num := And.left
  null := And.left
  object := fun h => Or.inr ⟨_, h.1⟩
  this := And.left
  new := fun h => ⟨_, h.1⟩

/-- The values of a frame stay within a set that holds the values that instructions make. -/
lemma Universe.simulation (U : Universe V) (c : Context) :
    Simulation c (Diag V) fun _ _ => True where
  toAlike := U.alike
  copies := by
    rintro a _ x _ ⟨rfl, -⟩ ⟨rfl, -⟩ -
    rfl
  base := by
    rintro r _ b ⟨h, -⟩ hs
    cases h
    exact hs
  element := by
    rintro r _ e ⟨h, -⟩ hs
    cases h
    exact ⟨e, hs, rfl, U.fixed rfl⟩
  nullElement := fun h => by cases h.1
  assign := fun _ _ => Or.inr fun _ => trivial
  store := fun _ _ _ => Or.inr trivial
  thrown := fun _ _ => Or.inr trivial
  stale := fun _ _ => trivial
  leave := fun _ => trivial

/-! ### Assignability -/

section Assignable

variable {t : ClassTable}

/-- What a class may be used as, the classes under it may be used as. -/
lemma ClassTable.Rooted.classAssignable_of_under (hr : t.Rooted) {c d e : BinaryName}
    (h : t.Under c d) (ha : t.hierarchy.classAssignable d e = true) :
    t.hierarchy.classAssignable c e = true := by
  unfold Hierarchy.classAssignable at ha ⊢
  simp only [Bool.or_eq_true, decide_eq_true_eq] at ha ⊢
  cases hi : t.hierarchy.isInterface e with
  | true => exact Or.inl (Or.inr rfl)
  | false =>
    have hde : e = .object ∨ t.Ancestor d e := by
      rcases ha with (rfl | hi') | hs
      · exact Or.inr .refl
      · rw [hi] at hi'
        cases hi'
      · exact (ClassTable.isSubtype_iff hi).1 hs
    refine Or.inr ((ClassTable.isSubtype_iff hi).2 ?_)
    rcases hde with rfl | hde
    · exact Or.inl rfl
    · rcases h with rfl | rfl | ⟨-, hcd⟩
      · exact Or.inl (hr.eq_object_of_ancestor hde)
      · exact Or.inr hde
      · exact Or.inr (hcd.trans hde)

/-- What the root class may be used as is the root class or an interface. -/
lemma ClassTable.Rooted.classAssignable_object (hr : t.Rooted) {e : BinaryName}
    (ha : t.hierarchy.classAssignable .object e = true) : e = .object ∨ t.isInterface e = true := by
  cases hi : t.isInterface e with
  | true => exact Or.inr rfl
  | false =>
    have hi' : t.hierarchy.isInterface e = false := hi
    unfold Hierarchy.classAssignable at ha
    simp only [hi', Bool.or_false, Bool.or_eq_true, decide_eq_true_eq] at ha
    rcases ha with h | h
    · exact Or.inl h.symm
    · rcases (ClassTable.isSubtype_iff hi).1 h with h | h
      · exact Or.inl h
      · exact Or.inl (hr.eq_object_of_ancestor h)

/-- What a reference may be used as, those under it may be used as, except that arrays are not
taken for interfaces. -/
lemma ClassTable.Rooted.refAssignable_of_under (hr : t.Rooted) {r s u : RefType}
    (h : RefType.Under t r s) (ha : t.hierarchy.refAssignable s u = true) :
    t.hierarchy.refAssignable r u = true ∨
      r.isArray = true ∧ ∃ e, u = .object e ∧ t.isInterface e = true := by
  cases h with
  | refl => exact Or.inl ha
  | root =>
    cases u with
    | object e =>
      rcases r with c | ⟨m, c⟩ | ⟨m, b⟩
      · exact Or.inl (hr.classAssignable_of_under (ClassTable.under_object c) ha)
      all_goals
        rcases hr.classAssignable_object ha with rfl | hi
        · exact Or.inl rfl
        · exact Or.inr ⟨rfl, e, rfl, hi⟩
    | _ => cases ha
  | object h =>
    cases u with
    | object e => exact Or.inl (hr.classAssignable_of_under h ha)
    | _ => cases ha
  | array m h =>
    cases u with
    | object e => exact Or.inl ha
    | objectArray k e =>
      simp only [Hierarchy.refAssignable] at ha ⊢
      by_cases hmk : m = k
      · rw [if_pos hmk] at ha ⊢
        exact Or.inl (hr.classAssignable_of_under h ha)
      · rw [if_neg hmk] at ha ⊢
        exact Or.inl ha
    | primitiveArray k b => cases ha

/-- The classes below a subtype of a class are subtypes of it. -/
lemma ClassTable.isSubtype_of_ancestor {c d e : BinaryName} (h : t.Ancestor c d)
    (hs : t.isSubtype d e = true) : t.isSubtype c e = true := by
  cases hi : t.isInterface e with
  | false =>
    rw [isSubtype_iff hi] at hs ⊢
    exact hs.imp_right h.trans
  | true =>
    have hup : ReflTransGen (Reach.Links t.links) c d :=
      ReflTransGen.mono (fun _ _ => superclass_mem_links) c d h
    rw [isSubtype_interface_iff hi] at hs ⊢
    exact hs.imp_right hup.trans

/-- The root class is no throwable. -/
lemma ClassTable.WellFormed.isSubtype_object_throwable (wf : t.WellFormed) :
    t.isSubtype .object .throwable = false := by
  have hne : BinaryName.throwable ≠ .object := by decide +kernel
  cases hs : t.isSubtype .object .throwable with
  | false => rfl
  | true =>
    cases hi : t.isInterface .throwable with
    | false =>
      rcases (isSubtype_iff hi).1 hs with h | h
      · exact absurd h hne
      · exact absurd (wf.rooted.eq_object_of_ancestor h) hne
    | true =>
      rcases (isSubtype_interface_iff hi).1 hs with h | h
      · exact absurd h hne
      · rcases ReflTransGen.cases_head h with h | ⟨s, hs, -⟩
        · exact absurd h.symm hne
        · have : s ∈ t.links .object := hs
          rw [wf.root] at this
          simp at this

end Assignable

/-! ### Ordered frames -/

section Order

variable {t : ClassTable} {x y z : VType}

/-- Values in order. -/
def Lower (t : ClassTable) (x y : VType) : Prop := VType.Under t x y ∧ x.IsValue ∧ y.IsValue

lemma lower_alike (t : ClassTable) : Alike (Lower t) where
  values := And.right
  fixed := fun hx => ⟨.refl _, universe_isValue.fixed hx, universe_isValue.fixed hx⟩
  num := by
    rintro x n ⟨h, -⟩
    cases n <;> cases h <;> rfl
  null := by
    rintro x ⟨h, -⟩
    cases h
    rfl
  object := by
    rintro x r ⟨h, -⟩
    cases h with
    | refl => exact Or.inr ⟨r, rfl⟩
    | null => exact Or.inl rfl
    | object => exact Or.inr ⟨_, rfl⟩
  this := by
    rintro x ⟨h, -⟩
    cases h
    rfl
  new := by
    rintro x r o ⟨h, -⟩
    cases h
    exact ⟨o, rfl⟩

/-- The faults of a more special frame where a more general one goes through: a store into a more
special array, an array where an interface is expected, and an uninitialized value or receiver that
the general frame has lost. -/
inductive Premature (t : ClassTable) : Instruction ℕ → TypeFault → Prop
  | store (x : VType) (d : RefType) :
      Premature t (.op (.arrayStore .ref)) (.incompatible x (.object d))
  | interface (i : Instruction ℕ) {r : RefType} {d : BinaryName} :
      r.isArray = true → t.isInterface d = true →
      Premature t i (.incompatible (.object r) (.ofClass d))
  | stale (r : RefType) (i : ℕ) : Premature t (.op (.new r)) (.staleUninitialized i)
  | leave (k : Option Kind) : Premature t (.branch (.leave k)) .returnBeforeInit

lemma lower_copies {a b : VType} (hab : Lower t a b) (hxy : Lower t x y)
    (hy : VType.isInitialized y = false) : a = x ↔ b = y := by
  -- an uninitialized value is related to itself alone
  have huninit : ∀ {u v : VType}, Lower t u v →
      VType.isInitialized u = false ∨ VType.isInitialized v = false → u = v := by
    rintro u v ⟨h, hu, hv⟩ hi
    cases h with
    | refl => rfl
    | bottom => exact absurd rfl hv.2
    | null => simp [VType.isInitialized] at hi
    | object => simp [VType.isInitialized] at hi
  have hxy' := huninit hxy (Or.inr hy)
  subst hxy'
  constructor
  · rintro rfl
    exact (huninit hab (Or.inl hy)).symm
  · rintro rfl
    exact huninit hab (Or.inr hy)

lemma lower_uninit_iff {r : RefType} {o : ℕ} (h : Lower t x y) :
    x = .uninit r o ↔ y = .uninit r o :=
  lower_copies h ⟨.refl _, ⟨by simp, by simp⟩, by simp, by simp⟩ rfl

lemma lower_object_iff {r s : RefType} :
    Lower t (.object r) (.object s) ↔ RefType.Under t r s := by
  constructor
  · rintro ⟨h, -⟩
    cases h with
    | refl => exact .refl r
    | object h => exact h
  · exact fun h => ⟨.object h, universe_isValue.fixed rfl, universe_isValue.fixed rfl⟩

lemma lower_null (r : RefType) : Lower t .null (.object r) :=
  ⟨.null r, universe_isValue.fixed rfl, universe_isValue.fixed rfl⟩

lemma lower_base {r s : RefType} {b : BaseType} (h : Lower t (.object r) (.object s))
    (hs : s.element? = some (.base b)) : r.element? = some (.base b) := by
  cases lower_object_iff.1 h with
  | refl => exact hs
  | root => cases hs
  | object => cases hs
  | array m => cases m <;> cases hs

lemma lower_element {r s e : RefType} (h : Lower t (.object r) (.object s))
    (hs : s.element? = some (.ref e)) :
    ∃ d, r.element? = some (.ref d) ∧ Lower t (.object d) (.object e) := by
  cases lower_object_iff.1 h with
  | refl => exact ⟨e, hs, lower_object_iff.2 (.refl e)⟩
  | root => cases hs
  | object => cases hs
  | array m h' =>
    cases m with
    | zero =>
      cases hs
      exact ⟨_, rfl, lower_object_iff.2 (.object h')⟩
    | succ m =>
      cases hs
      exact ⟨_, rfl, lower_object_iff.2 (.array m h')⟩

lemma ClassTable.Rooted.assignable_of_lower (hr : t.Rooted) {u : VType} (h : Lower t x y)
    (ha : y.isAssignable t.hierarchy u = true) :
    x.isAssignable t.hierarchy u = true ∨ ∀ i, Premature t i (.incompatible x u) := by
  obtain ⟨h, hx, hy⟩ := h
  cases h with
  | refl => exact Or.inl ha
  | bottom => exact absurd rfl hy.2
  | null r =>
    cases u with
    | top => exact Or.inl rfl
    | object s => exact Or.inl rfl
    | _ => simp [VType.isAssignable] at ha
  | object h =>
    cases u with
    | top => exact Or.inl rfl
    | object s =>
      rcases hr.refAssignable_of_under h ha with ha | ⟨harr, e, rfl, hi⟩
      · exact Or.inl ha
      · exact Or.inr fun i => .interface i harr hi
    | _ => simp [VType.isAssignable] at ha

lemma ClassTable.WellFormed.throwable_of_lower (wf : t.WellFormed) {r : RefType} {e : BinaryName}
    (h : Lower t (.object r) (.object (.object e))) (he : t.isSubtype e .throwable = true) :
    ∃ d, r = .object d ∧ t.isSubtype d .throwable = true := by
  have hroot : e ≠ .object := by
    rintro rfl
    rw [wf.isSubtype_object_throwable] at he
    cases he
  cases lower_object_iff.1 h with
  | root => exact absurd rfl hroot
  | refl => exact ⟨e, rfl, he⟩
  | object h =>
    rcases h with h | rfl | ⟨-, h⟩
    · exact absurd h hroot
    · exact ⟨_, rfl, he⟩
    · exact ⟨_, rfl, ClassTable.isSubtype_of_ancestor h he⟩

/-- Instructions keep the order of frames. -/
lemma lower_simulation (t : ClassTable) (m : Method) (maxStack : ℕ) :
    Simulation ⟨t.hierarchy, m, maxStack⟩ (Lower t) fun _ _ => True where
  toAlike := lower_alike t
  copies := lower_copies
  base := lower_base
  element := lower_element
  nullElement := fun _ _ => lower_null _
  assign := fun _ _ => Or.inr fun _ => trivial
  store := fun _ _ _ => Or.inr trivial
  thrown := fun _ _ => Or.inr trivial
  stale := fun _ _ => trivial
  leave := fun _ => trivial

lemma step_lower {m : Method} {maxStack n i : ℕ} {insn : Instruction ℕ} {f f' g g' : Frame}
    (h : Frame.Rel (Lower t) n f g) (hf : step ⟨t.hierarchy, m, maxStack⟩ i insn f = .ok f')
    (hg : step ⟨t.hierarchy, m, maxStack⟩ i insn g = .ok g') : Frame.Rel (Lower t) n f' g' :=
  ((lower_simulation t m maxStack).step insn
    (fun _ _ _ => ⟨.refl _, ⟨by simp, by simp⟩, by simp, by simp⟩) h).related hf hg

/-- Over well-formed tables, more special frames fail prematurely only. -/
lemma premature_simulation (wf : t.WellFormed) (m : Method) (maxStack : ℕ) :
    Simulation ⟨t.hierarchy, m, maxStack⟩ (Lower t) (Premature t) where
  toAlike := lower_alike t
  copies := lower_copies
  base := lower_base
  element := lower_element
  nullElement := fun _ _ => lower_null _
  assign := wf.rooted.assignable_of_lower
  store := fun _ _ _ => Or.inr (.store _ _)
  thrown := fun h he => Or.inl (wf.throwable_of_lower h he)
  stale := .stale
  leave := .leave

end Order

end Bytecheck
