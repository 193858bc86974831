import Mathlib.Logic.Relation
import Mathlib.Tactic.Common
import Bytecheck.Proofs.UpperBounds

/-!
Joins and the order of their operands, on tables of any shape.

The walk for a join goes up from the first class only, so what it finds may depend on which class
comes first. It does where two classes are subtypes of one another, and where the ways up from two
classes first meet a supertype of the other at different classes. When no superclass is an
interface, both happen only on tables where the superclass of some class is another class and at the
same time a subtype of it: a cycle through two classes, or a root class with a superclass. A class
that is its own superclass does no harm.
-/

namespace Bytecheck

namespace ClassTable

open Relation

variable {t : ClassTable} {c d e s u : BinaryName} {m n : ℕ}

/-! ### The way up, link by link -/

@[simp] lemma up_zero (t : ClassTable) (c : BinaryName) : t.up 0 c = some c := rfl

lemma up_succ_of_extends (h : t.Extends c s) (n : ℕ) : t.up (n + 1) c = t.up n s := by
  rw [up, h, Option.bind_some]

lemma up_add (t : ClassTable) (m n : ℕ) (c : BinaryName) :
    t.up (m + n) c = (t.up m c).bind (t.up n) := by
  induction m generalizing c with
  | zero => rw [Nat.zero_add, up_zero, Option.bind_some]
  | succ m ih =>
    rw [Nat.add_right_comm, up, up]
    cases t.superclass c with
    | none => rfl
    | some s => exact ih s

lemma ancestor_iff_exists_up : t.Ancestor c u ↔ ∃ n, t.up n c = some u := by
  constructor
  · intro h
    induction h using ReflTransGen.head_induction_on with
    | refl => exact ⟨0, rfl⟩
    | head hs _ ih =>
      obtain ⟨n, hn⟩ := ih
      exact ⟨n + 1, (up_succ_of_extends hs n).trans hn⟩
  · rintro ⟨n, hn⟩
    induction n generalizing c with
    | zero =>
      cases hn
      exact ReflTransGen.refl
    | succ n ih =>
      obtain ⟨s, hs, hup⟩ := Option.bind_eq_some_iff.1 hn
      exact ReflTransGen.head hs (ih hup)

/-- The way up goes on from the superclass. -/
lemma Ancestor.eq_or_of_extends (h : t.Ancestor c u) (hs : t.Extends c s) :
    u = c ∨ t.Ancestor s u := by
  rcases ReflTransGen.cases_head h with h | ⟨s', hs', hu⟩
  · exact Or.inl h.symm
  · exact Or.inr (Option.some.inj (hs'.symm.trans hs) ▸ hu)

/-! ### The first supertype on the way up -/

/-- The first class on the way up from `c` of which `d` is a subtype. -/
def FirstAbove (t : ClassTable) (c d e : BinaryName) : Prop :=
  ∃ n, t.up n c = some e ∧ t.isSubtype d e = true ∧
    ∀ m < n, ∀ u, t.up m c = some u → t.isSubtype d u = false

namespace FirstAbove

lemma isSubtype (h : t.FirstAbove c d e) : t.isSubtype d e = true := by
  obtain ⟨n, -, hsub, -⟩ := h
  exact hsub

lemma ancestor (h : t.FirstAbove c d e) : t.Ancestor c e := by
  obtain ⟨n, hup, -, -⟩ := h
  exact ancestor_iff_exists_up.2 ⟨n, hup⟩

/-- From a class that does not fit, the way goes on from its superclass. -/
lemma head (hs : t.Extends c s) (hc : t.isSubtype d c = false) (h : t.FirstAbove s d e) :
    t.FirstAbove c d e := by
  obtain ⟨n, hup, hsub, hfirst⟩ := h
  refine ⟨n + 1, (up_succ_of_extends hs n).trans hup, hsub, fun m hm u hu => ?_⟩
  cases m with
  | zero =>
    cases hu
    exact hc
  | succ m => exact hfirst m (by omega) u ((up_succ_of_extends hs m).symm.trans hu)

/-- Every class on the way up that fits lies above the first one. -/
lemma ancestor_of_isSubtype (h : t.FirstAbove c d e) (hu : t.Ancestor c u)
    (hsub : t.isSubtype d u = true) : t.Ancestor e u := by
  obtain ⟨n, hup, -, hfirst⟩ := h
  obtain ⟨m, hm⟩ := ancestor_iff_exists_up.1 hu
  have hle : n ≤ m := by
    refine Nat.le_of_not_lt fun hlt => ?_
    rw [hfirst m hlt u hm] at hsub
    cases hsub
  refine ancestor_iff_exists_up.2 ⟨m - n, ?_⟩
  rw [← Nat.add_sub_of_le hle, up_add, hup, Option.bind_some] at hm
  exact hm

lemma unique (h : t.FirstAbove c d e) (h' : t.FirstAbove c d u) : e = u := by
  obtain ⟨n, hup, hsub, hfirst⟩ := h
  obtain ⟨m, hup', hsub', hfirst'⟩ := h'
  rcases Nat.lt_trichotomy n m with hlt | rfl | hlt
  · rw [hfirst' n hlt e hup] at hsub
    cases hsub
  · exact Option.some.inj (hup.symm.trans hup')
  · rw [hfirst m hlt u hup'] at hsub'
    cases hsub'

/-- Unless it is where the way begins, the first class that fits is a superclass. -/
lemma exists_extends (h : t.FirstAbove c d e) (hc : t.isSubtype d c = false) :
    ∃ s, t.Extends s e := by
  rcases ReflTransGen.cases_tail h.ancestor with rfl | ⟨s, -, hs⟩
  · rw [h.isSubtype] at hc
    cases hc
  · exact ⟨s, hs⟩

end FirstAbove

/-- A walk that finds a class finds the first one that fits. -/
lemma firstAbove_of_climbs {passed : List BinaryName}
    (h : t.hierarchy.Climbs d passed (some s) (.found e)) : t.FirstAbove s d e := by
  generalize hstart : some s = start at h
  generalize hend : Hierarchy.Climb.found e = o at h
  induction h generalizing s with
  | top => cases hstart
  | cycle => cases hend
  | found _ hsub =>
    cases hstart
    cases hend
    exact ⟨0, rfl, hsub, fun m hm => absurd hm (Nat.not_lt_zero m)⟩
  | @next passed c o _ hsub hnext ih =>
    cases hstart
    cases hsup : t.hierarchy.superclass c with
    | none =>
      rw [hsup] at hnext
      cases hnext
      cases hend
    | some s => exact (ih hsup.symm hend).head hsup hsub

/-- A walk that finds nothing has passed every class on the way up, also when it ends where it has
been before: `passed` then holds every superclass of what it holds. -/
lemma isSubtype_of_climbs {passed : List BinaryName} {o : Hierarchy.Climb}
    (h : t.hierarchy.Climbs d passed (some s) o) (ho : ∀ e, o ≠ .found e)
    (hp : ∀ x ∈ passed, t.isSubtype d x = false ∧ ∀ y, t.Extends x y → y ∈ passed ∨ y = s)
    (hu : t.Ancestor s u) : t.isSubtype d u = false := by
  generalize hstart : some s = start at h
  induction h generalizing s with
  | top => cases hstart
  | found => exact absurd rfl (ho _)
  | @cycle passed c hc =>
    cases hstart
    have hall : u ∈ passed := by
      induction hu with
      | refl => exact hc
      | tail _ hlink ih => exact ((hp _ ih).2 _ hlink).elim id fun h => h ▸ hc
    exact (hp u hall).1
  | @next passed c o _ hsub hnext ih =>
    cases hstart
    cases hsup : t.hierarchy.superclass c with
    | none =>
      rcases ReflTransGen.cases_head hu with rfl | ⟨s, hs, -⟩
      · exact hsub
      · cases hsup.symm.trans hs
    | some s =>
      rcases hu.eq_or_of_extends hsup with rfl | hu
      · exact hsub
      · refine ih ho (fun x hx => ?_) hu hsup.symm
        rcases List.mem_cons.1 hx with rfl | hx
        · exact ⟨hsub, fun y hy => Or.inr (Option.some.inj (hy.symm.trans hsup))⟩
        · refine ⟨(hp x hx).1, fun y hy => Or.inl ?_⟩
          rcases (hp x hx).2 y hy with hy | rfl
          · exact List.mem_cons_of_mem _ hy
          · exact List.mem_cons_self

/-- What the walk from the superclass of `c` means when `d` is no subtype of `c`. -/
lemma climbFrom_cases (hdc : t.isSubtype d c = false) :
    (∃ e, t.hierarchy.climbFrom c d = .found e ∧ t.FirstAbove c d e) ∨
      ((∀ e, t.hierarchy.climbFrom c d ≠ .found e) ∧
        ∀ u, t.Ancestor c u → t.isSubtype d u = false) := by
  have hwalk := climbs_climbFrom t c d
  cases hs : t.superclass c with
  | none =>
    rw [hs] at hwalk
    refine Or.inr ⟨fun e he => ?_, fun u hu => ?_⟩
    · rw [he] at hwalk
      cases hwalk
    · rcases ReflTransGen.cases_head hu with rfl | ⟨s, hs', -⟩
      · exact hdc
      · cases hs.symm.trans hs'
  | some s =>
    rw [hs] at hwalk
    by_cases hfound : ∃ e, t.hierarchy.climbFrom c d = .found e
    · obtain ⟨e, he⟩ := hfound
      exact Or.inl ⟨e, he, (firstAbove_of_climbs (he ▸ hwalk)).head hs hdc⟩
    · have hnone := not_exists.1 hfound
      refine Or.inr ⟨hnone, fun u hu => ?_⟩
      rcases hu.eq_or_of_extends hs with rfl | hu
      · exact hdc
      · refine isSubtype_of_climbs hwalk hnone (fun x hx => ?_) hu
        rw [List.mem_singleton.1 hx]
        exact ⟨hdc, fun y hy => Or.inr (Option.some.inj (hy.symm.trans hs))⟩

lemma exists_firstAbove (hdc : t.isSubtype d c = false) (hu : t.Ancestor c u)
    (hsub : t.isSubtype d u = true) : ∃ e, t.FirstAbove c d e := by
  rcases climbFrom_cases hdc with ⟨e, -, he⟩ | ⟨-, hnone⟩
  · exact ⟨e, he⟩
  · rw [hnone u hu] at hsub
    cases hsub

/-! ### Where the order of two classes matters -/

/-- The order of two classes matters to their join: they are subtypes of one another, or neither is
one of the other and the ways up from them do not first meet a supertype of the other at the same
class. The root class does not count, since every walk may end there. -/
def Disputed (t : ClassTable) (c d : BinaryName) : Prop :=
  c ≠ d ∧ t.isInterface c = false ∧ t.isInterface d = false ∧
    (t.isSubtype c d = true ∧ t.isSubtype d c = true ∨
      t.isSubtype c d = false ∧ t.isSubtype d c = false ∧
        ∃ e, e ≠ .object ∧ ¬ (t.FirstAbove c d e ↔ t.FirstAbove d c e))

lemma joinClass_of_interface (hcd : c ≠ d)
    (h : t.isInterface c = true ∨ t.isInterface d = true) :
    t.hierarchy.joinClass c d = .object := by
  simp [Hierarchy.joinClass, hierarchy, hcd, h]

section Classes

variable (hcd : c ≠ d) (hc : t.isInterface c = false) (hd : t.isInterface d = false)

include hcd hc hd

lemma joinClass_of_isSubtype (h : t.isSubtype c d = true) : t.hierarchy.joinClass c d = d := by
  simp [Hierarchy.joinClass, hierarchy, hcd, hc, hd, h]

lemma joinClass_of_isSubtype_right (h : t.isSubtype c d = false) (h' : t.isSubtype d c = true) :
    t.hierarchy.joinClass c d = c := by
  simp [Hierarchy.joinClass, hierarchy, hcd, hc, hd, h, h']

/-- The join of two classes that are not subtypes of one another, the root class apart. -/
lemma joinClass_eq_iff_firstAbove (h : t.isSubtype c d = false) (h' : t.isSubtype d c = false)
    (he : e ≠ .object) : t.hierarchy.joinClass c d = e ↔ t.FirstAbove c d e := by
  have hi : t.hierarchy.isInterface = t.isInterface := rfl
  have hs : t.hierarchy.isSubtype = t.isSubtype := rfl
  rcases climbFrom_cases h' with ⟨e', he', hfirst⟩ | ⟨hnone, hall⟩
  · have hjoin : t.hierarchy.joinClass c d = e' := by
      simp [Hierarchy.joinClass, hi, hs, hcd, hc, hd, h, h', he']
    rw [hjoin]
    exact ⟨fun heq => heq ▸ hfirst, fun hfirst' => hfirst.unique hfirst'⟩
  · have hroot : t.hierarchy.joinClass c d = .object := by
      cases hwalk : t.hierarchy.climbFrom c d with
      | found e' => exact absurd hwalk (hnone e')
      | top | cycle => simp [Hierarchy.joinClass, hi, hs, hcd, hc, hd, h, h', hwalk]
    refine iff_of_false (fun heq => he (heq.symm.trans hroot)) fun hfirst => ?_
    have := hfirst.isSubtype
    rw [hall e hfirst.ancestor] at this
    cases this

/-- Two classes that are not subtypes of one another: the order does not matter when the ways up
meet at the same class, if not at the root class. -/
lemma joinClass_comm_iff_of_unrelated (h : t.isSubtype c d = false) (h' : t.isSubtype d c = false) :
    t.hierarchy.joinClass c d = t.hierarchy.joinClass d c ↔
      ∀ e, e ≠ .object → (t.FirstAbove c d e ↔ t.FirstAbove d c e) := by
  have hleft : ∀ {e}, e ≠ .object → (t.hierarchy.joinClass c d = e ↔ t.FirstAbove c d e) :=
    fun he => joinClass_eq_iff_firstAbove hcd hc hd h h' he
  have hright : ∀ {e}, e ≠ .object → (t.hierarchy.joinClass d c = e ↔ t.FirstAbove d c e) :=
    fun he => joinClass_eq_iff_firstAbove (Ne.symm hcd) hd hc h' h he
  constructor
  · intro heq e he
    rw [← hleft he, ← hright he, heq]
  · intro hagree
    by_cases hobj : t.hierarchy.joinClass c d = .object
    · by_cases hobj' : t.hierarchy.joinClass d c = .object
      · rw [hobj, hobj']
      · exact (hleft hobj').2 ((hagree _ hobj').2 ((hright hobj').1 rfl))
    · exact ((hright hobj).2 ((hagree _ hobj).1 ((hleft hobj).1 rfl))).symm

end Classes

/-- **The order of two classes matters to their join** if and only if it is disputed. -/
lemma joinClass_comm_iff (t : ClassTable) (c d : BinaryName) :
    t.hierarchy.joinClass c d = t.hierarchy.joinClass d c ↔ ¬ t.Disputed c d := by
  by_cases hcd : c = d
  · subst hcd
    exact iff_of_true rfl fun h => h.1 rfl
  have hdc : d ≠ c := Ne.symm hcd
  by_cases hint : t.isInterface c = true ∨ t.isInterface d = true
  · rw [joinClass_of_interface hcd hint, joinClass_of_interface hdc hint.symm]
    refine iff_of_true rfl fun ⟨_, hc, hd, _⟩ => ?_
    rcases hint with h | h
    · rw [hc] at h
      cases h
    · rw [hd] at h
      cases h
  rw [not_or, Bool.not_eq_true, Bool.not_eq_true] at hint
  obtain ⟨hc, hd⟩ := hint
  cases h : t.isSubtype c d with
  | true =>
    rw [joinClass_of_isSubtype hcd hc hd h]
    cases h' : t.isSubtype d c with
    | true =>
      rw [joinClass_of_isSubtype hdc hd hc h']
      exact iff_of_false hdc fun hno => hno ⟨hcd, hc, hd, Or.inl ⟨h, h'⟩⟩
    | false =>
      rw [joinClass_of_isSubtype_right hdc hd hc h' h]
      refine iff_of_true rfl fun ⟨_, _, _, hdisp⟩ => ?_
      simp [h, h'] at hdisp
  | false =>
    cases h' : t.isSubtype d c with
    | true =>
      rw [joinClass_of_isSubtype_right hcd hc hd h h', joinClass_of_isSubtype hdc hd hc h']
      refine iff_of_true rfl fun ⟨_, _, _, hdisp⟩ => ?_
      simp [h, h'] at hdisp
    | false =>
      rw [joinClass_comm_iff_of_unrelated hcd hc hd h h']
      constructor
      · rintro hagree ⟨_, _, _, ⟨hsub, -⟩ | ⟨-, -, e, he, hne⟩⟩
        · rw [h] at hsub
          cases hsub
        · exact hne (hagree e he)
      · intro hno e he
        by_contra hne
        exact hno ⟨hcd, hc, hd, Or.inr ⟨h, h', e, he, hne⟩⟩

/-! ### Tables on which the order does not matter -/

/-- No superclass is an interface. -/
def ClassParents (t : ClassTable) : Prop := ∀ c s, t.Extends c s → t.isInterface s = false

/-- No class has another class for its superclass that is a subtype of it. -/
def Descending (t : ClassTable) : Prop :=
  ∀ c s, t.Extends c s → t.isInterface c = false → s ≠ c → t.isSubtype s c = false

/-- The check of a property of superclass links. -/
def everyLink (t : ClassTable) (p : BinaryName → BinaryName → Bool) : Bool :=
  t.classes.all fun i => (t.superclass i.name).all (p i.name)

lemma everyLink_iff {p : BinaryName → BinaryName → Bool} :
    t.everyLink p = true ↔ ∀ c s, t.Extends c s → p c s = true := by
  simp only [everyLink, List.all_eq_true, Option.all_eq_true]
  constructor
  · intro h c s hs
    obtain ⟨i, hi, rfl⟩ := List.mem_map.1 (recorded_of_extends hs)
    exact h i hi s hs
  · exact fun h i _ s hs => h i.name s hs

instance : Decidable t.ClassParents :=
  decidable_of_iff (t.everyLink (fun _ s => !t.isInterface s) = true) <| by
    simp [everyLink_iff, ClassParents]

instance : Decidable t.Descending :=
  decidable_of_iff
    (t.everyLink (fun c s => t.isInterface c || s = c || !t.isSubtype s c) = true) <| by
    simp [everyLink_iff, Descending, or_iff_not_imp_left]

/-- A class that is its own superclass has no other class above it. -/
lemma Ancestor.eq_of_extends_self (hs : t.Extends c c) (h : t.Ancestor c u) : u = c := by
  induction h with
  | refl => rfl
  | tail _ hlink ih =>
    subst ih
    exact Option.some.inj (hlink.symm.trans hs)

/-- What is below a subtype of a class is a subtype of it. -/
lemma Ancestor.isSubtype_trans (h : t.Ancestor s d) (hc : t.isInterface c = false)
    (hsub : t.isSubtype d c = true) : t.isSubtype s c = true := by
  rw [isSubtype_iff hc] at hsub ⊢
  exact hsub.imp_right h.trans

/-- A class above another one is not a subtype of it. -/
lemma Descending.eq_of_ancestor (hdesc : t.Descending) (hc : t.isInterface c = false)
    (h : t.Ancestor c d) (hsub : t.isSubtype d c = true) : d = c := by
  rcases ReflTransGen.cases_head h with rfl | ⟨s, hs, hsd⟩
  · rfl
  · by_cases hsc : s = c
    · subst hsc
      exact h.eq_of_extends_self hs
    · -- the superclass `s` would be a subtype of `c`
      have hno := hdesc c s hs hc hsc
      rw [Ancestor.isSubtype_trans hsd hc hsub] at hno
      cases hno

lemma Descending.eq_of_isSubtype (hdesc : t.Descending) (hc : t.isInterface c = false)
    (hd : t.isInterface d = false) (h : t.isSubtype c d = true) (h' : t.isSubtype d c = true) :
    c = d := by
  rcases (isSubtype_iff hd).1 h with rfl | hanc
  · rcases (isSubtype_iff hc).1 h' with hobj | hanc
    · exact hobj
    · exact hdesc.eq_of_ancestor hd hanc h
  · exact (hdesc.eq_of_ancestor hc hanc h').symm

/-- The ways up from two classes meet at one class: where each of them first meets a supertype of
the other, the two places are subtypes of one another. -/
lemma Descending.firstAbove_symm (hdesc : t.Descending) (hp : t.ClassParents)
    (h : t.isSubtype c d = false) (h' : t.isSubtype d c = false) (he : e ≠ .object)
    (hfirst : t.FirstAbove c d e) : t.FirstAbove d c e := by
  have hclass : ∀ {c d e}, t.FirstAbove c d e → t.isSubtype d c = false →
      t.isInterface e = false := by
    intro c d e hfirst hdc
    obtain ⟨s, hs⟩ := hfirst.exists_extends hdc
    exact hp s e hs
  have heclass := hclass hfirst h'
  have hde : t.Ancestor d e := ((isSubtype_iff heclass).1 hfirst.isSubtype).resolve_left he
  obtain ⟨e', hfirst'⟩ := exists_firstAbove h hde hfirst.ancestor.isSubtype
  have hclass' := hclass hfirst' h
  have hbelow : t.Ancestor e' e := hfirst'.ancestor_of_isSubtype hde hfirst.ancestor.isSubtype
  have habove : t.isSubtype e e' = true := by
    rcases (isSubtype_iff hclass').1 hfirst'.isSubtype with rfl | hce'
    · exact isSubtype_object e
    · exact (hfirst.ancestor_of_isSubtype hce' hfirst'.ancestor.isSubtype).isSubtype
  rwa [hdesc.eq_of_isSubtype heclass hclass' habove hbelow.isSubtype]

/-- **Where no superclass is an interface**, the order matters to no two classes if and only if the
table is descending. -/
lemma ClassParents.undisputed_iff (hp : t.ClassParents) :
    (∀ c d, ¬ t.Disputed c d) ↔ t.Descending := by
  constructor
  · intro hno c s hs hc hsc
    by_contra hsub
    rw [Bool.not_eq_false] at hsub
    have hup : t.isSubtype c s = true := Ancestor.isSubtype (ReflTransGen.single hs)
    exact hno s c ⟨hsc, hp c s hs, hc, Or.inl ⟨hsub, hup⟩⟩
  · rintro hdesc c d ⟨hcd, hc, hd, ⟨h, h'⟩ | ⟨h, h', e, he, hne⟩⟩
    · exact hcd (hdesc.eq_of_isSubtype hc hd h h')
    · exact hne ⟨hdesc.firstAbove_symm hp h h' he, hdesc.firstAbove_symm hp h' h he⟩

end ClassTable

/-! ### Joins of types -/

namespace VType

/-- The classes that a join of two types compares. -/
def compared : VType → VType → Option (BinaryName × BinaryName)
  | .object (.object c), .object (.object d) => some (c, d)
  | .object (.objectArray m c), .object (.objectArray n d) => if m = n then some (c, d) else none
  | _, _ => none

lemma fst_eq_snd_of_compared {x : VType} {p : BinaryName × BinaryName} (hp : p ∈ x.compared x) :
    p.1 = p.2 := by
  unfold compared at hp
  split at hp <;> grind

lemma join_comm_iff_compared (h : Hierarchy) (x y : VType) :
    x.join h y = y.join h x ↔
      ∀ p ∈ x.compared y, h.joinClass p.1 p.2 = h.joinClass p.2 p.1 := by
  by_cases hxy : x = y
  · subst hxy
    exact iff_of_true rfl fun p hp => by rw [fst_eq_snd_of_compared hp]
  · have hyx : y ≠ x := Ne.symm hxy
    unfold join
    rw [if_neg hxy, if_neg hyx]
    cases x with
    | object r =>
      cases y with
      | object s =>
        cases r <;> cases s
        case objectArray.objectArray m c n d =>
          by_cases hmn : m = n
          · subst hmn
            simp [compared, Hierarchy.joinRef]
          · simp [compared, Hierarchy.joinRef, hmn, Ne.symm hmn]
        case primitiveArray.primitiveArray m b n c =>
          have hne : RefType.primitiveArray m b ≠ .primitiveArray n c :=
            fun heq => hxy (congrArg VType.object heq)
          simp only [compared, Hierarchy.joinRef, if_neg hne, if_neg hne.symm]
          simp
        all_goals simp [compared, Hierarchy.joinRef]
      | _ => simp [compared]
    | _ => cases y <;> simp [compared]

end VType

/-- **When joins do not depend on the order of their operands.** On every table, the two joins of
two types agree unless the types are classes, or arrays of classes of one dimension, and the order
of these classes matters. Where no superclass is an interface, all joins agree if and only if no
class has another class for its superclass that is a subtype of it. -/
theorem join_comm_iff_undisputed (t : ClassTable) :
    (∀ x y : VType, x.join t.hierarchy y = y.join t.hierarchy x ↔
        ∀ p ∈ x.compared y, ¬ t.Disputed p.1 p.2) ∧
      (t.ClassParents →
        ((∀ x y : VType, x.join t.hierarchy y = y.join t.hierarchy x) ↔ t.Descending)) := by
  have hjoin : ∀ x y : VType, x.join t.hierarchy y = y.join t.hierarchy x ↔
      ∀ p ∈ x.compared y, ¬ t.Disputed p.1 p.2 := by
    intro x y
    simp only [VType.join_comm_iff_compared, ClassTable.joinClass_comm_iff]
  refine ⟨hjoin, fun hp => ?_⟩
  rw [← hp.undisputed_iff]
  constructor
  · intro hall c d
    exact (hjoin (.ofClass c) (.ofClass d)).1 (hall _ _) (c, d) rfl
  · exact fun hno x y => (hjoin x y).2 fun p _ => hno p.1 p.2

namespace Chase

def fox : BinaryName := ⟨"p/Fox", by decide +kernel⟩

def hound : BinaryName := ⟨"p/Hound", by decide +kernel⟩

def snake : BinaryName := ⟨"p/Snake", by decide +kernel⟩

def adder : BinaryName := ⟨"p/Adder", by decide +kernel⟩

def viper : BinaryName := ⟨"p/Viper", by decide +kernel⟩

/-- Two classes that are each the superclass of the other. -/
def chase : ClassTable :=
  ⟨[⟨.object, none, [], .ofClass⟩, ⟨fox, some hound, [], .ofClass⟩,
    ⟨hound, some fox, [], .ofClass⟩]⟩

/-- Two classes under a class that is its own superclass. -/
def snakes : ClassTable :=
  ⟨[⟨.object, none, [], .ofClass⟩, ⟨snake, some snake, [], .ofClass⟩,
    ⟨adder, some snake, [], .ofClass⟩, ⟨viper, some snake, [], .ofClass⟩]⟩

/-- The order matters on a ring of two classes and not on a ring of one. -/
theorem join_comm_iff_undisputed_rings :
    chase.ClassParents ∧ ¬ chase.Descending ∧ chase.Disputed fox hound ∧
      (VType.ofClass fox).join chase.hierarchy (.ofClass hound) ≠
        (VType.ofClass hound).join chase.hierarchy (.ofClass fox) ∧
      snakes.ClassParents ∧ snakes.Descending ∧
      (VType.ofClass adder).join snakes.hierarchy (.ofClass viper) = .ofClass snake ∧
      ∀ x y : VType, x.join snakes.hierarchy y = y.join snakes.hierarchy x := by
  have hdisputed : chase.Disputed fox hound :=
    ⟨by decide, by decide +kernel, by decide +kernel, Or.inl ⟨by decide +kernel, by decide +kernel⟩⟩
  have hparents : snakes.ClassParents := by decide +kernel
  have hdescending : snakes.Descending := by decide +kernel
  refine ⟨by decide +kernel, by decide +kernel, hdisputed, fun heq => ?_, hparents, hdescending,
    by decide +kernel, ((join_comm_iff_undisputed snakes).2 hparents).2 hdescending⟩
  exact ((join_comm_iff_undisputed chase).1 _ _).1 heq (fox, hound) rfl hdisputed

/-- Each join of the ring of two classes is the class that comes second. -/
theorem join_depends_on_order :
    (VType.ofClass fox).join chase.hierarchy (.ofClass hound) = .ofClass hound ∧
      (VType.ofClass hound).join chase.hierarchy (.ofClass fox) = .ofClass fox ∧
      ¬ ∀ (t : ClassTable) (x y : VType), x.join t.hierarchy y = y.join t.hierarchy x := by
  have hleft : (VType.ofClass fox).join chase.hierarchy (.ofClass hound) = .ofClass hound := by
    decide +kernel
  have hright : (VType.ofClass hound).join chase.hierarchy (.ofClass fox) = .ofClass fox := by
    decide +kernel
  refine ⟨hleft, hright, fun hall => ?_⟩
  have heq := hall chase (.ofClass fox) (.ofClass hound)
  rw [hleft, hright] at heq
  exact absurd heq (by decide)

end Chase

end Bytecheck
