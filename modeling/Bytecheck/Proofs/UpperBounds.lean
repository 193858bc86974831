import Mathlib.Data.List.Nodup
import Mathlib.Logic.Relation
import Mathlib.Tactic.Common
import Bytecheck.Proofs.Assignability

/-!
Joins on tables of any shape.

Superclass links may close on themselves, lead to interfaces or leave the table. A join is then no
least type, but it is still one that both sides may be used as. The walk up a superclass chain does
not come back to a class that it has passed, and it can go on only from recorded classes, so it ends
by itself on every table.
-/

namespace Bytecheck

/-! ### The walk without a bound -/

/-- The walk up a superclass chain with no bound on its length, and where it ends. -/
inductive Hierarchy.Climbs (h : Hierarchy) (sub : BinaryName) :
    List BinaryName → Option BinaryName → Climb → Prop
  | top {passed : List BinaryName} : Climbs h sub passed none .top
  | cycle {passed : List BinaryName} {c : BinaryName} :
      c ∈ passed → Climbs h sub passed (some c) (.cycle c)
  | found {passed : List BinaryName} {c : BinaryName} :
      c ∉ passed → h.isSubtype sub c = true → Climbs h sub passed (some c) (.found c)
  | next {passed : List BinaryName} {c : BinaryName} {o : Climb} :
      c ∉ passed → h.isSubtype sub c = false → Climbs h sub (c :: passed) (h.superclass c) o →
      Climbs h sub passed (some c) o

@[simp] lemma Hierarchy.climb_none (h : Hierarchy) (sub : BinaryName) (n : ℕ)
    (passed : List BinaryName) : h.climb sub n passed none = .top := by
  cases n <;> rfl

namespace ClassTable

open Relation

variable {t : ClassTable}

/-- The classes passed are recorded and all different, so there are no more of them than records. -/
lemma climbs_climb (sub : BinaryName) (n : ℕ) {passed : List BinaryName} (hnd : passed.Nodup)
    (hsub : passed ⊆ t.classes.map ClassInfo.name) (hn : t.classes.length < n + passed.length)
    (start : Option BinaryName) :
    t.hierarchy.Climbs sub passed start (t.hierarchy.climb sub n passed start) := by
  induction n generalizing passed start with
  | zero =>
    have hle := hnd.length_le_of_subset hsub
    rw [List.length_map] at hle
    omega
  | succ n ih =>
    cases start with
    | none => exact .top
    | some c =>
      unfold Hierarchy.climb
      split_ifs with hc hs
      · exact .cycle hc
      · exact .found hc hs
      · refine .next hc (Bool.eq_false_iff.2 hs) ?_
        cases hsup : t.hierarchy.superclass c with
        | none =>
          rw [Hierarchy.climb_none]
          exact .top
        | some s =>
          -- `c` has a superclass, so it is recorded
          refine ih (List.nodup_cons.2 ⟨hc, hnd⟩) ?_ ?_ (some s)
          · exact List.cons_subset.2 ⟨recorded_of_extends hsup, hsub⟩
          · rw [List.length_cons]
            omega

/-- **Every walk ends**: the bound on its length is not what stops it. -/
lemma climbs_climbFrom (t : ClassTable) (c d : BinaryName) :
    t.hierarchy.Climbs d [c] (t.superclass c) (t.hierarchy.climbFrom c d) := by
  have hsup : t.hierarchy.superclass c = t.superclass c := rfl
  unfold Hierarchy.climbFrom
  rw [hsup]
  cases hs : t.superclass c with
  | none =>
    rw [Hierarchy.climb_none]
    exact .top
  | some s =>
    refine climbs_climb d _ (List.nodup_singleton c) ?_ ?_ (some s)
    · exact List.cons_subset.2 ⟨recorded_of_extends hs, List.nil_subset _⟩
    · have hspan : t.hierarchy.span = t.classes.length := rfl
      rw [hspan, List.length_singleton]
      omega

/-- The class where a walk ends has the wanted subtype, and the walk has led up to it. -/
lemma ancestor_of_climbs {sub s e : BinaryName} {passed : List BinaryName}
    (h : t.hierarchy.Climbs sub passed (some s) (.found e)) :
    t.isSubtype sub e = true ∧ t.Ancestor s e := by
  generalize hstart : some s = start at h
  generalize hend : Hierarchy.Climb.found e = o at h
  induction h generalizing s with
  | top => cases hstart
  | cycle => cases hend
  | found _ hsub =>
    cases hstart
    cases hend
    exact ⟨hsub, ReflTransGen.refl⟩
  | @next passed c o _ _ hnext ih =>
    cases hstart
    cases hsup : t.hierarchy.superclass c with
    | none =>
      rw [hsup] at hnext
      cases hnext
      cases hend
    | some s =>
      obtain ⟨hsub, hanc⟩ := ih hsup.symm hend
      exact ⟨hsub, ReflTransGen.head hsup hanc⟩

end ClassTable

/-! ### Upper bounds -/

lemma Hierarchy.classAssignable_self (h : Hierarchy) (c : BinaryName) :
    h.classAssignable c c = true := by
  simp [classAssignable]

lemma Hierarchy.refAssignable_self (h : Hierarchy) (r : RefType) : h.refAssignable r r = true := by
  cases r <;> simp [refAssignable, classAssignable_self]

namespace ClassTable

variable {t : ClassTable} {c d e : BinaryName}

lemma classAssignable_of_isSubtype (h : t.isSubtype c d = true) :
    t.hierarchy.classAssignable c d = true := by
  simp [Hierarchy.classAssignable, hierarchy, h]

lemma classAssignable_object (t : ClassTable) (c : BinaryName) :
    t.hierarchy.classAssignable c .object = true :=
  classAssignable_of_isSubtype (isSubtype_object c)

/-- Where the walk from `c` ends, both classes may be used. -/
lemma classAssignable_of_climbFrom (h : t.hierarchy.climbFrom c d = .found e) :
    t.hierarchy.classAssignable c e = true ∧ t.hierarchy.classAssignable d e = true := by
  have hwalk := climbs_climbFrom t c d
  rw [h] at hwalk
  cases hs : t.superclass c with
  | none =>
    rw [hs] at hwalk
    cases hwalk
  | some s =>
    rw [hs] at hwalk
    obtain ⟨hsub, hanc⟩ := ancestor_of_climbs hwalk
    have hup : t.Ancestor c e := Relation.ReflTransGen.head hs hanc
    exact ⟨classAssignable_of_isSubtype hup.isSubtype, classAssignable_of_isSubtype hsub⟩

lemma classAssignable_joinClass (t : ClassTable) (c d : BinaryName) :
    t.hierarchy.classAssignable c (t.hierarchy.joinClass c d) = true ∧
      t.hierarchy.classAssignable d (t.hierarchy.joinClass c d) = true := by
  have hobject := And.intro (classAssignable_object t c) (classAssignable_object t d)
  unfold Hierarchy.joinClass
  split_ifs with hcd _ hsub hsup
  · rw [← hcd]
    exact ⟨Hierarchy.classAssignable_self _ c, Hierarchy.classAssignable_self _ c⟩
  · exact hobject
  · exact ⟨classAssignable_of_isSubtype hsub, Hierarchy.classAssignable_self _ d⟩
  · exact ⟨Hierarchy.classAssignable_self _ c, classAssignable_of_isSubtype hsup⟩
  · cases hwalk : t.hierarchy.climbFrom c d with
    | found e => exact classAssignable_of_climbFrom hwalk
    | top => exact hobject
    | cycle e => exact hobject

/-- Every reference may be used as the root class. -/
lemma refAssignable_root (t : ClassTable) (r : RefType) :
    t.hierarchy.refAssignable r (.object .object) = true := by
  cases r with
  | object c => exact classAssignable_object t c
  | objectArray => rfl
  | primitiveArray => rfl

lemma refAssignable_joinRef (t : ClassTable) (r s : RefType) :
    t.hierarchy.refAssignable r (t.hierarchy.joinRef r s) = true ∧
      t.hierarchy.refAssignable s (t.hierarchy.joinRef r s) = true := by
  have hroot := And.intro (refAssignable_root t r) (refAssignable_root t s)
  unfold Hierarchy.joinRef
  split
  · exact classAssignable_joinClass t _ _
  · rename_i m c n d
    split_ifs with hmn
    · subst hmn
      simpa [Hierarchy.refAssignable] using classAssignable_joinClass t c d
    · exact hroot
  · split_ifs with hrs
    · rw [← hrs]
      exact ⟨Hierarchy.refAssignable_self _ r, Hierarchy.refAssignable_self _ r⟩
    · exact hroot

end ClassTable

namespace VType

variable {h : Hierarchy}

/-- What a join can be. -/
lemma join_cases (h : Hierarchy) (x y : VType) :
    x.join h y = .bottom ∨ (x = y ∧ x.join h y = x) ∨
      (∃ r, x = .null ∧ y = .object r ∧ x.join h y = .object r) ∨
      (∃ r, x = .object r ∧ y = .null ∧ x.join h y = .object r) ∨
      ∃ r s, x = .object r ∧ y = .object s ∧ x.join h y = .object (h.joinRef r s) := by
  unfold join
  by_cases hxy : x = y
  · exact Or.inr (Or.inl ⟨hxy, if_pos hxy⟩)
  · rw [if_neg hxy]
    split
    · exact Or.inr (Or.inr (Or.inl ⟨_, rfl, rfl, rfl⟩))
    · exact Or.inr (Or.inr (Or.inr (Or.inl ⟨_, rfl, rfl, rfl⟩)))
    · exact Or.inr (Or.inr (Or.inr (Or.inr ⟨_, _, rfl, rfl, rfl⟩)))
    · exact Or.inl rfl

/-- References have a join, whatever the table says about their classes. -/
lemma join_object_ne_bottom (h : Hierarchy) (r s : RefType) :
    (VType.object r).join h (.object s) ≠ .bottom := by
  unfold join
  split_ifs <;> simp

lemma isAssignable_self {x : VType} (hx : x ≠ .bottom) : x.isAssignable h x = true := by
  cases x with
  | bottom => exact absurd rfl hx
  | object r => exact h.refAssignable_self r
  | _ => simp [isAssignable]

end VType

/-- **Joins end, and above both sides**, on every table. The searches for supertypes and the walks
up superclass chains come to their ends by themselves. A join that is not `bottom` is a type that
both sides may be used as, and it takes as many slots as they do; references always have such a
join. -/
theorem join_ends_above (t : ClassTable) :
    (∀ c d, c ≠ d → d ≠ .object → Reach.Explores (t.upLinks d) d [c] [c] (t.isSubtype c d)) ∧
    (∀ c, Reach.Searches t.superLinks [c] [c] (Reach.closure t.superLinks t.classes.length c) ∧
      Reach.Searches t.links [c] [c] (Reach.closure t.links t.classes.length c)) ∧
    (∀ c d, t.hierarchy.Climbs d [c] (t.superclass c) (t.hierarchy.climbFrom c d)) ∧
    (∀ r s : RefType, (VType.object r).join t.hierarchy (.object s) ≠ .bottom) ∧
    ∀ x y : VType, x.join t.hierarchy y ≠ .bottom →
      x.isAssignable t.hierarchy (x.join t.hierarchy y) = true ∧
        y.isAssignable t.hierarchy (x.join t.hierarchy y) = true ∧
        width (x.join t.hierarchy y) = width x ∧ width (x.join t.hierarchy y) = width y := by
  refine ⟨fun c d => ClassTable.explores_isSubtype, fun c => ⟨?_, ?_⟩,
    ClassTable.climbs_climbFrom t, VType.join_object_ne_bottom t.hierarchy, fun x y hxy => ?_⟩
  · exact Reach.searches_closure (fun _ _ => ClassTable.recorded_of_mem_superLinks)
      ClassTable.length_names_le c
  · exact Reach.searches_closure (fun _ _ => ClassTable.recorded_of_mem_links)
      ClassTable.length_names_le c
  · rcases VType.join_cases t.hierarchy x y with
      hj | ⟨rfl, hj⟩ | ⟨r, rfl, rfl, hj⟩ | ⟨r, rfl, rfl, hj⟩ | ⟨r, s, rfl, rfl, hj⟩
    · exact absurd hj hxy
    · rw [hj] at hxy ⊢
      exact ⟨VType.isAssignable_self hxy, VType.isAssignable_self hxy, rfl, rfl⟩
    · rw [hj]
      exact ⟨rfl, Hierarchy.refAssignable_self _ r, rfl, rfl⟩
    · rw [hj]
      exact ⟨Hierarchy.refAssignable_self _ r, rfl, rfl, rfl⟩
    · rw [hj]
      obtain ⟨hr, hs⟩ := ClassTable.refAssignable_joinRef t r s
      exact ⟨hr, hs, rfl, rfl⟩

namespace Knots

def oak : BinaryName := ⟨"p/Oak", by decide +kernel⟩

def elm : BinaryName := ⟨"p/Elm", by decide +kernel⟩

def tree : BinaryName := ⟨"p/Tree", by decide +kernel⟩

def vine : BinaryName := ⟨"p/Vine", by decide +kernel⟩

def ivy : BinaryName := ⟨"p/Ivy", by decide +kernel⟩

/-- Two classes under an interface that is its own superclass, and two classes that are each the
superclass of the other. The root class is not recorded. -/
def knots : ClassTable :=
  ⟨[⟨tree, some tree, [], .ofInterface⟩, ⟨oak, some tree, [], .ofClass⟩,
    ⟨elm, some tree, [], .ofClass⟩, ⟨vine, some ivy, [], .ofClass⟩,
    ⟨ivy, some vine, [], .ofClass⟩]⟩

/-- A walk that ends at an interface, and one that comes back to where it began. -/
theorem join_ends_above_knots :
    (VType.object (.objectArray 1 oak)).join knots.hierarchy (.object (.objectArray 1 elm)) =
        .object (.objectArray 1 tree) ∧
      (VType.object (.objectArray 1 elm)).isAssignable knots.hierarchy
        (.object (.objectArray 1 tree)) = true ∧
      knots.hierarchy.climbFrom vine oak = .cycle vine ∧
      knots.hierarchy.Climbs oak [vine] (some ivy) (.cycle vine) ∧
      (VType.ofClass vine).join knots.hierarchy (.ofClass oak) = .ofClass .object ∧
      (VType.ofClass vine).isAssignable knots.hierarchy (.ofClass .object) = true := by
  obtain ⟨-, -, hwalk, hjoined, habove⟩ := join_ends_above knots
  have hfound : (VType.object (.objectArray 1 oak)).join knots.hierarchy
      (.object (.objectArray 1 elm)) = .object (.objectArray 1 tree) := by decide +kernel
  have hcycle : knots.hierarchy.climbFrom vine oak = .cycle vine := by decide +kernel
  have hroot : (VType.ofClass vine).join knots.hierarchy (.ofClass oak) = .ofClass .object := by
    decide +kernel
  have harrays := habove _ _ (hjoined (.objectArray 1 oak) (.objectArray 1 elm))
  have hclasses := habove (.ofClass vine) (.ofClass oak) (hjoined (.object vine) (.object oak))
  rw [hfound] at harrays
  rw [hroot] at hclasses
  exact ⟨hfound, harrays.2.1, hcycle, hcycle ▸ hwalk vine oak, hroot, hclasses.1⟩

end Knots

end Bytecheck
