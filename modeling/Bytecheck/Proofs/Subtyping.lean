import Mathlib.Logic.Relation
import Mathlib.Tactic.Common
import Bytecheck.Proofs.Ancestry

/-!
Subtyping as reachability.

The search for a supertype follows superclass links, and interface links too when it looks for an
interface. Links may close on themselves or lead to classes that are not recorded: what the search
has seen is left alone, so it ends on every table and finds what can be reached.

Where interfaces are recorded as such and stand under the root class, a way to a recorded class needs
no interface links, so leaving them out costs nothing there. It does cost an interface that is
listed by a class and not recorded itself: nothing tells it from a class.
-/

namespace Bytecheck.ClassTable

open Relation

variable {t : ClassTable} {c d : BinaryName}

/-- The second class is the recorded superclass of the first, or one of its recorded interfaces. -/
def Inherits (t : ClassTable) (c d : BinaryName) : Prop :=
  ∃ i, t.find? c = some i ∧ (i.superclass = some d ∨ d ∈ i.interfaces)

lemma links_links_iff : Reach.Links t.links c d ↔ t.Inherits c d := by
  unfold Reach.Links links Inherits
  cases t.find? c <;> simp

lemma Extends.inherits (h : t.Extends c d) : t.Inherits c d :=
  links_links_iff.1 (superclass_mem_links h)

lemma Ancestor.inherits (h : t.Ancestor c d) : ReflTransGen t.Inherits c d :=
  ReflTransGen.mono (fun _ _ => Extends.inherits) c d h

lemma Ancestor.isSubtype (h : t.Ancestor c d) : t.isSubtype c d = true := by
  cases hd : t.isInterface d with
  | false => exact (isSubtype_iff hd).2 (Or.inr h)
  | true =>
    refine (isSubtype_interface_iff hd).2 (Or.inr ?_)
    exact ReflTransGen.mono (fun _ _ h => superclass_mem_links h) c d h

lemma isSubtype_of_inherits (hd : t.isInterface d = true) (h : ReflTransGen t.Inherits c d) :
    t.isSubtype c d = true := by
  refine (isSubtype_interface_iff hd).2 (Or.inr ?_)
  exact ReflTransGen.mono (fun _ _ => links_links_iff.2) c d h

/-- The ways to be a subtype. -/
lemma cases_of_isSubtype (h : t.isSubtype c d = true) :
    d = .object ∨ t.Ancestor c d ∨ t.isInterface d = true ∧ ReflTransGen t.Inherits c d := by
  cases hd : t.isInterface d with
  | false =>
    rcases (isSubtype_iff hd).1 h with h | h
    · exact Or.inl h
    · exact Or.inr (Or.inl h)
  | true =>
    rcases (isSubtype_interface_iff hd).1 h with h | h
    · exact Or.inl h
    · exact Or.inr (Or.inr ⟨rfl, ReflTransGen.mono (fun _ _ => links_links_iff.1) c d h⟩)

/-- The answer is what the search comes to by itself. -/
lemma explores_isSubtype (hne : c ≠ d) (hd : d ≠ .object) :
    Reach.Explores (t.upLinks d) d [c] [c] (t.isSubtype c d) := by
  have hsearch : t.isSubtype c d = Reach.explore (t.upLinks d) t.supertypes
      (t.mem_supertypes_of_upLinks d) d [c] [c] := by
    simp [isSubtype, hne, hd]
  rw [hsearch]
  exact Reach.explores_explore _ d [c] [c]

/-- **Subtyping is reachability**, on every table: over superclass links, or over links of both
kinds to an interface. The search, which puts classes on a stack and leaves alone those that it has
seen, comes to its end by itself, with this answer. Searches by rounds find nothing more after as
many rounds as there are recorded classes. -/
theorem isSubtype_iff_reachable (t : ClassTable) (a b : BinaryName) :
    (t.isSubtype a b = true ↔
        a = b ∨ b = .object ∨ ReflTransGen t.Extends a b ∨
          t.isInterface b = true ∧ ReflTransGen t.Inherits a b) ∧
      (a ≠ b → b ≠ .object → Reach.Explores (t.upLinks b) b [a] [a] (t.isSubtype a b)) ∧
      ∀ n, Reach.closure t.superLinks (t.classes.length + n) a =
          Reach.closure t.superLinks t.classes.length a ∧
        Reach.closure t.links (t.classes.length + n) a =
          Reach.closure t.links t.classes.length a := by
  refine ⟨?_, explores_isSubtype, fun n =>
    ⟨Reach.closure_add (fun _ _ => recorded_of_mem_superLinks) length_names_le n a,
      Reach.closure_add (fun _ _ => recorded_of_mem_links) length_names_le n a⟩⟩
  have hlinks : Reach.Links t.links = t.Inherits := by
    funext c d
    exact propext links_links_iff
  cases hb : t.isInterface b with
  | false =>
    rw [isSubtype_iff hb]
    constructor
    · rintro (h | h)
      · exact Or.inr (Or.inl h)
      · exact Or.inr (Or.inr (Or.inl h))
    · rintro (rfl | h | h | ⟨h, -⟩)
      · exact Or.inr ReflTransGen.refl
      · exact Or.inl h
      · exact Or.inr h
      · cases h
  | true =>
    rw [isSubtype_interface_iff hb, hlinks]
    constructor
    · rintro (h | h)
      · exact Or.inr (Or.inl h)
      · exact Or.inr (Or.inr (Or.inr ⟨rfl, h⟩))
    · rintro (rfl | h | h | ⟨-, h⟩)
      · exact Or.inr ReflTransGen.refl
      · exact Or.inl h
      · exact Or.inr (Ancestor.inherits h)
      · exact Or.inr h

/-! ### Interfaces left out -/

/-- The second class is one of the recorded interfaces of the first. -/
def Implements (t : ClassTable) (c d : BinaryName) : Prop :=
  ∃ i, t.find? c = some i ∧ d ∈ i.interfaces

lemma Implements.inherits (h : t.Implements c d) : t.Inherits c d := by
  obtain ⟨i, hi, hd⟩ := h
  exact ⟨i, hi, Or.inr hd⟩

lemma Inherits.extends_or_implements (h : t.Inherits c d) : t.Extends c d ∨ t.Implements c d := by
  obtain ⟨i, hi, hd | hd⟩ := h
  · exact Or.inl ((superclass_of_find? hi).trans hd)
  · exact Or.inr ⟨i, hi, hd⟩

/-- What is listed as an interface is recorded as one or not recorded, and the superclass of an
interface is the root class. -/
structure ProperInterfaces (t : ClassTable) : Prop where
  listed : ∀ c d, t.Implements c d → t.isInterface d = true ∨ t.find? d = none
  root : ∀ d, t.isInterface d = true → t.Extends d .object

/-- The check of the records that are found under their names. -/
def hasProperInterfaces (t : ClassTable) : Bool :=
  t.classes.all fun i => t.find? i.name ≠ some i ||
    (i.interfaces.all fun d => t.isInterface d || (t.find? d).isNone) &&
      (!i.isInterface || i.superclass = some .object)

lemma hasProperInterfaces_iff : t.hasProperInterfaces = true ↔ t.ProperInterfaces := by
  have hcheck : t.hasProperInterfaces = true ↔ ∀ i ∈ t.classes, t.find? i.name = some i →
      (∀ d ∈ i.interfaces, t.isInterface d = true ∨ t.find? d = none) ∧
        (i.isInterface = true → i.superclass = some .object) := by
    simp [hasProperInterfaces, imp_iff_not_or]
  rw [hcheck]
  constructor
  · intro hall
    have hfound : ∀ {c i}, t.find? c = some i → i ∈ t.classes ∧ t.find? i.name = some i := by
      intro c i hi
      have hname : i.name = c := by simpa using List.find?_some hi
      exact ⟨List.mem_of_find?_eq_some hi, hname ▸ hi⟩
    refine ⟨fun c d ⟨i, hi, hd⟩ => ?_, fun d hd => ?_⟩
    · exact (hall i (hfound hi).1 (hfound hi).2).1 d hd
    · obtain ⟨i, hi, hint⟩ := exists_of_isInterface hd
      exact (superclass_of_find? hi).trans ((hall i (hfound hi).1 (hfound hi).2).2 hint)
  · intro hp i _ hi
    refine ⟨fun d hd => hp.listed i.name d ⟨i, hi, hd⟩, fun hint => ?_⟩
    exact (superclass_of_find? hi).symm.trans (hp.root i.name ((isInterface_of_find? hi).trans hint))

instance : Decidable t.ProperInterfaces :=
  decidable_of_iff (t.hasProperInterfaces = true) hasProperInterfaces_iff

variable {a b : BinaryName}

/-- A way up takes superclass links only, or its last link is to an interface, or it goes through the
root class. -/
lemma ProperInterfaces.cases_of_inherits (hp : t.ProperInterfaces)
    (h : ReflTransGen t.Inherits a b) :
    t.Ancestor a b ∨ (∃ c, ReflTransGen t.Inherits a c ∧ t.Implements c b) ∨
      ReflTransGen t.Inherits a .object ∧ t.Ancestor .object b := by
  induction h with
  | refl => exact Or.inl ReflTransGen.refl
  | @tail c b hac hcb ih =>
    rcases hcb.extends_or_implements with hext | himp
    · rcases ih with hanc | ⟨d, -, hdc⟩ | ⟨hobj, hanc⟩
      · exact Or.inl (hanc.tail hext)
      · -- `c` is listed as an interface and has a superclass, so it is recorded as an interface
        have hint : t.isInterface c = true := by
          refine (hp.listed d c hdc).resolve_right fun hnone => ?_
          rw [Extends, superclass, hnone] at hext
          cases hext
        have hb : b = .object := Option.some.inj (hext.symm.trans (hp.root c hint))
        subst hb
        exact Or.inr (Or.inr ⟨hac.tail hcb, ReflTransGen.refl⟩)
      · exact Or.inr (Or.inr ⟨hobj, hanc.tail hext⟩)
    · exact Or.inr (Or.inl ⟨c, hac, himp⟩)

/-- **What leaving interfaces out costs.** To a class that is not recorded as an interface the search
follows superclass links only. It then misses what can be reached in two cases: the class is listed
as an interface but not recorded, or the root class has a superclass. -/
theorem reachable_iff_isSubtype_or_missed (hp : t.ProperInterfaces) (a b : BinaryName) :
    (a = b ∨ b = .object ∨ ReflTransGen t.Inherits a b) ↔
      t.isSubtype a b = true ∨
        (t.find? b = none ∧ ∃ c, ReflTransGen t.Inherits a c ∧ t.Implements c b) ∨
        ReflTransGen t.Inherits a .object ∧ ReflTransGen t.Extends .object b := by
  constructor
  · rintro (rfl | rfl | h)
    · exact Or.inl (Ancestor.isSubtype ReflTransGen.refl)
    · exact Or.inl (isSubtype_object a)
    · rcases hp.cases_of_inherits h with hanc | ⟨c, hac, hcb⟩ | hroot
      · exact Or.inl hanc.isSubtype
      · rcases hp.listed c b hcb with hint | hnone
        · exact Or.inl (isSubtype_of_inherits hint h)
        · exact Or.inr (Or.inl ⟨hnone, c, hac, hcb⟩)
      · exact Or.inr (Or.inr hroot)
  · rintro (h | ⟨-, c, hac, hcb⟩ | ⟨hobj, hanc⟩)
    · rcases cases_of_isSubtype h with h | h | ⟨-, h⟩
      · exact Or.inr (Or.inl h)
      · exact Or.inr (Or.inr (Ancestor.inherits h))
      · exact Or.inr (Or.inr h)
    · exact Or.inr (Or.inr (hac.tail hcb.inherits))
    · exact Or.inr (Or.inr (hobj.trans (Ancestor.inherits hanc)))

namespace Kites

def kite : BinaryName := ⟨"p/Kite", by decide +kernel⟩

def paper : BinaryName := ⟨"p/Paper", by decide +kernel⟩

def flier : BinaryName := ⟨"p/Flier", by decide +kernel⟩

/-- A class with a superclass and an interface, neither of them recorded. -/
def kites : ClassTable :=
  ⟨[⟨.object, none, [], .ofClass⟩, ⟨kite, some paper, [flier], .ofClass⟩]⟩

lemma kite_inherits_flier : ReflTransGen kites.Inherits kite flier :=
  ReflTransGen.single ⟨⟨kite, some paper, [flier], .ofClass⟩, by decide +kernel, Or.inr (by simp)⟩

/-- The superclass is found though it is not recorded, the interface is not. -/
theorem reachable_iff_isSubtype_or_missed_kites :
    kites.ProperInterfaces ∧ kites.isSubtype kite paper = true ∧
      (kites.isSubtype kite flier = true ∨
        (kites.find? flier = none ∧
          ∃ c, ReflTransGen kites.Inherits kite c ∧ kites.Implements c flier) ∨
        ReflTransGen kites.Inherits kite .object ∧ ReflTransGen kites.Extends .object flier) := by
  have hp : kites.ProperInterfaces := by decide +kernel
  exact ⟨hp, by decide +kernel,
    (reachable_iff_isSubtype_or_missed hp kite flier).1 (Or.inr (Or.inr kite_inherits_flier))⟩

/-- An interface that is not recorded is missed, so leaving interfaces out changes the answer. -/
theorem unrecorded_interface_missed :
    kites.ProperInterfaces ∧
      ¬ (kites.isSubtype kite flier = true ↔
        kite = flier ∨ flier = .object ∨ ReflTransGen kites.Inherits kite flier) := by
  refine ⟨by decide +kernel, fun h => ?_⟩
  have hmissed : kites.isSubtype kite flier = false := by decide +kernel
  exact Bool.eq_false_iff.1 hmissed (h.2 (Or.inr (Or.inr kite_inherits_flier)))

end Kites

end Bytecheck.ClassTable
