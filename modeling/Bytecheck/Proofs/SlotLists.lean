import Mathlib.Data.List.Forall2
import Mathlib.Data.List.Induction
import Mathlib.Tactic.Common
import Bytecheck.Frame

/-!
Slot vectors and plain lists.

A vector keeps the offset of each entry, and takes its height back from the entry that is popped
instead of counting slots again. Whatever was done to it, it is the vector that pushing the values
of a plain list gives, as long as offsets fit: `edit_ofList` says so of one operation, with what the
operation reports, and `edits_ofList` of any number of them. All the rest is read off the entries of
such a vector (`ofList_eq`): a value lies at the number of slots of the values below it.
-/

namespace Bytecheck

variable {α : Type} [Width α] {l l' : List α}

/-! ### Values side by side -/

/-- The slots that values take. -/
def slots : List α → ℕ
  | [] => 0
  | a :: l => width a + slots l

@[simp] lemma slots_nil : slots ([] : List α) = 0 := rfl

@[simp] lemma slots_cons {a : α} : slots (a :: l) = width a + slots l := rfl

@[simp] lemma slots_append : slots (l ++ l') = slots l + slots l' := by
  induction l with
  | nil => simp
  | cons x l ih => rw [List.cons_append, slots_cons, slots_cons, ih, Nat.add_assoc]

lemma slots_reverse (l : List α) : slots l.reverse = slots l := by
  induction l with
  | nil => rfl
  | cons x l ih =>
    rw [List.reverse_cons, slots_append, ih]
    simp [Nat.add_comm]

/-- Values side by side, each with the offset of its first slot. -/
def layout : ℕ → List α → List (ℕ × α)
  | _, [] => []
  | o, a :: l => (o, a) :: layout (o + width a) l

@[simp] lemma length_layout (o : ℕ) (l : List α) : (layout o l).length = l.length := by
  induction l generalizing o with
  | nil => rfl
  | cons a l ih => simp [layout, ih]

lemma getElem?_layout (o : ℕ) (l : List α) (n : ℕ) :
    (layout o l)[n]? = l[n]?.map fun a => (o + slots (l.take n), a) := by
  induction l generalizing o n with
  | nil => rfl
  | cons a l ih =>
    cases n with
    | zero => rfl
    | succ n => simp [layout, ih, Nat.add_assoc]

/-! ### Equality by that of values -/

section Equality

variable [BEq α]

omit [Width α] in
lemma beq_iff_forall₂ : (l == l') = true ↔ List.Forall₂ (fun a b => (a == b) = true) l l' := by
  induction l generalizing l' with
  | nil => cases l' <;> simp
  | cons a l ih =>
    cases l' with
    | nil => simp
    | cons b l' => rw [List.cons_beq_cons, Bool.and_eq_true, ih, List.forall₂_cons]

variable (hw : ∀ a b : α, (a == b) = true → width a = width b)

include hw

lemma slots_eq_of_beq (h : (l == l') = true) : slots l = slots l' := by
  rw [beq_iff_forall₂] at h
  induction h with
  | nil => rfl
  | cons hab _ ih => rw [slots_cons, slots_cons, hw _ _ hab, ih]

/-- Where equal values have the same width, equal values side by side have the same offsets. -/
lemma layout_beq_iff (o : ℕ) : (layout o l == layout o l') = true ↔ (l == l') = true := by
  induction l generalizing l' o with
  | nil => cases l' <;> simp [layout]
  | cons a l ih =>
    cases l' with
    | nil => simp [layout]
    | cons b l' =>
      have hentry : ((o, a) == (o, b)) = (a == b) := by
        change (o == o && a == b) = (a == b)
        rw [beq_self_eq_true, Bool.true_and]
      rw [layout, layout, List.cons_beq_cons, List.cons_beq_cons, hentry, Bool.and_eq_true,
        Bool.and_eq_true]
      refine and_congr_right fun hab => ?_
      rw [hw a b hab, ih]

end Equality

namespace SlotVec

/-! ### Vectors of lists -/

lemma append_eq (v : SlotVec α) (l : List α) :
    v.append l = ⟨(layout v.height l).reverse ++ v.entries, v.height + slots l⟩ := by
  induction l generalizing v with
  | nil => rfl
  | cons a l ih =>
    change (v.push a).append l = _
    rw [ih]
    simp [push, layout, Nat.add_assoc]

lemma ofList_eq (l : List α) : ofList l = ⟨(layout 0 l).reverse, slots l⟩ := by
  rw [ofList, append_eq]
  simp [empty]

lemma append_ofList (l l' : List α) : (ofList l).append l' = ofList (l ++ l') := by
  simp [ofList, append]

lemma push_ofList (l : List α) (a : α) : (ofList l).push a = ofList (l ++ [a]) :=
  append_ofList l [a]

lemma height_ofList (l : List α) : (ofList l).height = slots l := by rw [ofList_eq]

lemma size_ofList (l : List α) : (ofList l).size = l.length := by
  rw [ofList_eq]
  simp [size]

/-- The entries of a vector, with their positions. -/
lemma getElem?_indexed_ofList (l : List α) (n : ℕ) :
    (ofList l).indexed[n]? = l[n]?.map fun a => (slots (l.take n), n, a) := by
  rw [ofList_eq]
  unfold indexed
  rw [List.reverse_reverse, List.getElem?_map, List.getElem?_zipIdx, getElem?_layout]
  cases l[n]? <;> simp

lemma same_ofList_iff [BEq α] (hw : ∀ a b : α, (a == b) = true → width a = width b) :
    (ofList l).same (ofList l') = true ↔ (l == l') = true := by
  rw [same, ofList_eq, ofList_eq, beq_iff_forall₂, List.forall₂_reverse_iff, ← beq_iff_forall₂,
    layout_beq_iff hw]

/-- Where offsets fit, values are pushed as if these had no bounds. -/
lemma foldl_pushWord {v : SlotVec α} (h : v.height + slots l < 18446744073709551616) :
    l.foldl pushWord v = v.append l := by
  induction l generalizing v with
  | nil => rfl
  | cons a l ih =>
    rw [slots_cons] at h
    have hpush : v.pushWord a = v.push a := by
      rw [pushWord, Nat.mod_eq_of_lt (by omega), push]
    change l.foldl pushWord (v.pushWord a) = (v.push a).append l
    rw [hpush, ih (by rw [height_push]; omega)]

/-! ### Iteration -/

section Iteration

omit [Width α]

lemma upward_eq (c : Cursor α) :
    c.upward = (c.left.zipIdx c.position).map fun e => (e.1.1, e.2, e.1.2) := by
  obtain ⟨left, position⟩ := c
  induction left generalizing position with
  | nil => rw [Cursor.upward]; rfl
  | cons e es ih =>
    rw [Cursor.upward]
    change _ :: Cursor.upward ⟨es, position + 1⟩ = _
    rw [ih]
    rfl

/-- Taking entries from the top gives them in the opposite order, with the same positions. -/
lemma downward_eq (c : Cursor α) : c.downward = c.upward.reverse := by
  rw [upward_eq]
  obtain ⟨left, position⟩ := c
  induction left using List.reverseRecOn with
  | nil => rw [Cursor.downward]; rfl
  | append_singleton es e ih =>
    have hback : Cursor.nextBack? ⟨es ++ [e], position⟩ =
        some ((e.1, position + es.length, e.2), ⟨es, position⟩) := by
      simp [Cursor.nextBack?]
    rw [Cursor.downward]
    split
    · rename_i h
      rw [hback] at h
      cases h
    · rename_i x d h
      rw [hback] at h
      cases h
      rw [ih, List.zipIdx_append]
      simp

lemma upward_iter (v : SlotVec α) : v.iter.upward = v.indexed := upward_eq _

end Iteration

/-! ### One operation -/

/-- What an operation does to a plain list, and what a vector with these values should report. -/
def Edit.onList (l : List α) : Edit α → Reply α × List α
  | .new => (.done, [])
  | .push a => (.pushed (slots l), l ++ [a])
  | .pop => (.popped (l.getLast?.map fun a => (slots l.dropLast, l.length - 1, a)), l.dropLast)
  | .clear => (.done, [])
  | .extend as => (.done, l ++ as)
  | .collect as => (.done, as)
  | .update f s _ => (.done, changeAll f s l)

lemma popReport_ofList (l : List α) :
    (ofList l).popReport = ((Edit.pop.onList l).1, ofList (Edit.pop.onList l).2) := by
  induction l using List.reverseRecOn with
  | nil => rfl
  | append_singleton l a _ =>
    rw [← push_ofList, popReport, pop?_push]
    simp [Edit.onList, height_ofList, size_ofList]

/-- Values that keep their widths keep their offsets. -/
lemma zip_changeAll {σ : Type} {f : σ → α → α × σ} (keeps : ∀ s a, width (f s a).1 = width a)
    (s : σ) (o : ℕ) (l : List α) :
    ((layout o l).map Prod.fst).zip (changeAll f s l) = layout o (changeAll f s l) := by
  induction l generalizing s o with
  | nil => rfl
  | cons a l ih => simp [layout, changeAll, keeps, ih]

lemma slots_changeAll {σ : Type} {f : σ → α → α × σ} (keeps : ∀ s a, width (f s a).1 = width a)
    (s : σ) (l : List α) : slots (changeAll f s l) = slots l := by
  induction l generalizing s with
  | nil => rfl
  | cons a l ih => simp [changeAll, keeps, ih]

lemma mapState_ofList {σ : Type} {f : σ → α → α × σ} (keeps : ∀ s a, width (f s a).1 = width a)
    (s : σ) (l : List α) : (ofList l).mapState f s = ofList (changeAll f s l) := by
  unfold mapState
  rw [toList_ofList, ofList_eq l, ofList_eq (changeAll f s l), slots_changeAll keeps]
  simp only [List.reverse_reverse, zip_changeAll keeps]

omit [Width α] in
lemma changeAll_eq_map (f : α → α) (l : List α) :
    changeAll (fun _ a => (f a, ())) () l = l.map f := by
  induction l with
  | nil => rfl
  | cons a l ih => rw [changeAll, ih, List.map_cons]

omit [Width α] in
/-- A change without a state is one that hands on nothing. -/
lemma map_eq_mapState (f : α → α) (v : SlotVec α) :
    v.map f = v.mapState (fun _ a => (f a, ())) () := by
  unfold map mapState toList
  rw [changeAll_eq_map, List.map_map, List.zip_map']
  simp

lemma map_ofList {f : α → α} (keeps : ∀ a, width (f a) = width a) (l : List α) :
    (ofList l).map f = ofList (l.map f) := by
  rw [map_eq_mapState, mapState_ofList fun _ => keeps, changeAll_eq_map]

/-- **One operation** on the vector of a list: it leaves the vector of the list that it makes, if the
offsets of this fit, and reports the place of the value concerned. -/
theorem edit_ofList (l : List α) (e : Edit α)
    (h : slots (e.onList l).2 < 18446744073709551616) :
    (ofList l).edit e = ((e.onList l).1, ofList (e.onList l).2) := by
  have hpushes : ∀ as, slots (l ++ as) < 18446744073709551616 →
      as.foldl pushWord (ofList l) = ofList (l ++ as) := by
    intro as has
    rw [foldl_pushWord (by rwa [height_ofList, ← slots_append]), append_ofList]
  cases e with
  | new => rfl
  | push a =>
    rw [edit, height_ofList]
    exact congrArg (Prod.mk _) (hpushes [a] h)
  | pop => exact popReport_ofList l
  | clear => rfl
  | extend as => exact congrArg (Prod.mk _) (hpushes as h)
  | collect as => exact congrArg (Prod.mk _) (foldl_pushWord (by rwa [empty, Nat.zero_add]))
  | update f s keeps => rw [edit, mapState_ofList keeps]; rfl

/-! ### Any number of operations -/

/-- Operations on a plain list one after the other. -/
def listEdits (l : List α) : List (Edit α) → List (Reply α) × List α
  | [] => ([], l)
  | e :: es =>
    let (reply, l) := e.onList l
    let (replies, l) := listEdits l es
    (reply :: replies, l)

/-- The offsets of every list on the way fit. -/
def Fits (l : List α) : List (Edit α) → Prop
  | [] => True
  | e :: es => slots (e.onList l).2 < 18446744073709551616 ∧ Fits (e.onList l).2 es

theorem edits_ofList (l : List α) (es : List (Edit α)) (h : Fits l es) :
    (ofList l).edits es = ((listEdits l es).1, ofList (listEdits l es).2) := by
  induction es generalizing l with
  | nil => rfl
  | cons e es ih => simp only [edits, listEdits, edit_ofList l e h.1, ih _ h.2]

/-- A vector holds the values of a list: its entries are the values with their positions, each at
the number of slots below it, and its height is the number of slots of all. Going up and going down
gives the same entries in opposite order. -/
structure Holds (v : SlotVec α) (l : List α) : Prop where
  values : v.toList = l
  height : v.height = slots l
  entries : ∀ n, v.indexed[n]? = l[n]?.map fun a => (slots (l.take n), n, a)
  upward : v.iter.upward = v.indexed
  downward : v.iter.downward = v.iter.upward.reverse

lemma holds_ofList (l : List α) : Holds (ofList l) l where
  values := toList_ofList l
  height := height_ofList l
  entries := getElem?_indexed_ofList l
  upward := upward_iter _
  downward := downward_eq _

/-- **A slot vector is a plain list.** After any operations on the way of which offsets fit, a
vector that was empty at first holds the values of the list that the same operations make, and each
push has reported the offset of its value and each pop the offset, the position and the value of the
entry taken. If values are equal only when they have the same width, two such vectors are the same
if and only if the lists are equal, and then they have the same height. -/
theorem edits_hold_lists {es : List (Edit α)} (hes : Fits [] es) :
    (edits .empty es).1 = (listEdits [] es).1 ∧
    Holds (edits .empty es).2 (listEdits [] es).2 ∧
    ∀ [BEq α], (∀ a b : α, (a == b) = true → width a = width b) →
      ∀ es' : List (Edit α), Fits [] es' →
      ((edits .empty es).2.same (edits .empty es').2 = true ↔
        ((listEdits [] es).2 == (listEdits [] es').2) = true) ∧
      ((edits .empty es).2.same (edits .empty es').2 = true →
        (edits .empty es).2.height = (edits .empty es').2.height) := by
  have hrun : ∀ es : List (Edit α), Fits [] es →
      edits .empty es = ((listEdits [] es).1, ofList (listEdits [] es).2) := edits_ofList []
  rw [hrun es hes]
  refine ⟨rfl, holds_ofList _, fun hw es' hes' => ?_⟩
  rw [hrun es' hes', same_ofList_iff hw, height_ofList, height_ofList]
  exact ⟨Iff.rfl, slots_eq_of_beq hw⟩

/-- A stack on which three values are pushed and the top one is taken. -/
theorem edits_hold_lists_stack :
    Fits [] [.extend [VType.int, .long], .push .int, .pop] ∧
      Holds (edits .empty [.extend [VType.int, .long], .push .int, .pop]).2 [.int, .long] ∧
      (edits .empty [.extend [VType.int, .long], .push .int, .pop]).2.same
        (edits .empty [.collect [.int, .long]]).2 = true := by
  have hfits : Fits [] [.extend [VType.int, .long], .push .int, .pop] :=
    ⟨by decide, by decide, by decide, trivial⟩
  obtain ⟨-, hholds, hsame⟩ := edits_hold_lists hfits
  have hwidth : ∀ a b : VType, (a == b) = true → width a = width b :=
    fun a b h => congrArg width (eq_of_beq h)
  exact ⟨hfits, hholds, (hsame hwidth [.collect [.int, .long]] ⟨by decide, trivial⟩).1.2 rfl⟩

/-- Parcels are equal when their labels are, whatever their widths. -/
structure Parcel where
  label : ℕ
  size : ℕ

instance : Width Parcel := ⟨Parcel.size⟩
instance : BEq Parcel := ⟨fun a b => a.label == b.label⟩

/-- The vector of some parcels. -/
def packed (ps : List Parcel) : SlotVec Parcel := (edits .empty [.collect ps]).2

/-- Equal lists of parcels give vectors that are not the same, and vectors that are the same differ
in height. Where offsets do not fit, the height is not the number of slots. A push reports an offset
and no position. -/
theorem vectors_unlike_lists :
    (([⟨0, 1⟩, ⟨1, 1⟩] : List Parcel) == [⟨0, 2⟩, ⟨1, 1⟩]) = true ∧
    (packed [⟨0, 1⟩, ⟨1, 1⟩]).same (packed [⟨0, 2⟩, ⟨1, 1⟩]) = false ∧
    (packed [⟨0, 1⟩]).same (packed [⟨0, 2⟩]) = true ∧
    (packed [⟨0, 1⟩]).height ≠ (packed [⟨0, 2⟩]).height ∧
    (packed [⟨0, 9223372036854775808⟩, ⟨0, 9223372036854775808⟩]).height ≠
      slots ([⟨0, 9223372036854775808⟩, ⟨0, 9223372036854775808⟩] : List Parcel) ∧
    (edits .empty [.push (⟨0, 1⟩ : Parcel)]).1 = [.pushed 0] :=
  ⟨by decide, by decide, by decide, by decide, by decide, rfl⟩

end SlotVec

end Bytecheck
