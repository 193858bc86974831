import Mathlib.Tactic.Common
import Bytecheck.CommandLine.Value
import Bytecheck.Proofs.DescriptorText

/-!
Constants on the command line.

A constant is an index, a kind and a value, and the value of a member is an owner, a name and a
descriptor. The reader cuts at the first `=`, at the first `:`, at the first `:` of what is left,
and at the last `.` in front of it. Each cut is exact: it gives two parts back if and only if the
first one, or for the last cut the second one, does not hold the character. Digits hold no `=` and
names no `.`, so the only thing that can go wrong is a colon in an owner or in a name. The main
statement is that a member reads back from the text it is shown by exactly when there is none.
-/

namespace Bytecheck

/-! ### Cuts -/

namespace Text

variable {c : Char} {cs u v : List Char}

lemma splitFirst_eq_some_iff : splitFirst c cs = some (u, v) ↔ cs = u ++ c :: v ∧ c ∉ u := by
  induction cs generalizing u with
  | nil => simp [splitFirst]
  | cons d ds ih =>
    rw [splitFirst]
    by_cases hd : d = c
    · subst hd
      rw [if_pos rfl]
      cases u with
      | nil => simp [eq_comm]
      | cons x u =>
        refine iff_of_false (by simp) ?_
        rintro ⟨h, hx⟩
        exact hx ((List.cons.inj h).1 ▸ List.mem_cons_self)
    · rw [if_neg hd]
      cases u with
      | nil => simp [hd]
      | cons x u =>
        have hiff : (splitFirst c ds).map (fun p => (d :: p.1, p.2)) = some (x :: u, v) ↔
            d = x ∧ splitFirst c ds = some (u, v) := by
          cases splitFirst c ds with
          | none => simp
          | some p => simp [Prod.ext_iff, and_assoc]
        rw [hiff, ih]
        constructor
        · rintro ⟨rfl, rfl, hu⟩
          exact ⟨rfl, by simp [hu, Ne.symm hd]⟩
        · rintro ⟨h, hu⟩
          obtain ⟨rfl, rfl⟩ := List.cons.inj h
          exact ⟨rfl, rfl, fun hc => hu (List.mem_cons_of_mem _ hc)⟩

lemma splitLast_eq_some_iff : splitLast c cs = some (u, v) ↔ cs = u ++ c :: v ∧ c ∉ v := by
  have hmap : splitLast c cs = some (u, v) ↔
      splitFirst c cs.reverse = some (v.reverse, u.reverse) := by
    unfold splitLast
    cases splitFirst c cs.reverse with
    | none => simp
    | some p =>
      simp only [Option.map_some, Option.some.injEq, Prod.ext_iff, List.reverse_eq_iff]
      exact and_comm
  rw [hmap, splitFirst_eq_some_iff, List.mem_reverse, List.reverse_eq_iff]
  simp

end Text

/-! ### Decimal digits -/

namespace Decimal

lemma digits_append (b : Bounds) (negative : Bool) (acc : ℤ) (cs ds : List Char) :
    digits b negative acc (cs ++ ds) =
      digits b negative acc cs >>= fun n => digits b negative n ds := by
  induction cs generalizing acc with
  | nil => rfl
  | cons c cs ih =>
    rw [List.cons_append, digits, digits]
    cases digit? c with
    | none => rfl
    | some d =>
      dsimp only
      generalize (if negative then acc * 10 - d else acc * 10 + d : ℤ) = next
      by_cases hhi : b.hi < next
      · simp only [if_pos hhi]
        rfl
      · by_cases hlo : next < b.lo
        · simp only [if_neg hhi, if_pos hlo]
          rfl
        · simp only [if_neg hhi, if_neg hlo]
          exact ih next

lemma digit?_digitChar : ∀ d < 10, digit? (Nat.digitChar d) = some d := by decide

/-- The digits of a number within bounds give it back: no number on the way is larger. -/
lemma digits_toDigits {b : Bounds} (hlo : b.lo ≤ 0) {n : ℕ} (hhi : (n : ℤ) ≤ b.hi) :
    digits b false 0 (Nat.toDigits 10 n) = .ok (n : ℤ) := by
  induction n using Nat.strongRecOn with
  | ind n ih =>
    have hdigit : ∀ (acc d : ℕ), d < 10 → acc * 10 + d = n →
        digits b false acc [Nat.digitChar d] = .ok (n : ℤ) := by
      intro acc d hd hn
      have hnext : (acc : ℤ) * 10 + (d : ℤ) = n := by omega
      simp only [digits, digit?_digitChar d hd, Bool.false_eq_true, if_false, hnext]
      rw [if_neg (by omega), if_neg (by omega)]
    rw [Nat.toDigits_eq_if (by decide)]
    split
    · rename_i hn
      exact hdigit 0 n hn (by omega)
    · rename_i hn
      rw [digits_append, ih (n / 10) (by omega) (by omega)]
      exact hdigit (n / 10) (n % 10) (by omega) (by omega)

lemma readInt_eq_digits (b : Bounds) {c : Char} {cs : List Char} (hplus : c ≠ '+')
    (hminus : c ≠ '-') : readInt b (c :: cs) = digits b false 0 (c :: cs) := by
  unfold readInt
  split <;> simp_all

lemma readInt_toDigits {b : Bounds} (hlo : b.lo ≤ 0) {n : ℕ} (hhi : (n : ℤ) ≤ b.hi) :
    readInt b (Nat.toDigits 10 n) = .ok (n : ℤ) := by
  have hdigits := digits_toDigits hlo hhi
  cases htext : Nat.toDigits 10 n with
  | nil =>
    have hpos := Nat.length_toDigits_pos (b := 10) (n := n)
    rw [htext] at hpos
    cases hpos
  | cons c cs =>
    have hc : c.isDigit = true :=
      Nat.isDigit_of_mem_toDigits (b := 10) (n := n) (by decide) (by decide)
        (htext ▸ List.mem_cons_self)
    rw [readInt_eq_digits b (by rintro rfl; cases hc) (by rintro rfl; cases hc), ← htext, hdigits]

end Decimal

/-! ### Parts of a constant -/

lemma UnqualifiedName.ofString_eq_ok_iff {s : String} {n : UnqualifiedName} :
    ofString s = .ok n ↔ s = n.text := by
  unfold ofString
  exact checked_ok_iff mk text (fun _ _ => rfl) fun n => ⟨n.legal, rfl⟩

lemma UnqualifiedName.not_mem_of_isReserved (n : UnqualifiedName) {c : Char}
    (hc : isReserved c = true) : c ∉ n.text.toList := by
  intro h
  have := ((isLegal_iff _).1 n.legal).2 c h
  rw [hc] at this
  cases this

namespace CommandLine

lemma cut_ok_iff {c : Char} {expected : String} {cs u v : List Char} :
    cut c expected cs = .ok (u, v) ↔ cs = u ++ c :: v ∧ c ∉ u := by
  rw [← Text.splitFirst_eq_some_iff, cut]
  cases Text.splitFirst c cs <;> simp

lemma short_toDigits {n : ℕ} (h : n ≤ 65535) : short (Nat.toDigits 10 n) = .ok n := by
  have hread : Decimal.readInt .unsigned16 (Nat.toDigits 10 n) = .ok (n : ℤ) :=
    Decimal.readInt_toDigits (by decide) (Int.ofNat_le.2 h)
  unfold short integer
  rw [hread]
  rfl

lemma classConstant_ok_iff {cs : List Char} {r : RefType} :
    classConstant cs = .ok r ↔ cs = r.constantText.toList := by
  rw [classConstant, mapError_ok_iff, RefType.ofConstant_iff, ← String.toList_inj,
    String.toList_ofList]

lemma unqualifiedName_ok_iff {cs : List Char} {n : UnqualifiedName} :
    unqualifiedName cs = .ok n ↔ cs = n.text.toList := by
  rw [unqualifiedName, mapError_ok_iff, UnqualifiedName.ofString_eq_ok_iff, ← String.toList_inj,
    String.toList_ofList]

/-! ### Members -/

/-- The text of a member. -/
def Member.text (m : Member) : String :=
  m.owner.constantText ++ "." ++ m.name.text ++ ":" ++ m.descriptor

/-- Neither the owner nor the name of a member holds a colon. -/
def ColonFree (owner : RefType) (name : UnqualifiedName) : Prop :=
  ':' ∉ owner.constantText.toList ∧ ':' ∉ name.text.toList

lemma member_ok_iff {text : String} {m : Member} :
    member text = .ok m ↔ text = m.text ∧ ColonFree m.owner m.name := by
  have htext : text = m.text ↔ text.toList = (m.owner.constantText.toList ++ '.' ::
      m.name.text.toList) ++ ':' :: m.descriptor.toList := by
    rw [← String.toList_inj]
    simp [Member.text]
  have hcolon : ColonFree m.owner m.name ↔
      ':' ∉ m.owner.constantText.toList ++ '.' :: m.name.text.toList := by
    simp [ColonFree]
  rw [htext, hcolon]
  unfold member
  rw [bind_ok_iff]
  constructor
  · rintro ⟨⟨front, descriptor⟩, hcut, hm⟩
    obtain ⟨hfront, hfree⟩ := cut_ok_iff.1 hcut
    dsimp only at hm
    split at hm
    · cases hm
    · rename_i owner name hsplit
      obtain ⟨rfl, -⟩ := Text.splitLast_eq_some_iff.1 hsplit
      obtain ⟨r, hr, hm⟩ := bind_ok_iff.1 hm
      obtain ⟨n, hn, hm⟩ := bind_ok_iff.1 hm
      cases hm
      rw [classConstant_ok_iff] at hr
      rw [unqualifiedName_ok_iff] at hn
      subst hr hn
      exact ⟨by rw [hfront, String.toList_ofList], hfree⟩
  · rintro ⟨htext, hfree⟩
    refine ⟨_, cut_ok_iff.2 ⟨htext, hfree⟩, ?_⟩
    have hdot : '.' ∉ m.name.text.toList := m.name.not_mem_of_isReserved rfl
    dsimp only
    rw [Text.splitLast_eq_some_iff.2 ⟨rfl, hdot⟩]
    dsimp only
    rw [classConstant_ok_iff.2 rfl, unqualifiedName_ok_iff.2 rfl, String.ofList_toList]
    rfl

lemma fieldConstant_eq_ok_iff {text : String} {f : FieldRef} :
    fieldConstant text = .ok (.field f) ↔
      text = inspect f ∧ ColonFree (.object f.owner) f.name := by
  unfold fieldConstant
  rw [bind_ok_iff]
  constructor
  · rintro ⟨m, hm, hf⟩
    obtain ⟨rfl, hfree⟩ := member_ok_iff.1 hm
    obtain ⟨owner, name, descriptor⟩ := m
    dsimp only at hf
    split at hf
    · obtain ⟨t, ht, hf⟩ := bind_ok_iff.1 hf
      cases hf
      rw [mapError_ok_iff] at ht
      rw [show descriptor = t.render from FieldType.scan_exact.parse_iff.1 ht]
      exact ⟨rfl, hfree⟩
    · cases hf
  · rintro ⟨rfl, hfree⟩
    refine ⟨⟨.object f.owner, f.name, f.type.render⟩, member_ok_iff.2 ⟨rfl, hfree⟩, ?_⟩
    dsimp only
    rw [show FieldType.parse f.type.render = .ok f.type from FieldType.scan_exact.parse_iff.2 rfl]
    rfl

lemma methodConstant_eq_ok_iff {onInterface : Bool} {text : String} {m : MethodRef} :
    methodConstant onInterface text = .ok (.method m) ↔
      text = inspect m ∧ m.onInterface = onInterface ∧ ColonFree m.owner m.name := by
  unfold methodConstant
  rw [bind_ok_iff]
  constructor
  · rintro ⟨k, hk, hm⟩
    obtain ⟨rfl, hfree⟩ := member_ok_iff.1 hk
    obtain ⟨d, hd, hm⟩ := bind_ok_iff.1 hm
    cases hm
    rw [mapError_ok_iff] at hd
    refine ⟨?_, rfl, hfree⟩
    rw [Member.text, show k.descriptor = d.render from MethodDescriptor.scan_exact.parse_iff.1 hd]
    rfl
  · rintro ⟨rfl, rfl, hfree⟩
    refine ⟨⟨m.owner, m.name, m.descriptor.render⟩, member_ok_iff.2 ⟨rfl, hfree⟩, ?_⟩
    rw [show MethodDescriptor.parse m.descriptor.render = .ok m.descriptor from
      MethodDescriptor.scan_exact.parse_iff.2 rfl]
    rfl

/-! ### Constants -/

/-- The index of a constant holds no `=` and its kind no colon, so its value may hold anything. -/
lemma constant_ok_iff {n : ℕ} (h : n ≤ 65535) {kind : String} (hkind : ':' ∉ kind.toList)
    {value : String} {e : ConstantEntry} :
    constant (inspect n ++ ("=" ++ kind ++ ":") ++ value) = .ok (n, e) ↔
      entry kind value.toList = .ok e := by
  have hindex : '=' ∉ Nat.toDigits 10 n := fun hmem =>
    absurd (Nat.isDigit_of_mem_toDigits (by decide) (by decide) hmem) (by decide)
  have htext : (inspect n ++ ("=" ++ kind ++ ":") ++ value).toList =
      Nat.toDigits 10 n ++ '=' :: (kind.toList ++ ':' :: value.toList) := by
    have hn : (inspect n).toList = Nat.toDigits 10 n := Nat.toList_repr
    simp [hn]
  unfold constant
  rw [cut_ok_iff.2 ⟨htext, hindex⟩]
  change (cut ':' "KIND:VALUE" (kind.toList ++ ':' :: value.toList) >>= _) = _ ↔ _
  rw [cut_ok_iff.2 ⟨rfl, hkind⟩]
  change (entry (String.ofList kind.toList) value.toList >>= _) = _ ↔ _
  rw [String.ofList_toList, short_toDigits h, bind_ok_iff]
  constructor
  · rintro ⟨e', he, hpair⟩
    cases hpair
    exact he
  · exact fun he => ⟨e, he, rfl⟩

lemma constant_field_iff {n : ℕ} (h : n ≤ 65535) (f : FieldRef) :
    constant (inspect n ++ "=field:" ++ inspect f) = .ok (n, .field f) ↔
      ColonFree (.object f.owner) f.name := by
  have hentry : entry "field" (inspect f).toList = fieldConstant (inspect f) :=
    congrArg fieldConstant String.ofList_toList
  refine (constant_ok_iff h (show ':' ∉ "field".toList by decide)).trans ?_
  rw [hentry, fieldConstant_eq_ok_iff]
  exact and_iff_right rfl

/-- Both kinds of methods; the kind says whether the method is one of an interface. -/
lemma constant_method_iff {n : ℕ} (h : n ≤ 65535) {kind : String} (hkind : ':' ∉ kind.toList)
    {onInterface : Bool}
    (hentry : ∀ value, entry kind value = methodConstant onInterface (String.ofList value))
    (m : MethodRef) :
    constant (inspect n ++ ("=" ++ kind ++ ":") ++ inspect m) =
        .ok (n, .method { m with onInterface := onInterface }) ↔
      ColonFree m.owner m.name := by
  rw [constant_ok_iff h hkind, hentry, String.ofList_toList, methodConstant_eq_ok_iff]
  exact (and_iff_right rfl).trans (and_iff_right rfl)

/-- **Members read back from the texts they are shown by.** For every index of two bytes and every
field or method, the text of the constant reads as the index and the member if and only if no colon
is in the owner or the name; all other characters may stand in them, and any in the descriptor. -/
theorem constant_inspect_iff (i : UInt16) :
    (∀ f : FieldRef, constant (inspect i.toNat ++ "=field:" ++ inspect f) =
        .ok (i.toNat, .field f) ↔
      ':' ∉ f.owner.text.toList ∧ ':' ∉ f.name.text.toList) ∧
    ∀ m : MethodRef,
      (constant (inspect i.toNat ++ "=method:" ++ inspect m) =
          .ok (i.toNat, .method { m with onInterface := false }) ↔
        ':' ∉ m.owner.constantText.toList ∧ ':' ∉ m.name.text.toList) ∧
      (constant (inspect i.toNat ++ "=imethod:" ++ inspect m) =
          .ok (i.toNat, .method { m with onInterface := true }) ↔
        ':' ∉ m.owner.constantText.toList ∧ ':' ∉ m.name.text.toList) := by
  have hi : i.toNat ≤ 65535 := Nat.le_of_lt_succ i.toNat_lt
  refine ⟨constant_field_iff hi, fun m => ⟨?_, ?_⟩⟩
  · exact constant_method_iff hi (show ':' ∉ "method".toList by decide) (fun _ => rfl) m
  · exact constant_method_iff hi (show ':' ∉ "imethod".toList by decide) (fun _ => rfl) m

end CommandLine

end Bytecheck
