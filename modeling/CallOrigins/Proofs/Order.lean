import CallOrigins.Method

/-!
# The order of identifiers

Identifiers are ordered by the code points of their texts. This module proves that this is the
order of the UTF-8 bytes as well (`MethodId.before_iff_bytes_lt`), and that the ascending lists
which are built by inserting stay ascending and have the right members.

The bytes of a character are its digits to the base 64 behind a first byte that tells their
number, so a smaller code point has a smaller first byte or, among as many bytes, a smaller
digit at the first place where the two differ.
-/

namespace CallOrigins

namespace Text

/-! ## Code points and bytes -/

/-- The digits of a smaller number to the base 64 come first. -/
private theorem digits_lt {m n : Nat} (h : m < n) :
    m / 262144 < n / 262144 ∨ m / 262144 = n / 262144 ∧ (m / 4096 % 64 < n / 4096 % 64 ∨
      m / 4096 % 64 = n / 4096 % 64 ∧ (m / 64 % 64 < n / 64 % 64 ∨
        m / 64 % 64 = n / 64 % 64 ∧ m % 64 < n % 64)) := by
  have cut : ∀ {x y : Nat}, x < y → x / 64 < y / 64 ∨ x / 64 = y / 64 ∧ x % 64 < y % 64 := by
    intro x y hxy
    omega
  have hm : m / 64 / 64 = m / 4096 ∧ m / 4096 / 64 = m / 262144 :=
    ⟨Nat.div_div_eq_div_mul m 64 64, Nat.div_div_eq_div_mul m 4096 64⟩
  have hn : n / 64 / 64 = n / 4096 ∧ n / 4096 / 64 = n / 262144 :=
    ⟨Nat.div_div_eq_div_mul n 64 64, Nat.div_div_eq_div_mul n 4096 64⟩
  rcases cut h with h0 | ⟨e0, h0⟩
  · rcases cut h0 with h1 | ⟨e1, h1⟩
    · rw [hm.1, hn.1] at h1
      rcases cut h1 with h2 | ⟨e2, h2⟩
      · omega
      · omega
    · omega
  · omega

private theorem ofNat_cons_lt {a b : Nat} (ha : a < 256) (hb : b < 256) (xs ys : List UInt8) :
    UInt8.ofNat a :: xs < UInt8.ofNat b :: ys ↔ a < b ∨ a = b ∧ xs < ys := by
  have heq : UInt8.ofNat a = UInt8.ofNat b ↔ a = b := by
    rw [← UInt8.toNat_inj, UInt8.toNat_ofNat', UInt8.toNat_ofNat']
    omega
  have hlt : UInt8.ofNat a < UInt8.ofNat b ↔ a < b := by
    rw [UInt8.lt_iff_toNat_lt, UInt8.toNat_ofNat', UInt8.toNat_ofNat']
    omega
  rw [List.cons_lt_cons_iff, hlt, heq]

/-- The bytes of a smaller character come first, whatever follows them. -/
theorem utf8EncodeChar_append_lt {c d : Char} (h : c < d) (xs ys : List UInt8) :
    String.utf8EncodeChar c ++ xs < String.utf8EncodeChar d ++ ys := by
  have hcd : c.val.toNat < d.val.toNat := h
  have hd : d.val.toNat < 0x110000 := by
    rcases d.valid with hd | hd
    · exact Nat.lt_trans hd (by decide)
    · exact hd.2
  have digits := digits_lt hcd
  have hd8 : d.val.toNat / 262144 % 8 = d.val.toNat / 262144 := Nat.mod_eq_of_lt (by omega)
  have hc8 : c.val.toNat / 262144 % 8 = c.val.toNat / 262144 := Nat.mod_eq_of_lt (by omega)
  unfold String.utf8EncodeChar
  dsimp only
  -- one case for each pair of widths; where they differ the first byte decides
  repeat' split
  all_goals
    simp (disch := omega) only [List.cons_append, List.nil_append, ofNat_cons_lt]
    omega

private theorem utf8_lt_of_lt {s t : List Char} (h : s < t) :
    s.flatMap String.utf8EncodeChar < t.flatMap String.utf8EncodeChar := by
  induction h with
  | @nil c t =>
    obtain ⟨b, bs, hb⟩ := List.exists_cons_of_ne_nil (String.utf8EncodeChar_ne_nil (c := c))
    rw [List.flatMap_cons, hb]
    exact List.nil_lt_cons _ _
  | rel h => exact utf8EncodeChar_append_lt h _ _
  | cons _ ih => exact List.append_left_lt ih

/-- **The order by code points is the order by UTF-8 bytes.** -/
theorem lt_iff_utf8_lt {s t : List Char} :
    s < t ↔ s.flatMap String.utf8EncodeChar < t.flatMap String.utf8EncodeChar := by
  refine ⟨utf8_lt_of_lt, fun h => ?_⟩
  rcases Std.lt_trichotomy s t with hst | rfl | hts
  · exact hst
  · exact absurd h (List.lt_irrefl _)
  · exact absurd (List.lt_trans h (utf8_lt_of_lt hts)) (List.lt_irrefl _)

/-- The UTF-8 bytes of a text. -/
def bytes (s : String) : List UInt8 :=
  s.toUTF8.data.toList

theorem bytes_eq (s : String) : bytes s = s.toList.flatMap String.utf8EncodeChar := by
  have h := String.toByteArray_ofList (l := s.toList)
  rw [String.ofList_toList] at h
  rw [bytes, String.toUTF8_eq_toByteArray, h, List.utf8Encode, List.toList_data_toByteArray]

end Text

namespace MethodId

/-- The UTF-8 bytes of the text of an identifier. -/
def bytes (m : MethodId) : List UInt8 :=
  m.text.toUTF8.data.toList

theorem bytes_eq (m : MethodId) : m.bytes = m.text.toList.flatMap String.utf8EncodeChar :=
  Text.bytes_eq m.text

/-- Identifiers are ordered by their bytes. -/
theorem before_iff_bytes_lt {a b : MethodId} : a.before b = true ↔ a.bytes < b.bytes := by
  rw [before, decide_eq_true_iff, String.lt_iff, Text.lt_iff_utf8_lt, bytes_eq, bytes_eq]

/-! ## Ascending lists -/

theorem before_trans {a b c : MethodId} (hab : a.before b = true) (hbc : b.before c = true) :
    a.before c = true := by
  rw [before_iff_bytes_lt] at *
  exact List.lt_trans hab hbc

/-- Of two identifiers that differ, one is before the other. -/
theorem before_of_not_before {a b : MethodId} (hne : a ≠ b) (h : a.before b ≠ true) :
    b.before a = true := by
  simp only [before, decide_eq_true_iff, String.lt_iff, ne_eq] at h ⊢
  rcases Std.lt_trichotomy a.text.toList b.text.toList with hlt | heq | hgt
  · exact absurd hlt h
  · exact absurd (congrArg MethodId.mk (String.toList_inj.1 heq)) hne
  · exact hgt

/-- A list in ascending order, in which nothing is repeated. -/
def Ascending (ms : List MethodId) : Prop :=
  ms.Pairwise (fun a b => a.before b = true)

@[simp] theorem mem_insertInto {x m : MethodId} {ms : List MethodId} :
    x ∈ insertInto m ms ↔ x = m ∨ x ∈ ms := by
  induction ms with
  | nil => simp [insertInto]
  | cons y ys ih =>
    unfold insertInto
    split
    next h => simp [h]
    next =>
      split
      · simp
      · rw [List.mem_cons, ih, List.mem_cons]
        exact or_left_comm

theorem Ascending.insertInto {ms : List MethodId} (h : Ascending ms) (m : MethodId) :
    Ascending (insertInto m ms) := by
  induction ms with
  | nil => exact List.pairwise_singleton _ _
  | cons y ys ih =>
    obtain ⟨hy, hys⟩ := List.pairwise_cons.1 h
    unfold MethodId.insertInto
    split
    · exact h
    next hne =>
      split
      next hlt =>
        refine List.pairwise_cons.2 ⟨fun x hx => ?_, h⟩
        rcases List.mem_cons.1 hx with rfl | hx
        · exact hlt
        · exact before_trans hlt (hy x hx)
      next hnlt =>
        refine List.pairwise_cons.2 ⟨fun x hx => ?_, ih hys⟩
        rcases mem_insertInto.1 hx with rfl | hx
        · exact before_of_not_before hne hnlt
        · exact hy x hx

theorem not_before_self (m : MethodId) : m.before m ≠ true := by
  rw [Ne, before_iff_bytes_lt]
  exact List.lt_irrefl m.bytes

/-- An ascending list is determined by its members. -/
theorem Ascending.eq_of_mem_iff {xs ys : List MethodId} (hxs : Ascending xs) (hys : Ascending ys)
    (h : ∀ m, m ∈ xs ↔ m ∈ ys) : xs = ys := by
  have nodup : ∀ {ms : List MethodId}, Ascending ms → ms.Nodup := by
    intro ms hms
    refine hms.imp ?_
    rintro a _ hab rfl
    exact not_before_self a hab
  refine ((List.perm_ext_iff_of_nodup (nodup hxs) (nodup hys)).2 h).eq_of_pairwise ?_ hxs hys
  intro a b _ _ hab hba
  exact absurd (before_trans hab hba) (not_before_self a)

end MethodId
end CallOrigins
