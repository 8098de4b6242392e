import Mathlib
import Ipld.Decimal.Notation
import Ipld.Decimal.Read

/-!
# The characters of number texts

The texts of numbers use few characters. An integer is written with a minus sign and
decimal digits (`toList_toString_int`), a float in plain notation also with a point and the
letters of `NaN` and `inf` (`mem_toText`).

An integer read from a text is written back with characters of that text only
(`mem_of_readInt64`): the minus sign only if the text had one, and the text's digits
without their leading zeros (`-07` is written `-7`, `00` as `0`). The text written can
differ from the text read, but it holds no character the text read does not.
-/

namespace Ipld.Decimal

/-! ## Digits -/

/-- A decimal digit character is the character of a digit value. -/
theorem exists_digitChar_of_isDigit {c : Char} (h : c.isDigit = true) :
    ∃ d < 10, Nat.digitChar d = c := by
  unfold Char.isDigit at h
  simp only [Bool.and_eq_true, decide_eq_true_eq] at h
  have hbounds : 48 ≤ c.toNat ∧ c.toNat ≤ 57 := h
  refine ⟨c.toNat - 48, by omega, ?_⟩
  have hcode : ∀ d < 10, (Nat.digitChar d).toNat = d + 48 := by decide
  rw [← Char.toNat_inj, hcode _ (by omega)]
  omega

theorem digitChar_sub_zero {d : Nat} (h : d < 10) : (Nat.digitChar d).toNat - '0'.toNat = d := by
  interval_cases d <;> rfl

theorem mem_digits_of_isDigit {c : Char} (h : c.isDigit = true) : c ∈ "0123456789".toList := by
  obtain ⟨d, hd, rfl⟩ := exists_digitChar_of_isDigit h
  interval_cases d <;> decide

/-- The digits of a number in base ten are decimal digit characters. -/
theorem mem_digits_of_mem_toDigits {n : Nat} {c : Char} (h : c ∈ Nat.toDigits 10 n) :
    c ∈ "0123456789".toList :=
  mem_digits_of_isDigit (Nat.isDigit_of_mem_toDigits (by decide) (by decide) h)

/-! ## Writing integers -/

/-- An integer is written as the digits of its magnitude, after a minus sign when it is
negative. -/
theorem toList_toString_int (i : Int) :
    (toString i).toList = (if i < 0 then ['-'] else []) ++ Nat.toDigits 10 i.natAbs := by
  cases i with
  | ofNat n => simp [toString, Int.repr, Nat.toList_repr]
  | negSucc n => simp [toString, Int.repr, Nat.toList_repr, Int.negSucc_lt_zero]

/-- An integer's text has a minus sign and decimal digits only. -/
theorem mem_toString_int {i : Int} {c : Char} (h : c ∈ (toString i).toList) :
    c ∈ "-0123456789".toList := by
  rw [toList_toString_int, List.mem_append] at h
  rcases h with hsign | hdigit
  · split at hsign
    · simp_all
    · simp at hsign
  · have hdigits : "0123456789".toList ⊆ "-0123456789".toList := by decide
    exact hdigits (mem_digits_of_mem_toDigits hdigit)

/-! ## Reading integers -/

theorem digitsValue_append (ds : List Char) (c : Char) :
    digitsValue (ds ++ [c]) = digitsValue ds * 10 + (c.toNat - '0'.toNat) := by
  simp [digitsValue, List.foldl_append]

/-- The number a run of digits stands for is written with digits of the run only: the
run's digits past its leading zeros, or one zero. -/
theorem mem_of_mem_toDigits_digitsValue {ds : List Char} (hne : ds ≠ [])
    (hdigits : ∀ c ∈ ds, c.isDigit = true) {c : Char}
    (h : c ∈ Nat.toDigits 10 (digitsValue ds)) : c ∈ ds := by
  induction ds using List.reverseRecOn with
  | nil => exact absurd rfl hne
  | append_singleton ds d ih =>
    obtain ⟨e, he, rfl⟩ := exists_digitChar_of_isDigit (hdigits d (by simp))
    rw [digitsValue_append, digitChar_sub_zero he] at h
    by_cases hzero : digitsValue ds = 0
    · rw [hzero, zero_mul, zero_add, Nat.toDigits_of_lt_base he, List.mem_singleton] at h
      simp [h]
    · have hds : ds ≠ [] := by
        rintro rfl
        exact hzero rfl
      rw [mul_comm, ← Nat.toDigits_append_toDigits (by decide) (Nat.pos_of_ne_zero hzero) he,
        Nat.toDigits_of_lt_base he, List.mem_append, List.mem_singleton] at h
      rcases h with h | rfl
      · exact List.mem_append_left _ (ih hds (fun c hc => hdigits c (List.mem_append_left _ hc)) h)
      · simp

/-- What `spanSign` leaves is a part of the text, and a minus sign it read was in the text. -/
theorem spanSign_subset {cs body : List Char} {neg : Bool} (h : spanSign cs = (neg, body)) :
    body ⊆ cs ∧ (neg = true → '-' ∈ cs) := by
  unfold spanSign at h
  split at h <;> simp_all

/-- The integer read from a text is written with characters of the text only. -/
theorem mem_of_readInt64 {s : String} {i : Int} (h : readInt64 s = some i) {c : Char}
    (hc : c ∈ (toString i).toList) : c ∈ s.toList := by
  unfold readInt64 at h
  rcases hspan : spanSign s.toList with ⟨neg, body⟩
  obtain ⟨hbody, hneg⟩ := spanSign_subset hspan
  simp only [hspan, Option.ite_none_left_eq_some, Option.ite_none_right_eq_some] at h
  obtain ⟨hok, -, hi⟩ := h
  simp only [Bool.or_eq_true, List.isEmpty_iff, Bool.not_eq_true', List.all_eq_false,
    not_or, not_exists, not_and, not_not] at hok
  obtain ⟨hne, hdigits⟩ := hok
  rw [Option.some.injEq] at hi
  subst hi
  rw [toList_toString_int, List.mem_append] at hc
  rcases hc with hsign | hdigit
  · cases neg
    · simp at hsign
      omega
    · simp at hsign
      simp [hsign, hneg rfl]
  · have hmag : (if neg = true then -(digitsValue body : Int) else digitsValue body).natAbs =
        digitsValue body := by
      split <;> simp
    rw [hmag] at hdigit
    exact hbody (mem_of_mem_toDigits_digitsValue hne hdigits hdigit)

/-! ## Writing floats -/

/-- A float laid out positionally from decimal digits has those digits, zeros and a point
only. -/
theorem mem_positional {ds : List Char} {k : Int} {c : Char}
    (hds : ∀ d ∈ ds, d ∈ "0123456789.".toList)
    (h : c ∈ (Notation.plain.positional ds k).toList) : c ∈ "0123456789.".toList := by
  have hzero : '0' ∈ "0123456789.".toList := by decide
  have hpoint : '.' ∈ "0123456789.".toList := by decide
  simp only [Notation.positional, Notation.zeros] at h
  split_ifs at h with hk hpz hkk
  · simp at h
    rcases h with hd | ⟨-, rfl⟩ | rfl | rfl
    all_goals first | exact hds c hd | assumption
  · simp at h
    rcases h with hd | ⟨-, rfl⟩
    · exact hds c hd
    · exact hzero
  · simp at h
    rcases h with hd | rfl | hd
    · exact hds c (List.mem_of_mem_take hd)
    · exact hpoint
    · exact hds c (List.mem_of_mem_drop hd)
  · simp at h
    rcases h with rfl | rfl | ⟨-, rfl⟩ | hd
    all_goals first | exact hds c hd | assumption

/-- The plain text of a float has a sign, digits, a point and the letters of `NaN` and
`inf` only. -/
theorem mem_toText {x : Binary64} {c : Char} (h : c ∈ x.toText.toList) :
    c ∈ "-0123456789.infNa".toList := by
  have hsub : "0123456789.".toList ⊆ "-0123456789.infNa".toList := by decide
  have hsign : ∀ b : Bool, c ∈ (if b then "-" else "").toList → c = '-' := by
    intro b hb
    split at hb <;> simp_all
  unfold Binary64.toText Notation.render at h
  by_cases hnan : x.isNaN
  · rw [if_pos hnan] at h
    simp [Notation.plain] at h
    rcases h with rfl | rfl | rfl <;> decide
  rw [if_neg hnan] at h
  by_cases hinf : x.isInfinite
  · rw [if_pos hinf, String.toList_append, List.mem_append] at h
    rcases h with h | h
    · rw [hsign _ h]
      decide
    · simp [Notation.plain] at h
      rcases h with rfl | rfl | rfl <;> decide
  rw [if_neg hinf] at h
  have hdigits : ∀ d ∈ Nat.toDigits 10 x.shortest.digits, d ∈ "0123456789.".toList := by
    have hpoint : "0123456789".toList ⊆ "0123456789.".toList := by decide
    exact fun d hd => hpoint (mem_digits_of_mem_toDigits hd)
  dsimp only [Notation.plain] at h
  rw [if_pos rfl, String.toList_append, List.mem_append] at h
  rcases h with h | h
  · rw [hsign _ h]
    decide
  · exact hsub (mem_positional hdigits h)

end Ipld.Decimal
