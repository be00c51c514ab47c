import McpeLauncher.Configuration

/-! # Printed numbers are read back

`std::stoull` and `std::stoi` read blanks, a sign and digits at the front of a text. They give a
printed number back. -/
namespace Cll

/-- What `std::to_string` and the streams print. -/
def decimal (i : Int) : List Char := i.repr.toList

theorem decimal_ofNat (n : Nat) : decimal n = Nat.toDigits 10 n := by exact String.toList_ofList

theorem decimal_neg (n : Nat) : decimal (-(n + 1 : Nat)) = '-' :: Nat.toDigits 10 (n + 1) := by
  show ("-" ++ Nat.repr (n + 1)).toList = _
  rw [String.toList_append]
  exact congrArg ('-' :: ·) String.toList_ofList

variable {c : Char} {i : Int} {n : Nat}

theorem mem_decimal (h : c ∈ decimal i) : c = '-' ∨ c.isDigit = true := by
  have hdigit {n : Nat} (h : c ∈ Nat.toDigits 10 n) : c.isDigit = true :=
    Nat.isDigit_of_mem_toDigits (by decide) (by decide) h
  cases i with
  | ofNat n =>
    rw [Int.ofNat_eq_natCast, decimal_ofNat] at h
    exact .inr (hdigit h)
  | negSucc n =>
    rw [Int.negSucc_eq, ← Int.natCast_add_one, decimal_neg, List.mem_cons] at h
    exact h.imp_right hdigit

theorem leadingDigits_toDigits (n : Nat) : leadingDigits (Nat.toDigits 10 n) = some n := by
  have hdigits : (Nat.toDigits 10 n).takeWhile Char.isDigit = Nat.toDigits 10 n := by
    refine List.takeWhile_eq_self_iff.mpr fun c hc => ?_
    exact Nat.isDigit_of_mem_toDigits (by decide) (by decide) hc
  have hfold := Nat.ofDigitChars_toDigits (b := 10) (n := n) (by decide) (by decide)
  rw [leadingDigits, hdigits]
  split
  · next hnil => exact absurd hnil Nat.toDigits_ne_nil
  · exact congrArg some hfold

theorem isSpace_of_isDigit (h : c.isDigit = true) : isSpace c = false := by
  rw [Char.isDigit, Bool.and_eq_true, decide_eq_true_iff, decide_eq_true_iff] at h
  have hne : c ≠ ' ' := by
    rintro rfl
    exact absurd h.1 (by decide)
  have hgt : ¬ c ≤ '\r' := fun hle => absurd (UInt32.le_trans h.1 hle) (by decide)
  simp [isSpace, hne, hgt]

theorem toDigits_cons (n : Nat) :
    ∃ c digits, Nat.toDigits 10 n = c :: digits ∧ isSpace c = false ∧ c ≠ '-' ∧ c ≠ '+' := by
  obtain ⟨c, digits, hcons⟩ := List.exists_cons_of_ne_nil (Nat.toDigits_ne_nil (b := 10) (n := n))
  have hdigit : c.isDigit = true :=
    Nat.isDigit_of_mem_toDigits (b := 10) (n := n) (by decide) (by decide) (by simp [hcons])
  refine ⟨c, digits, hcons, isSpace_of_isDigit hdigit, ?_, ?_⟩
  · rintro rfl
    exact absurd hdigit (by decide)
  · rintro rfl
    exact absurd hdigit (by decide)

section Unsigned

theorem stoull_ofNat (hn : n < 2 ^ 64) : stoull (String.ofList (Nat.toDigits 10 n)) = some n := by
  obtain ⟨c, digits, hcons, hspace, hminus, hplus⟩ := toDigits_cons n
  have hread := leadingDigits_toDigits n
  rw [hcons] at hread
  rw [stoull, String.toList_ofList, hcons, List.dropWhile_cons_of_neg (by simp [hspace])]
  simpa [hminus, hplus, hread] using hn

theorem stoull_neg (hn : n < 2 ^ 64) :
    stoull (String.ofList ('-' :: Nat.toDigits 10 n)) = some ((2 ^ 64 - n) % 2 ^ 64) := by
  rw [stoull, String.toList_ofList, List.dropWhile_cons_of_neg (by decide)]
  simpa [leadingDigits_toDigits] using hn

theorem stoull_lt {text : String} (h : stoull text = some n) : n < 2 ^ 64 := by
  simp only [stoull, Option.bind_eq_bind, Option.bind_eq_some_iff] at h
  obtain ⟨digits, hdigits, h⟩ := h
  by_cases hbig : 2 ^ 64 ≤ digits
  · rw [if_pos hbig] at h
    cases h
  · rw [if_neg hbig] at h
    have hsign : ∀ negative : Bool,
        (if negative = true then (2 ^ 64 - digits) % 2 ^ 64 else digits) < 2 ^ 64 := by
      intro negative
      cases negative with
      | true => exact Nat.mod_lt _ (by decide)
      | false => exact Nat.lt_of_not_le hbig
    rw [← Option.some.inj h]
    exact hsign _

/-- The number a `long long` holds after an `unsigned long long` was put into it. -/
def toLongLong (n : Nat) : Int := if n < 2 ^ 63 then n else n - 2 ^ 64

theorem stoull_decimal (hlo : -2 ^ 63 ≤ i) (hhi : i < 2 ^ 63) :
    ∃ n, stoull (String.ofList (decimal i)) = some n ∧ toLongLong n = i := by
  rcases Int.eq_nat_or_neg i with ⟨n, rfl | rfl⟩
  · refine ⟨n, ?_, ?_⟩
    · rw [decimal_ofNat, stoull_ofNat (by omega)]
    · rw [toLongLong, if_pos (by omega)]
  · cases n with
    | zero =>
      refine ⟨0, ?_, rfl⟩
      show stoull (String.ofList (decimal ((0 : Nat) : Int))) = _
      rw [decimal_ofNat, stoull_ofNat (by decide)]
    | succ n =>
      refine ⟨_, by rw [decimal_neg, stoull_neg (by omega)], ?_⟩
      rw [toLongLong, if_neg (by omega)]
      omega

end Unsigned

section Signed

theorem stoi_ofNat (hn : n < 2 ^ 31) :
    stoi (String.ofList (Nat.toDigits 10 n)) = some (Int32.ofInt n) := by
  obtain ⟨c, digits, hcons, hspace, hminus, hplus⟩ := toDigits_cons n
  have hread := leadingDigits_toDigits n
  rw [hcons] at hread
  have hrange : -2 ^ 31 ≤ (n : Int) ∧ (n : Int) < 2 ^ 31 := by omega
  rw [stoi, String.toList_ofList, hcons, List.dropWhile_cons_of_neg (by simp [hspace])]
  simpa [hminus, hplus, hread] using hrange

theorem stoi_neg (hn : n ≤ 2 ^ 31) :
    stoi (String.ofList ('-' :: Nat.toDigits 10 n)) = some (Int32.ofInt (-n)) := by
  have hrange : -2 ^ 31 ≤ -(n : Int) ∧ -(n : Int) < 2 ^ 31 := by omega
  rw [stoi, String.toList_ofList, List.dropWhile_cons_of_neg (by decide)]
  simp only [leadingDigits_toDigits, Option.bind_eq_bind, Option.bind_some, if_true]
  rw [if_pos hrange]

theorem stoi_decimal (i : Int32) : stoi (String.ofList (decimal i.toInt)) = some i := by
  have hlo := i.le_toInt
  have hhi := i.toInt_lt
  have hof := i.ofInt_toInt
  rcases Int.eq_nat_or_neg i.toInt with ⟨n, hn | hn⟩
  · rw [hn, decimal_ofNat, stoi_ofNat (by omega), ← hn, hof]
  · cases n with
    | zero =>
      have hzero : i.toInt = ((0 : Nat) : Int) := hn
      rw [hzero, decimal_ofNat, stoi_ofNat (by decide), ← hzero, hof]
    | succ n => rw [hn, decimal_neg, stoi_neg (by omega), ← hn, hof]

end Signed

end Cll
