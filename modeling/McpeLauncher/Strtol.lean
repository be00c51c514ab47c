import McpeLauncher.Numerals

/-! # Numbers at the front of a text

`strtol` in base ten: blanks, a sign and digits, with their number; beyond the range of `long` it is
the end of the range, and `none` where there are no digits. `Numeral` says which numbers stand at
the front of a text, and `strtol_iff` that these are read. -/
namespace Strtol
open Cll List

def saturate (bits : Nat) (i : Int) : Int := max (-2 ^ (bits - 1)) (min i (2 ^ (bits - 1) - 1))

/-- The sign, and what is behind it. -/
def sign : List Char → Bool × List Char
  | '-' :: text => (true, text)
  | '+' :: text => (false, text)
  | text => (false, text)

/-- `strtol(text, &end, 10)`: the number, and `end - text`. -/
def strtol (bits : Nat) (text : List Char) : Option (Int × Nat) :=
  let signed := text.dropWhile isSpace
  let (negative, digits) := sign signed
  match leadingDigits digits with
  | none => none
  | some n => some (saturate bits (if negative then -n else n),
      text.length - (digits.dropWhile Char.isDigit).length)

def value (digits : List Char) : Nat := digits.foldl (fun n c => 10 * n + (c.toNat - '0'.toNat)) 0

/-- Digits, and no digit behind them. -/
structure Digits (digits rest : List Char) : Prop where
  ne_nil : digits ≠ []
  isDigit : ∀ c ∈ digits, c.isDigit = true
  rest : ∀ c, rest.head? = some c → c.isDigit = false

/-- The text starts with blanks, a sign or none, and digits: a number of `n` characters. -/
def Numeral (text : List Char) (i : Int) (n : Nat) : Prop :=
  ∃ blanks sgn digits rest, text = blanks ++ (sgn ++ (digits ++ rest)) ∧
    (∀ c ∈ blanks, isSpace c = true) ∧ Digits digits rest ∧
    n = blanks.length + sgn.length + digits.length ∧
    ((sgn = [] ∨ sgn = ['+']) ∧ i = value digits ∨ sgn = ['-'] ∧ i = -value digits)

variable {c : Char} {i : Int} {n : Nat} {text digits rest : List Char} {bits : Nat}

theorem Digits.cons (h : Digits digits rest) :
    ∃ c tail, digits = c :: tail ∧ c.isDigit = true := by
  obtain ⟨c, tail, rfl⟩ := exists_cons_of_ne_nil h.ne_nil
  exact ⟨c, tail, rfl, h.isDigit c mem_cons_self⟩

theorem Digits.takeWhile (h : Digits digits rest) :
    (digits ++ rest).takeWhile Char.isDigit = digits := by
  rw [takeWhile_append_of_pos h.isDigit]
  cases rest with
  | nil => simp
  | cons c rest => rw [takeWhile_cons_of_neg (by simp [h.rest c rfl]), append_nil]

theorem Digits.dropWhile (h : Digits digits rest) :
    (digits ++ rest).dropWhile Char.isDigit = rest := by
  have hsplit := takeWhile_append_dropWhile (p := Char.isDigit) (l := digits ++ rest)
  rw [h.takeWhile] at hsplit
  exact append_cancel_left hsplit

theorem leadingDigits_iff : leadingDigits text = some n ↔
    ∃ digits rest, text = digits ++ rest ∧ Digits digits rest ∧ n = value digits := by
  constructor
  · intro h
    refine ⟨text.takeWhile Char.isDigit, text.dropWhile Char.isDigit,
      takeWhile_append_dropWhile.symm, ⟨?_, fun c hc => mem_takeWhile_imp hc, fun c hc => ?_⟩, ?_⟩
    · intro hnil
      rw [leadingDigits, hnil] at h
      cases h
    · have := head?_dropWhile_not Char.isDigit text
      rw [hc] at this
      exact this
    · rw [leadingDigits] at h
      split at h
      · cases h
      · exact (Option.some.inj h).symm
  · rintro ⟨digits, rest, rfl, h, rfl⟩
    rw [leadingDigits, h.takeWhile]
    obtain ⟨c, tail, rfl, -⟩ := h.cons
    rfl

theorem sign_cases (text : List Char) :
    (∃ rest, text = '-' :: rest ∧ sign text = (true, rest)) ∨
      (∃ rest, text = '+' :: rest ∧ sign text = (false, rest)) ∨ sign text = (false, text) := by
  unfold sign
  split
  · exact .inl ⟨_, rfl, rfl⟩
  · exact .inr (.inl ⟨_, rfl, rfl⟩)
  · exact .inr (.inr rfl)

theorem sign_of_isDigit (hc : c.isDigit = true) : sign (c :: text) = (false, c :: text) := by
  rcases sign_cases (c :: text) with ⟨rest, heq, -⟩ | ⟨rest, heq, -⟩ | h
  · obtain rfl := head_eq_of_cons_eq heq
    exact absurd hc (by decide)
  · obtain rfl := head_eq_of_cons_eq heq
    exact absurd hc (by decide)
  · exact h

/-- Behind blanks and a sign, the digits are read. -/
theorem strtol_signed (sgn : List Char) {blanks tail : List Char} {negative : Bool}
    (hblanks : ∀ c ∈ blanks, isSpace c = true)
    (hspace : ∀ c, (sgn ++ tail).head? = some c → isSpace c = false)
    (hsign : sign (sgn ++ tail) = (negative, tail)) :
    strtol bits (blanks ++ (sgn ++ tail)) = some (i, n) ↔
      ∃ digits rest, tail = digits ++ rest ∧ Digits digits rest ∧
        i = saturate bits (if negative then -value digits else value digits) ∧
        n = blanks.length + sgn.length + digits.length := by
  have hdrop : (blanks ++ (sgn ++ tail)).dropWhile isSpace = sgn ++ tail := by
    rw [dropWhile_append_of_pos hblanks]
    generalize sgn ++ tail = signed at hspace
    cases signed with
    | nil => rfl
    | cons c signed => exact dropWhile_cons_of_neg (by simp [hspace c rfl])
  have hlength : ∀ digits rest : List Char, (blanks ++ (sgn ++ (digits ++ rest))).length -
      rest.length = blanks.length + sgn.length + digits.length := by
    intro digits rest
    simp only [length_append]
    omega
  simp only [strtol, hdrop, hsign]
  constructor
  · intro h
    split at h
    · cases h
    · next m hm =>
      obtain ⟨digits, rest, rfl, hdigits, rfl⟩ := leadingDigits_iff.mp hm
      obtain ⟨rfl, rfl⟩ := Prod.mk.inj (Option.some.inj h)
      exact ⟨digits, rest, rfl, hdigits, rfl, by rw [hdigits.dropWhile, hlength]⟩
  · rintro ⟨digits, rest, rfl, hdigits, rfl, rfl⟩
    rw [leadingDigits_iff.mpr ⟨digits, rest, rfl, hdigits, rfl⟩, hdigits.dropWhile, hlength]

/-- **What `strtol` reads.** -/
theorem strtol_iff : strtol bits text = some (i, n) ↔
    ∃ v, Numeral text v n ∧ i = saturate bits v := by
  constructor
  · have hblanks : ∀ c ∈ text.takeWhile isSpace, isSpace c = true := fun c hc =>
      mem_takeWhile_imp hc
    have hspace : ∀ c, (text.dropWhile isSpace).head? = some c → isSpace c = false := by
      intro c hc
      have := head?_dropWhile_not isSpace text
      rwa [hc] at this
    rw [← takeWhile_append_dropWhile (p := isSpace) (l := text)]
    generalize text.takeWhile isSpace = blanks at hblanks
    generalize text.dropWhile isSpace = signed at hspace
    intro h
    rcases sign_cases signed with ⟨tail, rfl, hsign⟩ | ⟨tail, rfl, hsign⟩ | hsign
    · obtain ⟨digits, rest, rfl, hdigits, hi, hn⟩ :=
        (strtol_signed ['-'] hblanks hspace hsign).mp h
      exact ⟨_, ⟨blanks, ['-'], digits, rest, rfl, hblanks, hdigits, hn, .inr ⟨rfl, rfl⟩⟩, hi⟩
    · obtain ⟨digits, rest, rfl, hdigits, hi, hn⟩ :=
        (strtol_signed ['+'] hblanks hspace hsign).mp h
      exact ⟨_, ⟨blanks, ['+'], digits, rest, rfl, hblanks, hdigits, hn,
        .inl ⟨.inr rfl, rfl⟩⟩, hi⟩
    · obtain ⟨digits, rest, rfl, hdigits, hi, hn⟩ :=
        (strtol_signed [] hblanks hspace hsign).mp h
      exact ⟨_, ⟨blanks, [], digits, rest, rfl, hblanks, hdigits, hn, .inl ⟨.inl rfl, rfl⟩⟩, hi⟩
  · rintro ⟨v, ⟨blanks, sgn, digits, rest, rfl, hblanks, hdigits, rfl, hv⟩, rfl⟩
    have hread : ∀ negative, (∀ c, (sgn ++ (digits ++ rest)).head? = some c → isSpace c = false) →
        sign (sgn ++ (digits ++ rest)) = (negative, digits ++ rest) →
        strtol bits (blanks ++ (sgn ++ (digits ++ rest))) =
          some (saturate bits (if negative then -value digits else value digits), _) :=
      fun negative hspace hsign =>
        (strtol_signed sgn hblanks hspace hsign).mpr ⟨digits, rest, rfl, hdigits, rfl, rfl⟩
    rcases hv with ⟨rfl | rfl, rfl⟩ | ⟨rfl, rfl⟩
    · obtain ⟨c, tail, rfl, hc⟩ := hdigits.cons
      exact hread false (fun _ h => Option.some.inj h ▸ isSpace_of_isDigit hc) (sign_of_isDigit hc)
    · exact hread false (fun _ h => Option.some.inj h ▸ by decide) rfl
    · exact hread true (fun _ h => Option.some.inj h ▸ by decide) rfl

theorem Numeral.length (h : Numeral text i n) : 0 < n ∧ n ≤ text.length := by
  obtain ⟨blanks, sgn, digits, rest, rfl, -, hdigits, rfl, -⟩ := h
  have hpos := length_pos_iff.mpr hdigits.ne_nil
  simp only [length_append]
  omega

/-- A number starts with a blank, a sign or a digit. -/
theorem Numeral.head? (h : Numeral text i n) :
    ∃ c, text.head? = some c ∧ (isSpace c = true ∨ c.isDigit = true ∨ c = '-' ∨ c = '+') := by
  obtain ⟨blanks, sgn, digits, rest, rfl, hblanks, hdigits, -, hsgn⟩ := h
  obtain ⟨c, tail, rfl, hc⟩ := hdigits.cons
  cases blanks with
  | cons b blanks => exact ⟨b, rfl, .inl (hblanks b mem_cons_self)⟩
  | nil =>
    rcases hsgn with ⟨rfl | rfl, -⟩ | ⟨rfl, -⟩
    · exact ⟨c, rfl, .inr (.inl hc)⟩
    · exact ⟨'+', rfl, by simp⟩
    · exact ⟨'-', rfl, by simp⟩

theorem Numeral.head?_ne (h : Numeral text i n) (hspace : isSpace c = false)
    (hdigit : c.isDigit = false) (hminus : c ≠ '-') (hplus : c ≠ '+') : text.head? ≠ some c := by
  intro hc
  obtain ⟨d, hd, hcases⟩ := h.head?
  obtain rfl := Option.some.inj (hc.symm.trans hd)
  rcases hcases with h | h | h | h
  · exact absurd h (by simp [hspace])
  · exact absurd h (by simp [hdigit])
  · exact hminus h
  · exact hplus h

/-- A number that starts with a digit has no blanks and no sign. -/
theorem Numeral.of_isDigit (h : Numeral text i n) (hc : text.head? = some c)
    (hdigit : c.isDigit = true) :
    ∃ digits rest, text = digits ++ rest ∧ Digits digits rest ∧ i = value digits ∧
      n = digits.length := by
  obtain ⟨blanks, sgn, digits, rest, rfl, hblanks, hdigits, rfl, hsgn⟩ := h
  cases blanks with
  | cons b blanks =>
    obtain rfl := Option.some.inj hc
    exact absurd (hblanks b mem_cons_self) (by simp [isSpace_of_isDigit hdigit])
  | nil =>
    rcases hsgn with ⟨rfl | rfl, rfl⟩ | ⟨rfl, -⟩
    · exact ⟨digits, rest, rfl, hdigits, rfl, by simp⟩
    · obtain rfl := Option.some.inj hc
      exact absurd hdigit (by decide)
    · obtain rfl := Option.some.inj hc
      exact absurd hdigit (by decide)

theorem strtol_length (h : strtol bits text = some (i, n)) : 0 < n ∧ n ≤ text.length := by
  obtain ⟨v, hnumeral, -⟩ := strtol_iff.mp h
  exact hnumeral.length

theorem Digits.numeral (h : Digits digits rest) :
    Numeral (digits ++ rest) (value digits) digits.length :=
  ⟨[], [], digits, rest, rfl, by simp, h, by simp, .inl ⟨.inl rfl, rfl⟩⟩

theorem value_pos (hc : c.isDigit = true) (hzero : c ≠ '0') : 0 < value (c :: digits) := by
  have hgrows (n : Nat) (digits : List Char) :
      n ≤ digits.foldl (fun n c => 10 * n + (c.toNat - '0'.toNat)) n := by
    induction digits generalizing n with
    | nil => exact le_refl n
    | cons d digits ih =>
      have hstep : n ≤ 10 * n + (d.toNat - '0'.toNat) := by omega
      exact le_trans hstep (ih _)
  have hfirst : 0 < 10 * 0 + (c.toNat - '0'.toNat) := by
    rw [Char.isDigit, Bool.and_eq_true, decide_eq_true_iff, decide_eq_true_iff] at hc
    have hle : '0'.toNat ≤ c.toNat := UInt32.le_iff_toNat_le.mp hc.1
    have hne : c.toNat ≠ '0'.toNat := fun heq => hzero (Char.toNat_inj.mp heq)
    omega
  exact lt_of_lt_of_le hfirst (hgrows _ digits)

theorem saturate_of_range (hlo : -2 ^ (bits - 1) ≤ i) (hhi : i < 2 ^ (bits - 1)) :
    saturate bits i = i := by
  rw [saturate]
  omega

theorem saturate_natCast (bits n : Nat) :
    saturate bits n = ((min n (2 ^ (bits - 1) - 1) : Nat) : Int) := by
  have hpos : 0 < 2 ^ (bits - 1) := by positivity
  have hpow : (2 : Int) ^ (bits - 1) = ((2 ^ (bits - 1) : Nat) : Int) := by push_cast; rfl
  rw [saturate, hpow]
  omega

theorem strtol_decimal (hlo : -2 ^ (bits - 1) ≤ i) (hhi : i < 2 ^ (bits - 1))
    (hrest : ∀ c, rest.head? = some c → c.isDigit = false) :
    strtol bits (decimal i ++ rest) = some (i, (decimal i).length) := by
  refine strtol_iff.mpr ⟨i, ?_, (saturate_of_range hlo hhi).symm⟩
  have hdigits (n : Nat) : Digits (Nat.toDigits 10 n) rest :=
    ⟨Nat.toDigits_ne_nil, fun c hc => Nat.isDigit_of_mem_toDigits (by decide) (by decide) hc, hrest⟩
  have hvalue (n : Nat) : value (Nat.toDigits 10 n) = n :=
    Nat.ofDigitChars_toDigits (b := 10) (n := n) (by decide) (by decide)
  cases i with
  | ofNat n =>
    have hnumeral := (hdigits n).numeral
    rw [hvalue] at hnumeral
    rwa [Int.ofNat_eq_natCast, decimal_ofNat]
  | negSucc n =>
    rw [Int.negSucc_eq, ← Int.natCast_add_one, decimal_neg]
    exact ⟨[], ['-'], _, rest, rfl, by simp, hdigits (n + 1), by simp [add_comm],
      .inr ⟨rfl, by rw [hvalue]⟩⟩

end Strtol
