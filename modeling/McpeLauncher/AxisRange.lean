import McpeLauncher.JoystickEvents

/-! # The range of an axis

`LinuxJoystick::poll` divides the distance of an axis from the centre by that of the end on its
side. The centre is the mean of the ends as an `int`, rounded towards zero. -/
namespace Gamepad

/-- A distance from the centre, as a part of that of the end on its side; zero near the centre, and
cut off beyond the ends. -/
def ramp (down up flat distance : ℤ) : ℚ :=
  if |distance| < flat then 0
  else max (-1) (min 1 (if 0 ≤ distance then (distance : ℚ) / up else (distance : ℚ) / down))

section Ramp
variable {down up flat d e : ℤ}

theorem ramp_mem (down up flat d : ℤ) : -1 ≤ ramp down up flat d ∧ ramp down up flat d ≤ 1 := by
  rw [ramp]
  split_ifs with hflat
  · constructor <;> norm_num
  · exact ⟨le_max_left _ _, max_le (by norm_num) (min_le_left _ _)⟩
  · exact ⟨le_max_left _ _, max_le (by norm_num) (min_le_left _ _)⟩

theorem ramp_of_nonneg (hup : 0 < up) (hd : 0 ≤ d) (hflat : flat ≤ d) :
    ramp down up flat d = min 1 ((d : ℚ) / up) := by
  have hpart : (0 : ℚ) ≤ (d : ℚ) / up := by positivity
  have hmin : (0 : ℚ) ≤ min 1 ((d : ℚ) / up) := le_min zero_le_one hpart
  rw [ramp, if_neg (by rw [abs_of_nonneg hd]; omega), if_pos hd, max_eq_right (by linarith)]

theorem ramp_of_neg (hdown : 0 < down) (hd : d < 0) (hflat : flat ≤ -d) :
    ramp down up flat d = max (-1) ((d : ℚ) / down) := by
  have hpart : (d : ℚ) / down < 0 := div_neg_of_neg_of_pos (by exact_mod_cast hd)
    (by exact_mod_cast hdown)
  rw [ramp, if_neg (by rw [abs_of_neg hd]; omega), if_neg (by omega), min_eq_right (by linarith)]

theorem ramp_of_near (h : |d| < flat) : ramp down up flat d = 0 := by rw [ramp, if_pos h]

theorem ramp_zero (down up flat : ℤ) : ramp down up flat 0 = 0 := by
  rw [ramp]
  simp

theorem ramp_pos (hup : 0 < up) (hd : 0 < d) (hflat : flat ≤ d) : 0 < ramp down up flat d := by
  rw [ramp_of_nonneg hup hd.le hflat]
  apply lt_min zero_lt_one
  exact div_pos (by exact_mod_cast hd) (by exact_mod_cast hup)

theorem ramp_neg (hdown : 0 < down) (hd : d < 0) (hflat : flat ≤ -d) : ramp down up flat d < 0 := by
  rw [ramp_of_neg hdown hd hflat]
  apply max_lt (by norm_num)
  exact div_neg_of_neg_of_pos (by exact_mod_cast hd) (by exact_mod_cast hdown)

theorem ramp_eq_zero_iff (hdown : 0 < down) (hup : 0 < up) :
    ramp down up flat d = 0 ↔ d = 0 ∨ |d| < flat := by
  constructor
  · intro hzero
    by_contra hnot
    obtain ⟨hne, hfar⟩ := not_or.mp hnot
    rcases lt_or_gt_of_ne hne with hd | hd
    · rw [abs_of_neg hd] at hfar
      exact (ramp_neg hdown hd (by omega)).ne hzero
    · rw [abs_of_pos hd] at hfar
      exact (ramp_pos hup hd (by omega)).ne' hzero
  · rintro (rfl | hnear)
    · exact ramp_zero down up flat
    · exact ramp_of_near hnear

theorem ramp_nonneg (hup : 0 < up) (hd : 0 ≤ d) : 0 ≤ ramp down up flat d := by
  rcases lt_or_ge d flat with hnear | hfar
  · rw [ramp_of_near (by rw [abs_of_nonneg hd]; exact hnear)]
  · rw [ramp_of_nonneg hup hd hfar]
    exact le_min zero_le_one (by positivity)

theorem ramp_nonpos (hdown : 0 < down) (hd : d ≤ 0) : ramp down up flat d ≤ 0 := by
  rcases hd.eq_or_lt with rfl | hd
  · rw [ramp_zero]
  · rcases lt_or_ge (-d) flat with hnear | hfar
    · rw [ramp_of_near (by rw [abs_of_neg hd]; exact hnear)]
    · exact (ramp_neg hdown hd hfar).le

/-- **A ramp rises.**  On either side it does as a quotient does; the sides meet at zero. -/
theorem ramp_mono (hdown : 0 < down) (hup : 0 < up) (hde : d ≤ e) :
    ramp down up flat d ≤ ramp down up flat e := by
  have hdownQ : (0 : ℚ) < down := by exact_mod_cast hdown
  have hupQ : (0 : ℚ) < up := by exact_mod_cast hup
  have hdeQ : (d : ℚ) ≤ e := by exact_mod_cast hde
  rcases lt_or_ge d 0 with hd | hd
  · rcases lt_or_ge e 0 with he | he
    · by_cases hnear : -e < flat
      · rw [ramp_of_near (d := e) (by rw [abs_of_neg he]; exact hnear)]
        exact ramp_nonpos hdown hd.le
      · rw [ramp_of_neg hdown hd (by omega), ramp_of_neg hdown he (by omega)]
        exact max_le_max le_rfl (div_le_div_of_nonneg_right hdeQ hdownQ.le)
    · exact (ramp_nonpos hdown hd.le).trans (ramp_nonneg hup he)
  · have he : 0 ≤ e := hd.trans hde
    by_cases hnear : d < flat
    · rw [ramp_of_near (d := d) (by rw [abs_of_nonneg hd]; exact hnear)]
      exact ramp_nonneg hup he
    · rw [ramp_of_nonneg hup hd (by omega), ramp_of_nonneg hup he (by omega)]
      exact min_le_min le_rfl (div_le_div_of_nonneg_right hdeQ hupQ.le)

theorem ramp_eq_neg_one (hdown : 0 < down) (hflat : flat ≤ down) (hd : d ≤ -down) :
    ramp down up flat d = -1 := by
  have hdownQ : (0 : ℚ) < down := by exact_mod_cast hdown
  have hdQ : (d : ℚ) ≤ -down := by exact_mod_cast hd
  rw [ramp_of_neg hdown (by omega) (by omega), max_eq_left]
  rw [div_le_iff₀ hdownQ]
  linarith

theorem ramp_eq_one (hup : 0 < up) (hflat : flat ≤ up) (hd : up ≤ d) : ramp down up flat d = 1 := by
  have hupQ : (0 : ℚ) < up := by exact_mod_cast hup
  have hdQ : (up : ℚ) ≤ d := by exact_mod_cast hd
  rw [ramp_of_nonneg hup (by omega) (by omega), min_eq_left]
  rw [le_div_iff₀ hupQ]
  linarith

end Ramp

/-! ## The position of an axis -/

/-- Exact arithmetic, where a quotient by zero has no value. -/
def exact : FloatOps (Option ℚ) where
  ofInt i := some i.toInt
  div x y := x.bind fun a => y.bind fun b => if b = 0 then none else some (a / b)
  neg x := x.map fun a => -a
  lt x y := (x.bind fun a => y.map fun b => decide (a < b)).getD false

theorem exact_div (a : ℚ) {b : ℚ} (hb : b ≠ 0) : exact.div (some a) (some b) = some (a / b) := by
  simp [exact, hb]

theorem exact_lt (a b : ℚ) : exact.lt (some a) (some b) = decide (a < b) := rfl

theorem exact_max (x : ℚ) :
    (if exact.lt (some x) (exact.ofInt (-1)) then exact.ofInt (-1) else some x) =
      some (max (-1) x) := by
  rw [show exact.ofInt (-1) = some (-1) from rfl, exact_lt]
  by_cases h : x < -1
  · rw [if_pos (by simpa using h), max_eq_left h.le]
  · rw [if_neg (by simpa using h), max_eq_right (not_lt.mp h)]

theorem exact_min (x : ℚ) :
    (if exact.lt (exact.ofInt 1) (some x) then exact.ofInt 1 else some x) = some (min 1 x) := by
  rw [show exact.ofInt 1 = some 1 from rfl, exact_lt]
  by_cases h : 1 < x
  · rw [if_pos (by simpa using h), min_eq_left h.le]
  · rw [if_neg (by simpa using h), min_eq_right (not_lt.mp h)]

theorem max_min_one (x : ℚ) : max (-1) (min 1 x) = min 1 (max (-1) x) := by
  rw [max_min_distrib_left, max_eq_right (show (-1 : ℚ) ≤ 1 by norm_num)]

/-- The centre of an axis: the mean of its ends, rounded towards zero. -/
def AxisInfo.centre (a : AxisInfo) : ℤ := (a.min.toInt + a.max.toInt).tdiv 2

/-- The ends are at least two apart, with a small flat part, and nothing overflows. -/
structure AxisInfo.Regular (a : AxisInfo) : Prop where
  wide : a.min.toInt + 2 ≤ a.max.toInt
  flat_lt : 2 * a.flat.toInt < a.max.toInt - a.min.toInt
  min_small : |a.min.toInt| ≤ 2 ^ 30
  max_small : |a.max.toInt| ≤ 2 ^ 30

namespace AxisInfo.Regular
variable {a : AxisInfo} {v : Int32} {x : Int32}

theorem centre_near (a : AxisInfo) :
    2 * a.centre ≤ a.min.toInt + a.max.toInt + 1 ∧
      a.min.toInt + a.max.toInt ≤ 2 * a.centre + 1 := by
  rw [AxisInfo.centre]
  have hdiv := Int.mul_tdiv_add_tmod (a.min.toInt + a.max.toInt) 2
  have hlt := Int.tmod_lt_of_pos (a.min.toInt + a.max.toInt) (show (0 : ℤ) < 2 by decide)
  have hgt := Int.lt_tmod_of_pos (a.min.toInt + a.max.toInt) (show (0 : ℤ) < 2 by decide)
  omega

theorem toInt_of_small {n : ℤ} (hx : x.toInt = n.bmod (2 ^ 32)) (hle : -2 ^ 31 ≤ n)
    (hlt : n < 2 ^ 31) : x.toInt = n := by
  rw [hx, Int.bmod_eq_of_le (by norm_num; omega) (by norm_num; omega)]

theorem toInt_centre (h : a.Regular) : ((a.min + a.max) / 2).toInt = a.centre := by
  have hmin := abs_le.mp h.min_small
  have hmax := abs_le.mp h.max_small
  have hwide := h.wide
  have hsum : (a.min + a.max).toInt = a.min.toInt + a.max.toInt :=
    toInt_of_small (Int32.toInt_add _ _) (by omega) (by omega)
  rw [Int32.toInt_div_of_ne_right _ _ (by decide), hsum]
  rfl

theorem toInt_sub_centre (h : a.Regular) (hv : |v.toInt| ≤ 2 ^ 30) :
    (v - (a.min + a.max) / 2).toInt = v.toInt - a.centre := by
  have hmin := abs_le.mp h.min_small
  have hmax := abs_le.mp h.max_small
  have hv := abs_le.mp hv
  have hwide := h.wide
  have hcentre := centre_near a
  have hsub := Int32.toInt_sub v ((a.min + a.max) / 2)
  rw [h.toInt_centre] at hsub
  exact toInt_of_small hsub (by omega) (by omega)

theorem toInt_abs (hx : -2 ^ 31 < x.toInt) : x.abs.toInt = |x.toInt| := by
  have hne : x.toBitVec ≠ BitVec.intMin 32 := by
    intro heq
    have hmin : x.toInt = (BitVec.intMin 32).toInt := congrArg BitVec.toInt heq
    rw [hmin] at hx
    exact absurd hx (by decide)
  have habs := BitVec.toInt_abs_eq_natAbs_of_ne_intMin hne
  rw [Int.natCast_natAbs] at habs
  exact habs

/-- **The value of a position is that of the ramp** from the centre to the ends. -/
theorem axisValue_eq (h : a.Regular) (hv : |v.toInt| ≤ 2 ^ 30) :
    axisValue exact a v = some (ramp (a.centre - a.min.toInt) (a.max.toInt - a.centre)
      a.flat.toInt (v.toInt - a.centre)) := by
  have hwide := h.wide
  have hcentre := centre_near a
  have hdistance := h.toInt_sub_centre hv
  have hup := h.toInt_sub_centre h.max_small
  have hdown := h.toInt_sub_centre h.min_small
  have hvsmall := abs_le.mp hv
  have hmax := abs_le.mp h.max_small
  set mid := (a.min + a.max) / 2 with hmid
  have hside : v - mid ≥ 0 ↔ 0 ≤ v.toInt - a.centre := by
    rw [ge_iff_le, Int32.le_iff_toInt_le, hdistance]
    rfl
  have hnear : (v - mid).abs < a.flat ↔ |v.toInt - a.centre| < a.flat.toInt := by
    rw [Int32.lt_iff_toInt_lt, toInt_abs (by rw [hdistance]; omega), hdistance]
  have hquotient : (if v - mid ≥ 0
        then exact.div (exact.ofInt (v - mid)) (exact.ofInt (a.max - mid))
        else exact.div (exact.neg (exact.ofInt (v - mid))) (exact.ofInt (a.min - mid))) =
      some (if 0 ≤ v.toInt - a.centre
        then ((v.toInt - a.centre : ℤ) : ℚ) / (a.max.toInt - a.centre : ℤ)
        else ((v.toInt - a.centre : ℤ) : ℚ) / (a.centre - a.min.toInt : ℤ)) := by
    have hupne : ((a.max.toInt - a.centre : ℤ) : ℚ) ≠ 0 := by
      rw [Int.cast_ne_zero]
      omega
    have hdownne : ((a.min.toInt - a.centre : ℤ) : ℚ) ≠ 0 := by
      rw [Int.cast_ne_zero]
      omega
    have hofInt : ∀ i, exact.ofInt i = some (i.toInt : ℚ) := fun _ => rfl
    simp only [hofInt, hdistance, hup, hdown, hside]
    by_cases hpos : 0 ≤ v.toInt - a.centre
    · rw [if_pos hpos, if_pos hpos, exact_div _ hupne]
    · have hneg : exact.neg (some ((v.toInt - a.centre : ℤ) : ℚ)) =
          some (-((v.toInt - a.centre : ℤ) : ℚ)) := rfl
      rw [if_neg hpos, if_neg hpos, hneg, exact_div _ hdownne, neg_div, ← div_neg]
      congr 2
      push_cast
      ring
  have hzero : exact.ofInt 0 = some 0 := rfl
  simp only [axisValue, ← hmid, hquotient, hnear, ramp]
  by_cases hflat : |v.toInt - a.centre| < a.flat.toInt
  · rw [if_pos hflat, if_pos hflat, hzero, exact_max, exact_min]
    norm_num
  · rw [if_neg hflat, if_neg hflat, exact_max, exact_min, max_min_one]

end AxisInfo.Regular

/-- The value of an axis after `poll` has read an event of it. -/
def LinuxJoystick.polled (j : LinuxJoystick (Option ℚ)) (code n : Nat) (v : Int32) : Option ℚ :=
  (j.poll exact [⟨evAbs, code, v⟩]).axisValues n

section Poll
variable {j : LinuxJoystick (Option ℚ)} {code n : Nat} {v : Int32}

theorem polled_eq (hcode : code < absCnt) (hhat : isHat code = false)
    (hn : (j.axis code).index = n) : j.polled code n v = axisValue exact (j.axis code) v := by
  have hmoves : j.MovesAxis ⟨evAbs, code, v⟩ n := ⟨rfl, hhat, hcode, hn⟩
  rw [LinuxJoystick.polled, LinuxJoystick.poll, List.foldl_cons, List.foldl_nil,
    LinuxJoystick.handle_axisValues_of_moves hmoves]

/-- **The value of an axis** is in the range, rises from -1 to 1 between the ends, and is 0 exactly
at the centre and within the flat part. -/
theorem axis_normalised (hcode : code < absCnt) (hhat : isHat code = false)
    (hn : (j.axis code).index = n) (h : (j.axis code).Regular) (hv : |v.toInt| ≤ 2 ^ 30) :
    ∃ q, j.polled code n v = some q ∧ -1 ≤ q ∧ q ≤ 1 ∧
      (∀ w : Int32, |w.toInt| ≤ 2 ^ 30 → v ≤ w → ∃ r, j.polled code n w = some r ∧ q ≤ r) ∧
      (v ≤ (j.axis code).min → q = -1) ∧ ((j.axis code).max ≤ v → q = 1) ∧
      (q = 0 ↔ v.toInt = (j.axis code).centre ∨
        |v.toInt - (j.axis code).centre| < (j.axis code).flat.toInt) := by
  have hwide := h.wide
  have hflat := h.flat_lt
  have hcentre := AxisInfo.Regular.centre_near (j.axis code)
  have hdown : 0 < (j.axis code).centre - (j.axis code).min.toInt := by omega
  have hup : 0 < (j.axis code).max.toInt - (j.axis code).centre := by omega
  refine ⟨_, (polled_eq hcode hhat hn).trans (h.axisValue_eq hv), (ramp_mem _ _ _ _).1,
    (ramp_mem _ _ _ _).2, ?_, ?_, ?_, ?_⟩
  · intro w hw hle
    refine ⟨_, (polled_eq hcode hhat hn).trans (h.axisValue_eq hw), ?_⟩
    have hle := Int32.le_iff_toInt_le.mp hle
    exact ramp_mono hdown hup (by omega)
  · intro hle
    have hle := Int32.le_iff_toInt_le.mp hle
    exact ramp_eq_neg_one hdown (by omega) (by omega)
  · intro hle
    have hle := Int32.le_iff_toInt_le.mp hle
    exact ramp_eq_one hup (by omega) (by omega)
  · rw [ramp_eq_zero_iff hdown hup, sub_eq_zero]

end Poll

def oddAxis : LinuxJoystick (Option ℚ) where
  buttons _ := -1
  axis _ := ⟨0, -3, 4, 2, 0⟩
  buttonValues _ := false
  axisValues _ := none
  hatValues _ := 0
  reports := []

theorem axis_normalised_odd :
    ∃ q, oddAxis.polled 0 0 2 = some q ∧ -1 ≤ q ∧ q ≤ 1 ∧
      (∀ w : Int32, |w.toInt| ≤ 2 ^ 30 → 2 ≤ w → ∃ r, oddAxis.polled 0 0 w = some r ∧ q ≤ r) ∧
      (2 ≤ (oddAxis.axis 0).min → q = -1) ∧ ((oddAxis.axis 0).max ≤ 2 → q = 1) ∧
      (q = 0 ↔ (2 : Int32).toInt = (oddAxis.axis 0).centre ∨
        |(2 : Int32).toInt - (oddAxis.axis 0).centre| < (oddAxis.axis 0).flat.toInt) :=
  axis_normalised (by decide) (by decide) rfl
    ⟨by decide, by decide, by decide, by decide⟩ (by decide)

end Gamepad
