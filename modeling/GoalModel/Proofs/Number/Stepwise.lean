import GoalModel.Number.Stepwise
import GoalModel.Proofs.Number.ReadBack
import Mathlib.Data.Nat.Log

/-! # Literals read in steps are finite, and short ones are exact

Rounding keeps the order (`Number.rankOfQuotient_mono`), so a quotient by a power of ten is no
greater than what is divided, and a literal that is read in steps never becomes infinite
(`Number.isFinite_of_stepwise?`). Integers below `2 ^ 53` and powers of ten up to `10 ^ 22` are
exact: of literals within these bounds only the last step rounds, and the outcome is the nearest
number (`Number.stepwise?_eq_ofLiteral`). -/

namespace GoalModel.Number

/-! ## Rounding keeps the order -/

theorem roundHalfEven_le (n d : Nat) : roundHalfEven n d ≤ n / d + 1 := by
  unfold roundHalfEven
  split
  · exact Nat.le_succ _
  · exact Nat.le_refl _

theorem le_roundHalfEven (n d : Nat) : n / d ≤ roundHalfEven n d := by
  unfold roundHalfEven
  split
  · exact Nat.le_refl _
  · exact Nat.le_succ _

theorem roundHalfEven_mono {n m : Nat} (h : n ≤ m) (d : Nat) :
    roundHalfEven n d ≤ roundHalfEven m d := by
  rcases Nat.lt_or_eq_of_le (Nat.div_le_div_right (c := d) h) with hlt | heq
  · exact Nat.le_trans (roundHalfEven_le n d) (Nat.le_trans hlt (le_roundHalfEven m d))
  · have hn := Nat.div_add_mod n d
    have hm := Nat.div_add_mod m d
    rw [← heq] at hm
    unfold roundHalfEven
    rw [← heq]
    split <;> split <;> omega

/-- The significand of a quotient has at most 53 bits, and then the carry. -/
theorem roundHalfEven_scaled_le (n d : Nat) :
    roundHalfEven n (d <<< ((n / d).log2 - 52)) ≤ 2 * binade := by
  have hlt : n / (d <<< ((n / d).log2 - 52)) < 2 ^ 53 := by
    rw [Nat.shiftLeft_eq, ← Nat.div_div_eq_div_mul, Nat.div_lt_iff_lt_mul (Nat.two_pow_pos _),
      ← Nat.pow_add]
    exact Nat.lt_of_lt_of_le Nat.lt_log2_self (Nat.pow_le_pow_right (by decide) (by omega))
  exact (roundHalfEven_le _ _).trans hlt

/-- It has no fewer, unless the scale is the least one. -/
theorem le_roundHalfEven_scaled {n d : Nat} (hs : 0 < (n / d).log2 - 52) :
    binade ≤ roundHalfEven n (d <<< ((n / d).log2 - 52)) := by
  have hne : n / d ≠ 0 := by
    intro hzero
    rw [hzero, Nat.log2_zero] at hs
    omega
  refine Nat.le_trans ?_ (le_roundHalfEven _ _)
  rw [Nat.shiftLeft_eq, ← Nat.div_div_eq_div_mul, Nat.le_div_iff_mul_le (Nat.two_pow_pos _)]
  have hpow : binade * 2 ^ ((n / d).log2 - 52) = 2 ^ (n / d).log2 := by
    rw [show binade = 2 ^ 52 from rfl, ← Nat.pow_add]
    congr 1
    omega
  rw [hpow]
  exact Nat.log2_self_le hne

/-- A greater quotient has a greater significand, or a greater scale by which its significand,
even the least one, outweighs the other with its carry. -/
theorem rankOfQuotient_mono {n m : Nat} (h : n ≤ m) (d : Nat) :
    (rankOfQuotient n d).val ≤ (rankOfQuotient m d).val := by
  have hscaled : n * unitsOfOne ≤ m * unitsOfOne := Nat.mul_le_mul_right _ h
  simp only [rankOfQuotient]
  generalize n * unitsOfOne = a, m * unitsOfOne = b at hscaled ⊢
  refine min_le_min_right _ ?_
  have hscale : (a / d).log2 - 52 ≤ (b / d).log2 - 52 := by
    rw [Nat.log2_eq_log_two, Nat.log2_eq_log_two]
    exact Nat.sub_le_sub_right (Nat.log_mono_right (Nat.div_le_div_right hscaled)) _
  rcases Nat.lt_or_eq_of_le hscale with hlt | heq
  · have hcarry := roundHalfEven_scaled_le a d
    have hleast := le_roundHalfEven_scaled (Nat.zero_lt_of_lt hlt)
    have hbinade := Nat.mul_le_mul_right binade hlt
    rw [Nat.succ_mul] at hbinade
    omega
  · rw [heq]
    exact Nat.add_le_add_left (roundHalfEven_mono hscaled _) _

theorem rankOfQuotient_anti {d e : Nat} (hd : 0 < d) (h : d ≤ e) (n : Nat) :
    (rankOfQuotient n e).val ≤ (rankOfQuotient n d).val := by
  rw [← rankOfQuotient_mul hd, ← rankOfQuotient_mul (n := n) (d := d) (hd.trans_le h),
    Nat.mul_comm e d]
  exact rankOfQuotient_mono (Nat.mul_le_mul_left n h) _

theorem units_mono {a b : Nat} (h : a ≤ b) : units a ≤ units b := by
  have ha := scale_add_significand a
  have hb := scale_add_significand b
  rcases Nat.lt_or_ge (scale a) (scale b) with hlt | hge
  · have hnormal : binade ≤ significand b := by
      unfold scale at hlt
      unfold significand
      split
      · next hsmall =>
        rw [Nat.div_eq_of_lt hsmall] at hlt
        omega
      · exact Nat.le_add_right ..
    calc units a ≤ 2 ^ 53 * 2 ^ (scale b - 1) := (units_lt (by omega)).le
      _ = binade * 2 ^ scale b := by
        rw [show binade = 2 ^ 52 from rfl, ← Nat.pow_add, ← Nat.pow_add]
        congr 1
        omega
      _ ≤ units b := by
        rw [units_eq]
        exact Nat.mul_le_mul_right _ hnormal
  · have heq : scale a = scale b := by
      refine Nat.le_antisymm ?_ hge
      exact Nat.sub_le_sub_right (Nat.div_le_div_right h) _
    rw [heq] at ha
    rw [units_eq, units_eq, heq]
    exact Nat.mul_le_mul_right _ (by omega)

@[simp] theorem rankOfQuotient_zero (d : Nat) : rankOfQuotient 0 d = 0 := by
  have hround (k : Nat) : roundHalfEven 0 k = 0 := by
    rw [roundHalfEven, Nat.zero_mod, Nat.zero_div, if_pos (by omega)]
  apply Fin.ext
  simp [rankOfQuotient, hround]

/-- Within the range of exponents, a decimal that is whole is a quotient by one. -/
theorem rankOfDecimal_natCast {c n : Nat} (h : decimalLength c + n ≤ 310) :
    rankOfDecimal c (n : Int) = rankOfQuotient (c * 10 ^ n) 1 := by
  unfold rankOfDecimal
  split
  · next hzero => rw [hzero, Nat.zero_mul, rankOfQuotient_zero]
  · rw [if_neg (by omega), if_neg (by omega), if_pos (Int.natCast_nonneg n)]
    rfl

/-! ## Literals in steps are finite -/

/-- An integer of 64 bits is far below the numbers that are rounded to infinity. -/
theorem rankOfQuotient_one_lt {n : Nat} (hn : n < 2 ^ 64) :
    (rankOfQuotient n 1).val < infinityRank :=
  Nat.lt_of_le_of_lt (rankOfQuotient_mono (Nat.le_of_lt hn) 1) (by decide +kernel)

theorem unitsOfOne_le_powerOfTen (n : Nat) : unitsOfOne ≤ units (powerOfTen n).val := by
  have hone : (rankOfQuotient 1 1).val ≤ (powerOfTen n).val :=
    rankOfQuotient_mono (Nat.pow_pos (by decide)) 1
  exact Nat.le_trans (by decide +kernel) (units_mono hone)

/-- Division by a power of ten makes nothing greater. -/
theorem quotient_powerOfTen_le {r : Nat} (hr : r < infinityRank) (n : Nat) :
    (quotient r (powerOfTen n).val).val ≤ r :=
  calc (quotient r (powerOfTen n).val).val
      ≤ (rankOfQuotient (units r) unitsOfOne).val :=
        rankOfQuotient_anti unitsOfOne_pos (unitsOfOne_le_powerOfTen n) _
    _ = r := rankOfQuotient_units hr

section Finite

variable {r : Fin (infinityRank + 1)} (hr : r.val < infinityRank)
include hr

theorem raised?_lt {result : Fin (infinityRank + 1)} {n : Nat} (h : raised? r n = some result) :
    result.val < infinityRank := by
  unfold raised? at h
  dsimp only at h
  split at h
  · split at h
    · next hfinite =>
      cases h
      exact hfinite
    · cases h
  · split at h
    · cases h
      exact hr
    · cases h

theorem loweredByMax_lt (times : Nat) : (loweredByMax times r).val < infinityRank := by
  induction times generalizing r with
  | zero => exact hr
  | succ times ih =>
    unfold loweredByMax
    split
    · exact hr
    · exact ih ((quotient_powerOfTen_le hr _).trans_lt hr)

theorem lowered_lt (n : Nat) : (lowered r n).val < infinityRank :=
  have hmax := loweredByMax_lt hr (n / maxPower)
  (quotient_powerOfTen_le hmax _).trans_lt hmax

theorem scaledByTen?_lt {result : Fin (infinityRank + 1)} {e : Int}
    (h : scaledByTen? r e = some result) : result.val < infinityRank := by
  cases e with
  | ofNat n => exact raised?_lt hr h
  | negSucc n =>
    cases h
    exact lowered_lt hr n

end Finite

theorem hold_le {held : Nat} (hheld : held ≤ maxHeld) (digits : List Char) :
    (hold held digits).1 ≤ maxHeld := by
  induction digits generalizing held with
  | nil => exact hheld
  | cons digit digits ih =>
    unfold hold
    dsimp only
    split
    · next hfits => exact ih hfits
    · exact hheld

/-- A literal that is read in steps is a finite number. -/
theorem isFinite_of_stepwise? {negative : Bool} {whole fraction : List Char} {exponent : Int}
    {x : Number} (h : stepwise? negative whole fraction exponent = some x) : x.isFinite = true := by
  obtain ⟨rank, hrank, rfl⟩ := Option.map_eq_some_iff.mp h
  have hheld := hold_le (hold_le (Nat.zero_le _) whole) fraction
  exact decide_eq_true (scaledByTen?_lt (rankOfQuotient_one_lt (Nat.lt_succ_of_le hheld)) hrank)

/-! ## Short literals are exact -/

theorem units_scale_add {m : Nat} (hlow : binade ≤ m) (hm : m < 2 ^ 53) (s : Nat) :
    units (s * binade + m) = m * 2 ^ s := by
  have hrank : s * binade + m = (m - binade) + (s + 1) * binade := by
    rw [Nat.succ_mul]
    omega
  have hrest : m - binade < binade := by
    unfold binade at *
    omega
  have hscale : scale (s * binade + m) = s := by
    rw [scale, hrank, Nat.add_mul_div_right _ _ (by decide), Nat.div_eq_of_lt hrest]
    omega
  have hadd := scale_add_significand (s * binade + m)
  rw [hscale] at hadd
  rw [units_eq, hscale, Nat.add_left_cancel hadd]

/-- An integer of 53 bits times a power of two is the value of a rank. -/
theorem exists_units {m s : Nat} (hm : m < 2 ^ 53) (hs : s ≤ 2045) :
    ∃ r < infinityRank, units r = m * 2 ^ s := by
  induction s generalizing m with
  | zero =>
    refine ⟨m, Nat.lt_trans hm (by decide), ?_⟩
    rcases Nat.lt_or_ge m binade with hsmall | hlow
    · rw [units_eq, scale, significand, if_pos hsmall, Nat.div_eq_of_lt hsmall]
    · simpa using units_scale_add hlow hm 0
  | succ s ih =>
    rcases Nat.lt_or_ge m binade with hsmall | hlow
    · obtain ⟨r, hr, hunits⟩ := ih (m := m * 2) (by unfold binade at hsmall; omega) (by omega)
      exact ⟨r, hr, by rw [hunits, Nat.pow_succ', Nat.mul_assoc]⟩
    · refine ⟨(s + 1) * binade + m, ?_, units_scale_add hlow hm _⟩
      have hbinades := Nat.mul_le_mul_right binade hs
      unfold infinityRank binade at *
      omega

/-- Such an integer is rounded to itself. -/
theorem units_rankOfQuotient_one {m n : Nat} (hm : m < 2 ^ 53) (hn : n ≤ 971) :
    units (rankOfQuotient (m * 2 ^ n) 1).val = m * 2 ^ n * unitsOfOne := by
  obtain ⟨r, hr, hunits⟩ := exists_units hm (s := n + 1074) (by omega)
  rw [Nat.pow_add, ← Nat.mul_assoc, ← Nat.one_shiftLeft 1074] at hunits
  change units r = m * 2 ^ n * unitsOfOne at hunits
  rw [← rankOfQuotient_mul unitsOfOne_pos, Nat.one_mul, ← hunits, rankOfQuotient_units hr]

theorem units_integer {m : Nat} (hm : m < 2 ^ 53) :
    units (rankOfQuotient m 1).val = m * unitsOfOne := by
  simpa using units_rankOfQuotient_one hm (Nat.zero_le 971)

theorem units_powerOfTen {n : Nat} (hn : n ≤ 22) :
    units (powerOfTen n).val = 10 ^ n * unitsOfOne := by
  have hfive : 5 ^ n < 2 ^ 53 :=
    Nat.lt_of_le_of_lt (Nat.pow_le_pow_right (by decide) hn) (by decide)
  have hten : Nat.pow 10 n = 5 ^ n * 2 ^ n := Nat.mul_pow 5 2 n
  rw [powerOfTen, hten, units_rankOfQuotient_one hfive (by omega), ← hten, Nat.pow_eq]

/-! With both operands exact, the product and the quotient are rounded once. -/

section Exact

variable {m n : Nat} (hm : m < 2 ^ 53) (hn : n ≤ 22)
include hm hn

theorem product_exact :
    product (rankOfQuotient m 1) (powerOfTen n) = rankOfQuotient (m * 10 ^ n) 1 := by
  have hcancel := rankOfQuotient_mul (n := m * 10 ^ n) (d := 1)
    (Nat.mul_pos unitsOfOne_pos unitsOfOne_pos)
  rw [product, units_integer hm, units_powerOfTen hn, Nat.mul_mul_mul_comm, ← hcancel,
    Nat.one_mul]

theorem quotient_exact :
    quotient (rankOfQuotient m 1) (powerOfTen n) = rankOfQuotient m (10 ^ n) := by
  rw [quotient, units_integer hm, units_powerOfTen hn, rankOfQuotient_mul unitsOfOne_pos]

theorem product_exact_lt : (rankOfQuotient (m * 10 ^ n) 1).val < infinityRank := by
  have hle : m * 10 ^ n ≤ 2 ^ 53 * 10 ^ 22 :=
    Nat.mul_le_mul hm.le (Nat.pow_le_pow_right (by decide) hn)
  exact (rankOfQuotient_mono hle 1).trans_lt (by decide +kernel)

end Exact

theorem scaledByTen?_integer {m : Nat} (hm : m < 2 ^ 53) {e : Int} (hlow : -22 ≤ e)
    (hhigh : e ≤ 22) :
    scaledByTen? (rankOfQuotient m 1) e = some (rankOfDecimal m e) := by
  have hlength : decimalLength m ≤ 16 :=
    (decimalLength_le_iff (by decide)).mpr (Nat.lt_trans hm (by decide))
  cases e with
  | ofNat n =>
    have hn : n ≤ 22 := Int.ofNat_le.mp hhigh
    have hdecimal : rankOfDecimal m (n : Int) = rankOfQuotient (m * 10 ^ n) 1 :=
      rankOfDecimal_natCast (by omega)
    rw [scaledByTen?, raised?, if_pos (hn.trans (by decide)), product_exact hm hn,
      if_pos (product_exact_lt hm hn)]
    exact congrArg some hdecimal.symm
  | negSucc n =>
    have hn : n + 1 ≤ 22 := by omega
    have hdecimal : rankOfDecimal m (.negSucc n) = rankOfQuotient m (10 ^ (n + 1)) := by
      rcases Nat.eq_zero_or_pos m with rfl | hpos
      · rw [rankOfQuotient_zero, rankOfDecimal_zero]
      · exact rankOfDecimal_neg (Nat.ne_of_gt hpos) (Nat.succ_pos n) (by omega) (by omega)
    have hlt : n < maxPower := Nat.lt_of_lt_of_le hn (by decide)
    rw [scaledByTen?, lowered, Nat.div_eq_of_lt hlt, Nat.mod_eq_of_lt hlt, loweredByMax,
      quotient_exact hm hn, hdecimal]

theorem le_ofDigitChars (n : Nat) (digits : List Char) : n ≤ Nat.ofDigitChars 10 digits n := by
  rw [Nat.ofDigitChars_eq_ofDigitChars_zero]
  exact (Nat.le_mul_of_pos_left n (Nat.pow_pos (by decide))).trans (Nat.le_add_right ..)

/-- Digits that make an integer of 64 bits are all taken in. -/
theorem hold_of_le {held : Nat} {digits : List Char}
    (h : Nat.ofDigitChars 10 digits held ≤ maxHeld) :
    hold held digits = (Nat.ofDigitChars 10 digits held, []) := by
  induction digits generalizing held with
  | nil => rfl
  | cons digit digits ih =>
    rw [Nat.ofDigitChars_cons, Nat.mul_comm] at h ⊢
    unfold hold
    dsimp only
    rw [if_pos ((le_ofDigitChars _ digits).trans h), ih h]

/-- A literal with a significand of 53 bits and a power of ten that is exact is read as the number
nearest to it. -/
theorem stepwise?_eq_ofLiteral {negative : Bool} {whole fraction : List Char} {exponent : Int}
    (hvalue : Text.decimalValue (whole ++ fraction) < 2 ^ 53)
    (hlow : -22 ≤ exponent - fraction.length) (hhigh : exponent - fraction.length ≤ 22) :
    stepwise? negative whole fraction exponent =
      some (ofLiteral negative whole fraction exponent) := by
  rw [Decimal.decimalValue_eq, Nat.ofDigitChars_append] at hvalue
  have hfraction : Nat.ofDigitChars 10 fraction (Nat.ofDigitChars 10 whole 0) ≤ maxHeld :=
    hvalue.le.trans (by decide)
  have hwhole := (le_ofDigitChars _ fraction).trans hfraction
  have hmissing : exponent + (([] : List Char).length : Nat) -
      (fraction.length - ([] : List Char).length : Nat) = exponent - fraction.length := by
    simp
  simp only [stepwise?, hold_of_le hwhole, hold_of_le hfraction, hmissing]
  rw [scaledByTen?_integer hvalue hlow hhigh, ofLiteral, ofDecimal, Decimal.decimalValue_eq,
    Nat.ofDigitChars_append, Option.map_some]

/-- Beyond these bounds it may be a neighbour: sixteen nines behind the point are read as one. -/
example : stepwise? false ['0'] (List.replicate 16 '9') 0 = some one ∧
    ofLiteral false ['0'] (List.replicate 16 '9') 0 ≠ one := by
  decide +kernel

end GoalModel.Number
