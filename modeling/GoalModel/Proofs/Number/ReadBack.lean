import GoalModel.Number.Text
import Mathlib.Data.List.TakeWhile
import Mathlib.Data.Nat.Digits.Defs
import Mathlib.Tactic.Ring

/-! # Numbers read back from programs

Rounding to a rank depends on a quotient only, not on how it is written
(`Number.rankOfQuotient_mul`), so that zeros at the end of a coefficient can be traded for the
exponent (`Number.rankOfDecimal_mul_pow`), and the exact value of a rank is rounded to this rank
(`Decimal.rank_exact`). Hence the shortest decimal reads back whether the search finds it or not
(`Decimal.rank_shortest`), and all three ways to write its digits in a program are literals of
the same number (`Number.exists_literal`). -/

namespace GoalModel

namespace Number

/-! ## Rounding -/

theorem roundHalfEven_mul {n d k : Nat} (hk : 0 < k) :
    roundHalfEven (n * k) (d * k) = roundHalfEven n d := by
  have htwice : 2 * (n % d * k) = 2 * (n % d) * k := (Nat.mul_assoc ..).symm
  simp only [roundHalfEven, Nat.mul_div_mul_right _ _ hk, Nat.mul_mod_mul_right, htwice,
    Nat.mul_lt_mul_right hk, Nat.mul_left_inj (Nat.ne_of_gt hk)]

theorem roundHalfEven_exact {k d : Nat} (hd : 0 < d) : roundHalfEven (k * d) d = k := by
  simp [roundHalfEven, hd]

/-- Rounding depends on the quotient only. -/
theorem rankOfQuotient_mul {n d k : Nat} (hk : 0 < k) :
    rankOfQuotient (n * k) (d * k) = rankOfQuotient n d := by
  have hscaled : n * k * unitsOfOne = n * unitsOfOne * k := Nat.mul_right_comm ..
  have hshift (s : Nat) : (d * k) <<< s = (d <<< s) * k := by
    simp only [Nat.shiftLeft_eq, Nat.mul_right_comm]
  simp only [rankOfQuotient, hscaled, hshift, Nat.mul_div_mul_right _ _ hk, roundHalfEven_mul hk]

/-! ## Decimals -/

theorem decimalLength_le_iff {n k : Nat} (hk : 0 < k) : decimalLength n ≤ k ↔ n < 10 ^ k :=
  Nat.length_toDigits_le_iff (by decide) hk

theorem decimalLength_mul_pow {c : Nat} (hc : 0 < c) (k : Nat) :
    decimalLength (c * 10 ^ k) = decimalLength c + k := by
  induction k with
  | zero => simp
  | succ k ih =>
    have hpos : 0 < c * 10 ^ k := Nat.mul_pos hc (Nat.pow_pos (by decide))
    have hdigit : decimalLength (10 * (c * 10 ^ k) + 0) = decimalLength (c * 10 ^ k) + 1 := by
      rw [decimalLength, ← Nat.toDigits_append_toDigits (by decide) hpos (by decide),
        List.length_append]
      rfl
    have hstep : c * 10 ^ (k + 1) = 10 * (c * 10 ^ k) + 0 := by ring
    rw [hstep, hdigit, ih, Nat.add_assoc]

/-- Zeros at the end of a coefficient count for the exponent. -/
theorem rankOfDecimal_mul_pow (c k : Nat) (e : Int) :
    rankOfDecimal (c * 10 ^ k) e = rankOfDecimal c (e + k) := by
  rcases Nat.eq_zero_or_pos c with rfl | hc
  · simp [rankOfDecimal]
  have hne : c * 10 ^ k ≠ 0 := Nat.ne_of_gt (Nat.mul_pos hc (Nat.pow_pos (by decide)))
  have hlength : (decimalLength (c * 10 ^ k) : Int) + e = decimalLength c + (e + k) := by
    rw [decimalLength_mul_pow hc]
    push_cast
    ring
  have hquotient : (if 0 ≤ e then rankOfQuotient (c * 10 ^ k * Nat.pow 10 e.toNat) 1
        else rankOfQuotient (c * 10 ^ k) (Nat.pow 10 (-e).toNat)) =
      if 0 ≤ e + k then rankOfQuotient (c * Nat.pow 10 (e + k).toNat) 1
        else rankOfQuotient c (Nat.pow 10 (-(e + k)).toNat) := by
    simp only [Nat.pow_eq]
    by_cases he : 0 ≤ e
    · have hpow : 10 ^ k * 10 ^ e.toNat = 10 ^ (e + k).toNat := by
        rw [← Nat.pow_add]
        congr 1
        omega
      rw [if_pos he, if_pos (by omega), Nat.mul_assoc, hpow]
    · rw [if_neg he]
      by_cases hek : 0 ≤ e + k
      · have hpow : 10 ^ k = 10 ^ (e + k).toNat * 10 ^ (-e).toNat := by
          rw [← Nat.pow_add]
          congr 1
          omega
        have hcancel := rankOfQuotient_mul (n := c * 10 ^ (e + k).toNat) (d := 1)
          (Nat.pow_pos (by decide : 0 < 10) (n := (-e).toNat))
        rw [Nat.one_mul, Nat.mul_assoc, ← hpow] at hcancel
        rw [if_pos hek, hcancel]
      · have hpow : 10 ^ (-e).toNat = 10 ^ (-(e + k)).toNat * 10 ^ k := by
          rw [← Nat.pow_add]
          congr 1
          omega
        rw [if_neg hek, hpow, rankOfQuotient_mul (Nat.pow_pos (by decide))]
  simp only [rankOfDecimal, if_neg hne, if_neg (Nat.ne_of_gt hc), hlength, hquotient]

/-! ## Exact values -/

theorem unitsOfOne_pos : 0 < unitsOfOne := by decide +kernel

theorem units_eq (r : Nat) : units r = significand r * 2 ^ scale r := Nat.shiftLeft_eq ..

theorem significand_lt (r : Nat) : significand r < 2 ^ 53 := by
  have hmod := Nat.mod_lt r (by decide : 0 < binade)
  unfold significand binade at *
  split <;> omega

/-- The scale can be told from the length of the value. -/
theorem log2_units (r : Nat) : (units r).log2 - 52 = scale r := by
  rw [units_eq]
  by_cases hr : r < binade
  · have hscale : scale r = 0 := by rw [scale, Nat.div_eq_of_lt hr]
    rw [hscale, significand, if_pos hr, Nat.pow_zero, Nat.mul_one]
    rcases Nat.eq_zero_or_pos r with rfl | hpos
    · decide
    · have hlog : r.log2 < 52 := (Nat.log2_lt (Nat.ne_of_gt hpos)).mpr hr
      omega
  · have hlow : 2 ^ 52 ≤ significand r := by
      rw [significand, if_neg hr]
      exact Nat.le_add_right ..
    have hpow := Nat.two_pow_pos (scale r)
    have hne : significand r * 2 ^ scale r ≠ 0 :=
      Nat.ne_of_gt (Nat.mul_pos (Nat.lt_of_lt_of_le (by decide) hlow) hpow)
    have hlog : (significand r * 2 ^ scale r).log2 = 52 + scale r := by
      rw [Nat.log2_eq_iff hne]
      constructor
      · rw [Nat.pow_add]
        exact Nat.mul_le_mul_right _ hlow
      · rw [Nat.add_right_comm, Nat.pow_add]
        exact Nat.mul_lt_mul_of_pos_right (significand_lt r) hpow
    omega

theorem scale_add_significand (r : Nat) : scale r * binade + significand r = r := by
  unfold scale significand
  by_cases hr : r < binade
  · rw [if_pos hr, Nat.div_eq_of_lt hr, Nat.zero_sub, Nat.zero_mul, Nat.zero_add]
  · have hdiv : 1 ≤ r / binade := (Nat.one_le_div_iff (by decide)).mpr (Nat.not_lt.mp hr)
    have hstep : (r / binade - 1) * binade + binade = r / binade * binade := by
      rw [← Nat.succ_mul, Nat.succ_eq_add_one, Nat.sub_add_cancel hdiv]
    rw [if_neg hr, ← Nat.add_assoc, hstep]
    exact Nat.div_add_mod' r binade

/-- A value that is a rank's is rounded to this rank. -/
theorem rankOfQuotient_units {r : Nat} (hr : r < infinityRank) :
    (rankOfQuotient (units r) unitsOfOne).val = r := by
  have hvalue : units r * unitsOfOne / unitsOfOne = units r :=
    Nat.mul_div_cancel _ unitsOfOne_pos
  have hscaled : units r * unitsOfOne = significand r * unitsOfOne <<< scale r := by
    rw [units_eq, Nat.shiftLeft_eq, Nat.mul_assoc, Nat.mul_comm (2 ^ _)]
  have hpos : 0 < unitsOfOne <<< scale r := by
    rw [Nat.shiftLeft_eq]
    exact Nat.mul_pos unitsOfOne_pos (Nat.two_pow_pos _)
  simp only [rankOfQuotient, hvalue, log2_units]
  rw [hscaled, roundHalfEven_exact hpos, scale_add_significand]
  exact Nat.min_eq_left (Nat.le_of_lt hr)

theorem units_pos {r : Nat} (hr : 0 < r) : 0 < units r := by
  rw [units_eq]
  refine Nat.mul_pos ?_ (Nat.two_pow_pos _)
  unfold significand
  split
  · exact hr
  · exact Nat.add_pos_left (by decide) _

theorem scale_le {r : Nat} (hr : r < infinityRank) : scale r ≤ 2045 := by
  have hdiv : r / binade < 2047 := (Nat.div_lt_iff_lt_mul (by decide)).mpr hr
  unfold scale
  omega

theorem units_lt {r n : Nat} (hn : scale r ≤ n) : units r < 2 ^ 53 * 2 ^ n := by
  have hpow : 2 ^ scale r ≤ 2 ^ n := Nat.pow_le_pow_right (by decide) hn
  rw [units_eq]
  exact Nat.mul_lt_mul_of_lt_of_le (significand_lt r) hpow (Nat.two_pow_pos _)

/-- Within the range of exponents, a decimal fraction is a quotient. -/
theorem rankOfDecimal_neg {c n : Nat} (hc : c ≠ 0) (hn : 0 < n)
    (hupper : decimalLength c ≤ 310 + n) (hlower : n ≤ 324 + decimalLength c) :
    rankOfDecimal c (-(n : Int)) = rankOfQuotient c (10 ^ n) := by
  have hexponent : (- -(n : Int)).toNat = n := by omega
  rw [rankOfDecimal, if_neg hc, if_neg (by omega), if_neg (by omega), if_neg (by omega),
    hexponent, Nat.pow_eq]

end Number

namespace Decimal

open Number

theorem rank_mk (c : Nat) (e : Int) : rank ⟨c, e⟩ = (rankOfDecimal c e).val := rfl

theorem rank_exact {r : Nat} (hpos : 0 < r) (hr : r < infinityRank) : (exact r).rank = r := by
  have hten : 10 ^ 1074 = unitsOfOne * Nat.pow 5 1074 := by decide +kernel
  have hupper : 2 ^ 53 * 2 ^ 2045 * Nat.pow 5 1074 < 10 ^ 1384 := by decide +kernel
  have hlower : 10 ^ 749 ≤ Nat.pow 5 1074 := by decide +kernel
  have hexact : exact r = ⟨units r * Nat.pow 5 1074, -((1074 : Nat) : Int)⟩ := rfl
  generalize Nat.pow 5 1074 = k at hten hupper hlower hexact
  have hk : 0 < k := Nat.lt_of_lt_of_le (Nat.pow_pos (by decide)) hlower
  have hunits := units_pos hpos
  have hlong : ¬decimalLength (units r * k) ≤ 749 := by
    rw [decimalLength_le_iff (by decide), Nat.not_lt]
    exact hlower.trans (Nat.le_mul_of_pos_left k hunits)
  have hshort : decimalLength (units r * k) ≤ 1384 := by
    refine (decimalLength_le_iff (by decide)).mpr ?_
    have hlt := Nat.mul_lt_mul_of_pos_right (units_lt (scale_le hr)) hk
    exact hlt.trans hupper
  rw [hexact, rank_mk, rankOfDecimal_neg (Nat.ne_of_gt (Nat.mul_pos hunits hk)) (by decide) hshort
    (by omega), hten, rankOfQuotient_mul hk, rankOfQuotient_units hr]

/-- What is written reads back. -/
theorem rank_shortest {r : Nat} (tie : Tie) (hpos : 0 < r) (hr : r < infinityRank) :
    (shortest tie r).rank = r := by
  unfold shortest
  cases hsearch : (List.range 17).findSome? fun n => withDigits? tie r (n + 1) with
  | none => exact rank_exact hpos hr
  | some d =>
    obtain ⟨_, _, hd⟩ := List.exists_of_findSome?_eq_some hsearch
    exact rank_withDigits? hd

theorem decimalValue_eq (digits : List Char) :
    Text.decimalValue digits = Nat.ofDigitChars 10 digits 0 := by
  simp only [Text.decimalValue, Nat.ofDigitChars_eq_foldl, Nat.mul_comm]

/-- The digits of a decimal without its trailing zeros are those of the same value. -/
theorem significantDigits_spec {d : Decimal} (hd : d.coefficient ≠ 0) :
    d.significantDigits.1 ≠ [] ∧ (∀ c ∈ d.significantDigits.1, c.isDigit) ∧
      (rankOfDecimal (Text.decimalValue d.significantDigits.1) d.significantDigits.2).val =
        d.rank := by
  let written := Nat.toDigits 10 d.coefficient
  let kept := (written.reverse.dropWhile (· == '0')).reverse
  let dropped := (written.reverse.takeWhile (· == '0')).reverse
  have hsplit : written = kept ++ dropped := by
    rw [← List.reverse_append, List.takeWhile_append_dropWhile, List.reverse_reverse]
  have hzeros : dropped = zeros dropped.length := by
    refine List.eq_replicate_iff.mpr ⟨rfl, fun c hc => ?_⟩
    have hzero := List.mem_takeWhile_imp (List.mem_reverse.mp hc)
    exact eq_of_beq hzero
  have hvalue : Text.decimalValue kept * 10 ^ dropped.length = d.coefficient := by
    rw [← Nat.ofDigitChars_ten_toDigits (n := d.coefficient), decimalValue_eq]
    change _ = Nat.ofDigitChars 10 written 0
    rw [hsplit, Nat.ofDigitChars_append, hzeros, zeros, Nat.ofDigitChars_replicate_zero,
      List.length_replicate, Nat.mul_comm]
  have hkept : kept ≠ [] := by
    intro hnil
    rw [hnil] at hvalue
    exact hd (hvalue.symm.trans (Nat.zero_mul _))
  have hcount : written.length - kept.length = dropped.length := by
    rw [hsplit, List.length_append, Nat.add_sub_cancel_left]
  have hdigits : d.significantDigits = (kept, d.exponent + dropped.length) := by
    change (if kept.isEmpty then (['0'], 0)
      else (kept, d.exponent + (written.length - kept.length : Nat))) = _
    rw [if_neg (by simpa using hkept), hcount]
  rw [hdigits]
  refine ⟨hkept, fun c hc => ?_, ?_⟩
  · exact Nat.isDigit_of_mem_toDigits (by decide) (by decide)
      (hsplit ▸ List.mem_append_left dropped hc)
  · rw [← rankOfDecimal_mul_pow, hvalue]
    rfl

end Decimal

/-! ## Literals -/

/-- A decimal literal: digits around a point, and perhaps an exponent. -/
structure Literal where
  whole : List Char
  fraction : List Char
  exponent : Option Int
  deriving DecidableEq, Repr

namespace Literal

def exponentText : Option Int → List Char
  | none => []
  | some e => 'e' :: ((if e < 0 then ['-'] else []) ++ Nat.toDigits 10 e.natAbs)

def text (l : Literal) : List Char := l.whole ++ '.' :: (l.fraction ++ exponentText l.exponent)

def number (l : Literal) : Number := .ofLiteral false l.whole l.fraction (l.exponent.getD 0)

/-- There are digits on both sides of the point, and nothing else. -/
structure Proper (l : Literal) : Prop where
  whole : l.whole ≠ [] ∧ ∀ c ∈ l.whole, c.isDigit
  fraction : l.fraction ≠ [] ∧ ∀ c ∈ l.fraction, c.isDigit

end Literal

namespace Number

open Decimal

theorem decimalValue_append_zeros (digits : List Char) (n : Nat) :
    Text.decimalValue (digits ++ zeros n) = Text.decimalValue digits * 10 ^ n := by
  rw [decimalValue_eq, decimalValue_eq, Nat.ofDigitChars_append, zeros,
    Nat.ofDigitChars_replicate_zero, Nat.mul_comm]

theorem decimalValue_zeros_append (digits : List Char) (n : Nat) :
    Text.decimalValue (zeros n ++ digits) = Text.decimalValue digits := by
  rw [decimalValue_eq, decimalValue_eq, Nat.ofDigitChars_append, zeros,
    Nat.ofDigitChars_replicate_zero, Nat.mul_zero]

theorem isDigit_of_mem_zeros {n : Nat} {c : Char} (hc : c ∈ zeros n) : c.isDigit := by
  rw [List.eq_of_mem_replicate hc]
  rfl

theorem rankOfDecimal_zero (e : Int) : rankOfDecimal 0 e = 0 := if_pos rfl

theorem ofDecimal_mul_pow (negative : Bool) (c k : Nat) (e : Int) :
    ofDecimal negative (c * 10 ^ k) e = ofDecimal negative c (e + k) := by
  rw [ofDecimal, rankOfDecimal_mul_pow, ofDecimal]

section
variable {digits : List Char} (hne : digits ≠ []) (hdigits : ∀ c ∈ digits, c.isDigit)
include hne hdigits

/-- Digits in their places are a literal. -/
theorem exists_literal_positional (last : Int) :
    ∃ l : Literal, l.Proper ∧ positionalText .program digits last = l.text ∧
      l.number = ofDecimal false (Text.decimalValue digits) last := by
  have hdigit (c : Char) (n : Nat) (hc : c ∈ digits ++ zeros n ∨ c ∈ zeros n ++ digits) :
      c.isDigit := by
    simp only [List.mem_append] at hc
    rcases hc with (hc | hc) | (hc | hc)
    · exact hdigits c hc
    · exact isDigit_of_mem_zeros hc
    · exact isDigit_of_mem_zeros hc
    · exact hdigits c hc
  have hlength : 0 < digits.length := List.length_pos_iff.mpr hne
  by_cases hlast : 0 ≤ last
  · refine ⟨⟨digits ++ zeros last.toNat, zeros 1, none⟩, ?_, ?_, ?_⟩
    · exact ⟨⟨by simp [hne], fun c hc => hdigit c _ (.inl hc)⟩,
        ⟨List.cons_ne_nil _ _, fun c hc => isDigit_of_mem_zeros hc⟩⟩
    · simp [positionalText, hlast, NumberFormat.program, Literal.text, Literal.exponentText, zeros]
    · have hexponent : (0 : Int) - (zeros 1).length + (1 : Nat) + last.toNat = last := by
        simp [zeros, hlast]
      rw [Literal.number, ofLiteral, decimalValue_append_zeros, decimalValue_append_zeros,
        ofDecimal_mul_pow, ofDecimal_mul_pow, Option.getD_none, hexponent]
  by_cases hpoint : 0 < digits.length + last
  · let n := (digits.length + last).toNat
    have hn : n < digits.length := by omega
    have hrest : (0 : Int) - (digits.drop n).length = last := by
      rw [List.length_drop]
      omega
    refine ⟨⟨digits.take n, digits.drop n, none⟩, ?_, ?_, ?_⟩
    · exact ⟨⟨by simp [hne]; omega, fun c hc => hdigits c (List.mem_of_mem_take hc)⟩,
        ⟨by simpa using hn, fun c hc => hdigits c (List.mem_of_mem_drop hc)⟩⟩
    · simp [positionalText, hlast, hpoint, Literal.text, Literal.exponentText, n]
    · rw [Literal.number, ofLiteral, List.take_append_drop, Option.getD_none, hrest]
  · let n := (-(digits.length + last)).toNat
    have hrest : (0 : Int) - (zeros n ++ digits).length = last := by
      rw [List.length_append, zeros, List.length_replicate]
      omega
    refine ⟨⟨zeros 1, zeros n ++ digits, none⟩, ?_, ?_, ?_⟩
    · exact ⟨⟨List.cons_ne_nil _ _, fun c hc => isDigit_of_mem_zeros hc⟩,
        ⟨by simp [hne], fun c hc => hdigit c _ (.inr hc)⟩⟩
    · simp [positionalText, hlast, hpoint, Literal.text, Literal.exponentText, zeros, n]
    · rw [Literal.number, ofLiteral, decimalValue_zeros_append, decimalValue_zeros_append,
        Option.getD_none, hrest]

/-- Digits with an exponent are a literal. -/
theorem exists_literal_exponent (leading : Int) :
    ∃ l : Literal, l.Proper ∧ exponentText .program digits leading = l.text ∧
      l.number = ofDecimal false (Text.decimalValue digits) (leading - digits.length + 1) := by
  match digits, hne, hdigits with
  | [digit], _, hdigits =>
    refine ⟨⟨[digit], zeros 1, some leading⟩, ?_, ?_, ?_⟩
    · exact ⟨⟨by simp, hdigits⟩, ⟨List.cons_ne_nil _ _, fun c hc => isDigit_of_mem_zeros hc⟩⟩
    · simp [exponentText, NumberFormat.program, Literal.text, Literal.exponentText, zeros]
    · have hexponent : leading - (zeros 1).length + (1 : Nat) = leading - [digit].length + 1 := by
        simp [zeros]
      rw [Literal.number, ofLiteral, decimalValue_append_zeros, ofDecimal_mul_pow,
        Option.getD_some, hexponent]
  | digit :: next :: rest, _, hdigits =>
    refine ⟨⟨[digit], next :: rest, some leading⟩, ?_, ?_, ?_⟩
    · obtain ⟨hdigit, hrest⟩ := List.forall_mem_cons.mp hdigits
      exact ⟨⟨by simp, by simpa using hdigit⟩, ⟨by simp, hrest⟩⟩
    · simp [exponentText, NumberFormat.program, Literal.text, Literal.exponentText]
    · have hexponent : leading - (next :: rest).length =
          leading - (digit :: next :: rest).length + 1 := by
        simp only [List.length_cons]
        push_cast
        omega
      rw [Literal.number, ofLiteral, Option.getD_some, hexponent]
      rfl

/-- Digits are a literal however they are written. -/
theorem exists_literal_digits (last : Int) :
    ∃ l : Literal, l.Proper ∧ digitsText .program digits last = l.text ∧
      l.number = ofDecimal false (Text.decimalValue digits) last := by
  have htext : digitsText .program digits last =
    if -4 ≤ digits.length + last - 1 ∧ digits.length + last - 1 ≤ 15 then
      positionalText .program digits last
    else exponentText .program digits (digits.length + last - 1) := rfl
  rw [htext]
  split
  · exact exists_literal_positional hne hdigits last
  · have hlast : (digits.length + last - 1 : Int) - digits.length + 1 = last := by omega
    have hliteral := exists_literal_exponent hne hdigits (digits.length + last - 1)
    rwa [hlast] at hliteral

end

/-- The text of a finite magnitude in a program is a literal of the same number. -/
theorem exists_literal {r : Fin (infinityRank + 1)} (hr : r.val < infinityRank) :
    ∃ l : Literal, l.Proper ∧ l.number = .ranked false r ∧
      (if r.val = 0 then positionalText .program ['0'] 0 else magnitudeText .program r.val) =
        l.text := by
  by_cases hzero : r.val = 0
  · obtain ⟨l, hproper, htext, hnumber⟩ :=
      exists_literal_positional (List.cons_ne_nil '0' []) (by simp) 0
    refine ⟨l, hproper, hnumber.trans ?_, ?_⟩
    · have hvalue : Text.decimalValue ['0'] = 0 := by decide
      have hr : r = 0 := Fin.ext hzero
      rw [hvalue, ofDecimal, rankOfDecimal_zero, hr]
    · rw [if_pos hzero, htext]
  let d := shortest .up r.val
  have hrank : d.rank = r.val := rank_shortest .up (Nat.pos_of_ne_zero hzero) hr
  have hcoefficient : d.coefficient ≠ 0 := by
    intro hc
    have hnull : d.rank = 0 := by rw [rank, hc, rankOfDecimal_zero, Fin.val_zero]
    exact hzero (hrank.symm.trans hnull)
  obtain ⟨hne, hdigits, hvalue⟩ := significantDigits_spec hcoefficient
  obtain ⟨l, hproper, htext, hnumber⟩ := exists_literal_digits hne hdigits d.significantDigits.2
  refine ⟨l, hproper, ?_, ?_⟩
  · rw [hnumber, ofDecimal]
    exact congrArg _ (Fin.ext (hvalue.trans hrank))
  · rw [if_neg hzero]
    exact htext

end Number

end GoalModel
