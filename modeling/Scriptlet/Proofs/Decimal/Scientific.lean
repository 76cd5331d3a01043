import Mathlib.Data.List.TakeWhile
import Scriptlet.Proofs.Decimal.Rounding

namespace Scriptlet.Decimal

open Float.Model Float.Model.UnpackedFloat

variable {n : Nat} (pos : 0 < n) (most : n < 2 ^ 53)

include pos

theorem scaled_bounds (log : n.log2 ≤ 52) :
    2 ^ 52 ≤ n * 2 ^ (52 - n.log2) ∧ n * 2 ^ (52 - n.log2) ≤ 2 ^ 53 := by
  constructor
  · calc 2 ^ 52 = 2 ^ n.log2 * 2 ^ (52 - n.log2) := by rw [← pow_add]; congr 1; omega
      _ ≤ n * 2 ^ (52 - n.log2) := Nat.mul_le_mul_right _ (Nat.log2_self_le pos.ne')
  · calc n * 2 ^ (52 - n.log2) ≤ 2 ^ (n.log2 + 1) * 2 ^ (52 - n.log2) := Nat.mul_le_mul_right _ Nat.lt_log2_self.le
      _ = 2 ^ 53 := by rw [← pow_add]; congr 1; omega

omit pos in
theorem scaled_eq (n k : Nat) : ((n * 2 ^ k : Nat) * 2 ^ (-k : ℤ) : ℚ) = n := by
  rw [zpow_neg, zpow_natCast, Nat.cast_mul, Nat.cast_pow, Nat.cast_two, mul_inv_cancel_right₀ (pow_ne_zero _ two_ne_zero)]

include most

theorem exists_rung_eq : ∃ r < topmost, rung r = n := by
  have log : n.log2 ≤ 52 := Nat.le_of_lt_succ ((Nat.log2_lt pos.ne').2 most)
  obtain ⟨low, high⟩ := scaled_bounds pos log
  have exponent : ((1022 + n.log2 : Nat) : Int) - 1074 = -(52 - n.log2 : Nat) := by omega
  refine ⟨(1022 + n.log2) * 2 ^ 52 + n * 2 ^ (52 - n.log2), by unfold topmost; omega, ?_⟩
  rw [rung_eq (.inr low) high, exponent, scaled_eq]

theorem toFloat_eq :
    n.toUInt64.toFloat = .ofModel (.pack
      (roundWithAccuracy .binary64 .positive (n * 2 ^ (52 - n.log2)) (-(52 - n.log2 : Nat)) .exact)) := by
  have log : n.log2 ≤ 52 := Nat.le_of_lt_succ ((Nat.log2_lt pos.ne').2 most)
  have same : n.toUInt64.toNat = n := Nat.mod_eq_of_lt (by omega)
  have greater : compare (n : Int) 0 = .gt := Int.compare_eq_gt.2 (by omega)
  have amount : (-max (n.log2 + 0 - 52 : Int) (-1074)).toNat = 52 - n.log2 := by omega
  rw [UInt64.toFloat, Float.Model.ofUInt64, UnpackedFloat.ofUInt64, same, UnpackedFloat.ofNat, UnpackedFloat.ofInt,
    UnpackedFloat.normalize, greater]
  simp only [Int.toNat_natCast, UnpackedFloat.round, target_eq, decreaseExponent, zero_sub, amount, Nat.shiftLeft_eq]

theorem exists_unpack_toFloat :
    ∃ m e pos, n.toUInt64.toFloat.toModel.unpack = .finite .positive m e pos ∧ (m * 2 ^ e : ℚ) = n := by
  have log : n.log2 ≤ 52 := Nat.le_of_lt_succ ((Nat.log2_lt pos.ne').2 most)
  have fits : 52 ≤ (n * 2 ^ (52 - n.log2)).log2 :=
    (Nat.le_log2 (Nat.mul_ne_zero pos.ne' (Nat.two_pow_pos _).ne')).2 (scaled_bounds pos log).1
  obtain ⟨r, nears, rank, sign⟩ :=
    @nears_round _ (-(52 - n.log2 : Nat)) _ _ (.exact (n * 2 ^ (52 - n.log2))) (.inl fits)
  rw [← toFloat_eq pos most] at rank sign
  rw [scaled_eq] at nears
  -- no rung is nearer than the one on which the number stands itself
  obtain ⟨s, high, hs⟩ := exists_rung_eq pos most
  have near := (nears.nearest s).1
  rw [hs, sub_self, abs_zero] at near
  have same : rung r = n := (sub_eq_zero.1 (abs_nonpos_iff.1 near)).symm
  obtain rfl : r = s := strictMono_rung.injective (same.trans hs.symm)
  rw [min_eq_left high.le] at rank
  have low : r ≠ 0 := by
    rintro rfl
    rw [rung_zero] at same
    exact pos.ne (by exact_mod_cast same)
  obtain ⟨m, e, pos', unpacked, place⟩ := exists_unpack sign (rank.trans_ne low) (rank.trans_lt high)
  exact ⟨m, e, pos', unpacked, by rw [place, rank, same]⟩

omit pos most

theorem exists_unpack_power {e : Nat} (h : e < Float.exactlyRepresentablePowersOfTen.size) :
    ∃ m k pos, Float.exactlyRepresentablePowersOfTen[e].toModel.unpack = .finite .positive m k pos ∧
      (m * 2 ^ k : ℚ) = 10 ^ e := by
  have table : ∀ e (h : e < Float.exactlyRepresentablePowersOfTen.size),
      signOf Float.exactlyRepresentablePowersOfTen[e] = false ∧
        2 ^ 52 ≤ rankOf Float.exactlyRepresentablePowersOfTen[e] ∧
        rankOf Float.exactlyRepresentablePowersOfTen[e] < topmost ∧
        (2 ^ 52 + rankOf Float.exactlyRepresentablePowersOfTen[e] % 2 ^ 52) *
          2 ^ (rankOf Float.exactlyRepresentablePowersOfTen[e] / 2 ^ 52) = 10 ^ e * 2 ^ 1075 := by
    decide +kernel
  obtain ⟨sign, low, high, place⟩ := table e h
  obtain ⟨m, k, pos, unpacked, value⟩ := exists_unpack sign (by omega) high
  refine ⟨m, k, pos, unpacked, ?_⟩
  have place : ((2 ^ 52 + rankOf Float.exactlyRepresentablePowersOfTen[e] % 2 ^ 52 : Nat) : ℚ) *
      2 ^ (rankOf Float.exactlyRepresentablePowersOfTen[e] / 2 ^ 52) = 10 ^ e * 2 ^ 1075 := by
    have cast := congrArg (Nat.cast : Nat → ℚ) place
    rwa [Nat.cast_mul, Nat.cast_mul, Nat.cast_pow 2, Nat.cast_pow 10, Nat.cast_pow 2, Nat.cast_two, Nat.cast_ofNat] at cast
  rw [value, rung, if_neg (by omega), zpow_sub₀ two_ne_zero, zpow_natCast, ← mul_div_assoc, place, zpow_ofNat,
    mul_div_cancel_right₀ _ (pow_ne_zero _ two_ne_zero)]

theorem rounds_small {m e : Nat} (most : m < 2 ^ 53) (h : e < Float.exactlyRepresentablePowersOfTen.size) :
    Rounds (m / 10 ^ e) (m.toUInt64.toFloat / Float.exactlyRepresentablePowersOfTen[e]) := by
  obtain ⟨p, k, pos, unpacked, place⟩ := exists_unpack_power h
  change Rounds _ (.ofModel (.pack (UnpackedFloat.div .binary64 _ _)))
  rw [unpacked]
  obtain rfl | nonzero := Nat.eq_zero_or_pos m
  · have zero : (Nat.toUInt64 0).toFloat.toModel.unpack = .zero .positive := rfl
    rw [zero, Nat.cast_zero, zero_div]
    exact rounds_zero le_rfl (by rw [mul_zero]; positivity)
  · obtain ⟨m', e', pos', unpacked', place'⟩ := exists_unpack_toFloat nonzero most
    rw [unpacked', ← place, ← place']
    exact rounds_div pos' pos

theorem twice_div_le {m e k : Nat} (tiny : m.log2 + 2 + k ≤ e) : (2 * (m / 10 ^ e) : ℚ) ≤ 2 ^ (-k : ℤ) := by
  have bound : 2 * m * 2 ^ k ≤ 10 ^ e := by
    calc 2 * m * 2 ^ k ≤ 2 * 2 ^ (m.log2 + 1) * 2 ^ k := by
          exact Nat.mul_le_mul_right _ (Nat.mul_le_mul_left _ Nat.lt_log2_self.le)
      _ = 2 ^ (m.log2 + 2 + k) := by rw [← pow_succ', ← pow_add]
      _ ≤ 2 ^ e := Nat.pow_le_pow_right two_pos tiny
      _ ≤ 10 ^ e := Nat.pow_le_pow_left (by decide) e
  have bound : (2 * m * 2 ^ k : ℚ) ≤ 10 ^ e := by exact_mod_cast bound
  rw [zpow_neg, zpow_natCast, ← mul_div_assoc, div_le_iff₀ (by positivity), ← div_eq_inv_mul, le_div_iff₀ (by positivity)]
  exact bound

/-- All other decimals; where the power of ten is too high to be computed, they are rounded to zero. -/
theorem rounds_model (m e : Nat) : Rounds (m / 10 ^ e) (.ofModel (.ofScientific m (Int.negOfNat e))) := by
  have negative : Int.negOfNat e = -e := rfl
  rw [Float.Model.ofScientific, negative]
  fun_cases UnpackedFloat.ofScientific .binary64 m (-e) with
  | case1 zero =>
    rw [zero, Nat.cast_zero, zero_div]
    exact rounds_zero le_rfl (by rw [mul_zero]; positivity)
  | case2 nonzero huge =>
    have huge : (2 ^ 11 : Int) < -e := huge
    omega
  | case3 nonzero _ tiny =>
    have tiny : (-e : Int) < -(2 ^ 11 + m.log2) := tiny
    exact rounds_zero (by positivity) (@twice_div_le m e 1074 (by omega))
  | case4 nonzero _ _ whole =>
    obtain rfl : e = 0 := by omega
    have rounds := @rounds_mul (m <<< 53) 1 (-(53 : Nat)) 0 (Nat.shiftLeft_pos_iff.2 (Nat.pos_of_ne_zero nonzero)) one_pos
    have value : ((m <<< 53 : Nat) * 2 ^ (-(53 : Nat) : ℤ) * ((1 : Nat) * 2 ^ (0 : ℤ)) : ℚ) = m / 10 ^ 0 := by
      rw [Nat.shiftLeft_eq, scaled_eq]
      simp
    rw [value] at rounds
    refine rounds ?_
    rw [Nat.shiftLeft_eq]
    have := Nat.pos_of_ne_zero nonzero
    omega
  | case5 nonzero =>
    have power : (-(-e : Int)).toNat = e := by omega
    have rounds := @rounds_div m (10 ^ (-(-e : Int)).toNat) 0 0 (Nat.pos_of_ne_zero nonzero) (Nat.pow_pos (by decide))
    have value : (m * 2 ^ (0 : ℤ) / ((10 ^ (-(-e : Int)).toNat : Nat) * 2 ^ (0 : ℤ)) : ℚ) = m / 10 ^ e := by
      rw [power]
      simp
    rwa [value] at rounds

theorem rounds_ofScientific (m e : Nat) : Rounds (m / 10 ^ e) (Float.ofScientific m true e) := by
  unfold Float.ofScientific
  split
  · next small => exact rounds_small small.1 (by simpa [Float.exactlyRepresentablePowersOfTen] using Nat.lt_succ_of_le small.2)
  · exact rounds_model m e

theorem rounds_whole (m : Nat) : Rounds m (Float.ofScientific m false 0) := by
  unfold Float.ofScientific
  split
  · next small =>
    have one : Float.exactlyRepresentablePowersOfTen[0].toModel.unpack =
        .finite .positive (2 ^ 52) (-(52 : Nat)) (by decide) := rfl
    change Rounds _ (.ofModel (.pack (UnpackedFloat.mul .binary64 _ Float.exactlyRepresentablePowersOfTen[0].toModel.unpack)))
    rw [one]
    obtain rfl | nonzero := Nat.eq_zero_or_pos m
    · have zero : (Nat.toUInt64 0).toFloat.toModel.unpack = .zero .positive := rfl
      rw [zero, Nat.cast_zero]
      exact rounds_zero le_rfl (by rw [mul_zero]; positivity)
    · obtain ⟨m', e, pos, unpacked, place⟩ := exists_unpack_toFloat nonzero small.1
      have value : (m' * 2 ^ e * ((2 ^ 52 : Nat) * 2 ^ (-(52 : Nat) : ℤ)) : ℚ) = m := by
        have unit := scaled_eq 1 52
        rw [one_mul, Nat.cast_one] at unit
        rw [unit, mul_one, place]
      have rounds := @rounds_mul m' (2 ^ 52) e (-(52 : Nat)) pos (by decide) (Nat.le_mul_of_pos_left _ pos)
      rw [value] at rounds
      rwa [unpacked]
  · have rounds := rounds_model m 0
    rwa [pow_zero, div_one] at rounds

section Unique

theorem exists_rank {k : Nat} (most : k ≤ topmost) : ∃ x, rankOf x = k ∧ signOf x = false := by
  obtain ⟨a, m, rfl, least, high⟩ := exists_rung k
  obtain rfl | pos := Nat.eq_zero_or_pos m
  · obtain rfl : a = 0 := by omega
    exact ⟨_, rank_pack_zero⟩
  · obtain ⟨rank, sign⟩ := rank_pack pos least high
    exact ⟨_, rank.trans (min_eq_left most), sign⟩

theorem Rounds.exists_rung {q : ℚ} {x : Float} (h : Rounds q x) :
    rankOf x ≤ topmost ∧ signOf x = false ∧ ∀ k ≤ topmost, |q - rung (rankOf x)| ≤ |q - rung k| ∧
      (|q - rung (rankOf x)| = |q - rung k| → rankOf x = k ∨ rankOf x % 2 = 0) := by
  obtain ⟨unsigned, v, place, nearest⟩ := h
  obtain ⟨most, rfl⟩ := rank_of_place? place
  obtain ⟨-, negative, even⟩ := ofFloat_of_le most
  have sign : signOf x = false := negative.symm.trans unsigned
  refine ⟨most, sign, fun k hk => ?_⟩
  obtain ⟨y, rfl, sign'⟩ := exists_rank hk
  have near := nearest y _ (ofFloat_of_le hk).1
  rw [sign, sign', even, beq_iff_eq] at near
  exact near.imp_right fun tie same => (tie same).imp_left fun eq => strictMono_rung.injective eq

theorem not_between {q : ℚ} {r s : Nat} (less : r < s) (even : r % 2 = 0) (even' : s % 2 = 0)
    (same : |q - rung r| = |q - rung s|) : |q - rung (r + 1)| < |q - rung r| := by
  have low := rung_lt_succ r
  have high : rung (r + 1) < rung s := strictMono_rung (by omega)
  have middle : 2 * q = rung r + rung s := by
    obtain eq | eq := abs_eq_abs.1 same <;> linarith
  rw [abs_of_nonneg (show 0 ≤ q - rung r by linarith), abs_lt]
  constructor <;> linarith

theorem Rounds.unique {q : ℚ} {x y : Float} (h : Rounds q x) (h' : Rounds q y) : x = y := by
  obtain ⟨most, sign, nearest⟩ := h.exists_rung
  obtain ⟨most', sign', nearest'⟩ := h'.exists_rung
  have same : |q - rung (rankOf x)| = |q - rung (rankOf y)| :=
    le_antisymm (nearest _ most').1 (nearest' _ most).1
  refine eq_of_rank ?_ (sign.trans sign'.symm)
  obtain eq | even := (nearest _ most').2 same
  · exact eq
  obtain eq | even' := (nearest' _ most).2 same.symm
  · exact eq.symm
  obtain less | eq | less := lt_trichotomy (rankOf x) (rankOf y)
  · exact absurd (nearest _ (less.trans_le most')).1 (not_le.2 (not_between less even even' same))
  · exact eq
  · exact absurd (nearest' _ (less.trans_le most)).1 (not_le.2 (not_between less even' even same.symm))

end Unique

def magnitude (whole fraction : List Char) : ℚ :=
  ofDigits whole + ofDigits fraction / 10 ^ fraction.length

theorem ofDigits_append (whole fraction : List Char) :
    ofDigits (whole ++ fraction) = ofDigits whole * 10 ^ fraction.length + ofDigits fraction := by
  induction fraction using List.reverseRecOn with
  | nil => simp [ofDigits]
  | append_singleton fraction c ih =>
    have last (digits : List Char) : ofDigits (digits ++ [c]) = 10 * ofDigits digits + (c.toNat - '0'.toNat) := by
      simp [ofDigits]
    rw [← List.append_assoc, last, last, ih, List.length_append, List.length_singleton]
    ring

theorem rounds_ofParts (whole fraction : List Char) : Rounds (magnitude whole fraction) (ofParts whole fraction) := by
  have value : magnitude whole fraction = (ofDigits (whole ++ fraction) : Nat) / 10 ^ fraction.length := by
    rw [magnitude, ofDigits_append]
    push_cast
    rw [add_div, mul_div_cancel_right₀ _ (pow_ne_zero _ (by norm_num))]
  rw [value]
  exact rounds_ofScientific _ _

theorem ofParts_nil (whole : List Char) : ofParts whole [] = Float.ofScientific (ofDigits whole) false 0 := by
  refine (rounds_ofParts whole []).unique ?_
  have value : magnitude whole [] = (ofDigits whole : Nat) := by simp [magnitude, ofDigits]
  rw [value]
  exact rounds_whole _

section Reading

theorem read?_of_digit {d : Char} (digit : d.isDigit = true) (rest : List Char) :
    read? (String.ofList (d :: rest)) = magnitude? (d :: rest) := by
  have sign : splitSign (d :: rest) = (false, d :: rest) := by
    unfold splitSign
    split
    · next same =>
      cases same
      exact absurd digit (by decide)
    · next same =>
      cases same
      exact absurd digit (by decide)
    · rfl
  have lower : d.toLower.isDigit = true := by
    have high : d.toNat ≤ '9'.toNat := (Char.isDigit_iff_toNat.1 digit).2
    have small : ¬('A'.val ≤ d.val ∧ d.val ≤ 'Z'.val) := fun ⟨low, _⟩ =>
      absurd (Nat.le_trans (show 'A'.toNat ≤ d.toNat from low) high) (by decide)
    have same : d.toLower = d := dif_neg small
    rw [same]
    exact digit
  have word {c : Char} (letter : c.isDigit = false) (text : List Char) :
      (String.ofList ((d :: rest).map Char.toLower) == String.ofList (c :: text)) = false := by
    rw [beq_eq_false_iff_ne, ne_eq, String.ofList_inj, List.map_cons, List.cons.injEq]
    rintro ⟨same, -⟩
    rw [same, letter] at lower
    cases lower
  have inf : (String.ofList ((d :: rest).map Char.toLower) == "inf") = false := @word 'i' (by decide) "nf".toList
  have infinity : (String.ofList ((d :: rest).map Char.toLower) == "infinity") = false :=
    @word 'i' (by decide) "nfinity".toList
  have nan : (String.ofList ((d :: rest).map Char.toLower) == "nan") = false := @word 'n' (by decide) "an".toList
  simp only [read?, String.toList_ofList, sign, inf, infinity, nan, Bool.or_self, Bool.false_eq_true, if_false, Option.map_id']

variable {whole fraction : List Char} (digits : ∀ c ∈ whole, c.isDigit = true) (nonempty : whole ≠ [])

include digits nonempty

theorem magnitude?_whole : magnitude? whole = some (ofParts whole []) := by
  have all : whole.takeWhile Char.isDigit = whole := List.takeWhile_eq_self_iff.2 digits
  have none : whole.dropWhile Char.isDigit = [] := List.dropWhile_eq_nil_iff.2 digits
  rw [magnitude?, all, none, ofParts_nil]
  simp [nonempty, exponent?, ofScaled]

theorem magnitude?_parts (digits' : ∀ c ∈ fraction, c.isDigit = true) (nonempty' : fraction ≠ []) :
    magnitude? (whole ++ '.' :: fraction) = some (ofParts whole fraction) := by
  have point : ('.' : Char).isDigit = false := by decide
  have before : (whole ++ '.' :: fraction).takeWhile Char.isDigit = whole := by
    rw [List.takeWhile_append_of_pos digits, List.takeWhile_cons, point, if_neg Bool.false_ne_true, List.append_nil]
  have behind : (whole ++ '.' :: fraction).dropWhile Char.isDigit = '.' :: fraction := by
    rw [List.dropWhile_append_of_pos digits, List.dropWhile_cons, point, if_neg Bool.false_ne_true]
  have all : fraction.takeWhile Char.isDigit = fraction := List.takeWhile_eq_self_iff.2 digits'
  have none : fraction.dropWhile Char.isDigit = [] := List.dropWhile_eq_nil_iff.2 digits'
  rw [magnitude?, before, behind]
  simp only [all, none]
  simp [nonempty, nonempty', exponent?, ofScaled, ofParts]

theorem read?_whole : read? (String.ofList whole) = some (ofParts whole []) := by
  obtain ⟨d, rest, rfl⟩ := List.exists_cons_of_ne_nil nonempty
  rw [read?_of_digit (digits d List.mem_cons_self), magnitude?_whole digits nonempty]

theorem read?_parts (digits' : ∀ c ∈ fraction, c.isDigit = true) (nonempty' : fraction ≠ []) :
    read? (String.ofList (whole ++ '.' :: fraction)) = some (ofParts whole fraction) := by
  have all := magnitude?_parts digits nonempty digits' nonempty'
  obtain ⟨d, rest, rfl⟩ := List.exists_cons_of_ne_nil nonempty
  rw [List.cons_append] at all ⊢
  rw [read?_of_digit (digits d List.mem_cons_self), all]

end Reading

end Scriptlet.Decimal
