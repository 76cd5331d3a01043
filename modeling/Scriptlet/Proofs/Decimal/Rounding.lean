import Scriptlet.Proofs.Decimal.Nearest

namespace Scriptlet.Decimal

open Float.Model Float.Model.UnpackedFloat

section Mantissa

theorem mantissa_ofMantissaAndAccuracy (m : Nat) (accuracy : Accuracy) :
    (ExtendedMantissa.ofMantissaAndAccuracy m accuracy).mantissa = m := by
  obtain _ | _ | _ | _ := accuracy <;> rfl

theorem mantissa_shiftRight (em : ExtendedMantissa) (n : Nat) : (em >>> n).mantissa = em.mantissa / 2 ^ n := by
  change (n.repeat ExtendedMantissa.shiftRightOne em).mantissa = _
  induction n with
  | zero => simp [Nat.repeat]
  | succ n ih =>
    rw [Nat.repeat, pow_succ, ← Nat.div_div_eq_div_mul, ← ih]
    rfl

theorem rounded_bounds (em : ExtendedMantissa) :
    em.mantissa ≤ em.roundedMantissa ∧ em.roundedMantissa ≤ em.mantissa + 1 := by
  obtain ⟨m, _ | _, _ | _⟩ := em <;>
    simp only [ExtendedMantissa.roundedMantissa, ExtendedMantissa.accuracy, Accuracy.roundToNearestEven] <;> omega

end Mantissa

/-- What a mantissa says of a number, with a bit for its first half and one for any rest. -/
def Truncates (em : ExtendedMantissa) (q : ℚ) : Prop :=
  match em.roundBit, em.stickyBit with
  | false, false => q = em.mantissa
  | false, true => em.mantissa < q ∧ q < em.mantissa + 1 / 2
  | true, false => q = em.mantissa + 1 / 2
  | true, true => em.mantissa + 1 / 2 < q ∧ q < em.mantissa + 1

namespace Truncates

variable {em : ExtendedMantissa} {q : ℚ}

theorem exact (m : Nat) : Truncates (.ofMantissaAndAccuracy m .exact) m :=
  rfl

theorem div (n : Nat) {d : Nat} (pos : 0 < d) :
    Truncates (.ofMantissaAndAccuracy (n / d) (accuracyOfFraction (n % d) d)) (n / d) := by
  have pos' : (0 : ℚ) < d := by exact_mod_cast pos
  have whole : (n : ℚ) = d * (n / d : Nat) + (n % d : Nat) := by exact_mod_cast (Nat.div_add_mod n d).symm
  have less : ((n % d : Nat) : ℚ) < d := by exact_mod_cast Nat.mod_lt n pos
  have split : (n / d : ℚ) = (n / d : Nat) + (n % d : Nat) / d := by
    rw [whole, add_div, mul_div_cancel_left₀ _ pos'.ne']
  rw [split]
  generalize n % d = rest at less
  unfold accuracyOfFraction
  by_cases none : rest = 0
  · simp [none, Truncates, ExtendedMantissa.ofMantissaAndAccuracy]
  · have some : (0 : ℚ) < rest := by exact_mod_cast Nat.pos_of_ne_zero none
    rw [if_neg none]
    cases half : compare (2 * rest) d with
    | lt =>
      have half : (2 * rest : ℚ) < d := by exact_mod_cast Nat.compare_eq_lt.1 half
      have : (rest / d : ℚ) < 1 / 2 := by rw [div_lt_div_iff₀ pos' two_pos]; linarith
      simpa [Truncates, ExtendedMantissa.ofMantissaAndAccuracy] using And.intro (div_pos some pos') this
    | eq =>
      have half : (2 * rest : ℚ) = d := by exact_mod_cast Nat.compare_eq_eq.1 half
      have : (rest / d : ℚ) = 1 / 2 := by rw [div_eq_div_iff pos'.ne' two_ne_zero]; linarith
      simpa [Truncates, ExtendedMantissa.ofMantissaAndAccuracy] using this
    | gt =>
      have half : (d : ℚ) < 2 * rest := by exact_mod_cast Nat.compare_eq_gt.1 half
      have above : (1 / 2 : ℚ) < rest / d := by rw [div_lt_div_iff₀ two_pos pos']; linarith
      have below : (rest / d : ℚ) < 1 := (div_lt_one pos').2 less
      simpa [Truncates, ExtendedMantissa.ofMantissaAndAccuracy] using And.intro above below

theorem shiftRightOne (h : Truncates em q) : Truncates em.shiftRightOne (q / 2) := by
  obtain ⟨m, round, sticky⟩ := em
  obtain ⟨m, rfl | rfl⟩ : ∃ k, m = 2 * k ∨ m = 2 * k + 1 := ⟨m / 2, by omega⟩
  · cases round <;> cases sticky <;> simp [Truncates, ExtendedMantissa.shiftRightOne] at h ⊢ <;> grind
  · have half : (2 * m + 1) / 2 = m := by omega
    cases round <;> cases sticky <;> simp [Truncates, ExtendedMantissa.shiftRightOne, half] at h ⊢ <;> grind

theorem shiftRight (h : Truncates em q) (n : Nat) : Truncates (em >>> n) (q / 2 ^ n) := by
  change Truncates (n.repeat ExtendedMantissa.shiftRightOne em) _
  induction n with
  | zero => simpa [Nat.repeat] using h
  | succ n ih =>
    rw [Nat.repeat, pow_succ, ← div_div]
    exact ih.shiftRightOne

theorem rounded (h : Truncates em q) :
    em.mantissa ≤ q ∧ q < em.mantissa + 1 ∧
      (em.roundedMantissa = em.mantissa ∧ 2 * q ≤ 2 * em.mantissa + 1 ∧
          (2 * q = 2 * em.mantissa + 1 → em.mantissa % 2 = 0) ∨
        em.roundedMantissa = em.mantissa + 1 ∧ 2 * em.mantissa + 1 ≤ 2 * q ∧
          (2 * em.mantissa + 1 = 2 * q → (em.mantissa + 1) % 2 = 0)) := by
  obtain ⟨m, round, sticky⟩ := em
  cases round <;> cases sticky <;>
    simp [Truncates, ExtendedMantissa.roundedMantissa, ExtendedMantissa.accuracy, Accuracy.roundToNearestEven] at h ⊢
  · grind
  · grind
  · obtain even | odd := Nat.mod_two_eq_zero_or_one m
    · grind
    · grind
  · grind

/-- The nearest rung to a number whose significand is cut off at 53 bits, or at the least exponent. -/
theorem nears (h : Truncates em q) {a : Nat} (least : a = 0 ∨ 2 ^ 52 ≤ em.mantissa) (most : em.mantissa < 2 ^ 53) :
    Nears (q * 2 ^ (a - 1074 : ℤ)) (a * 2 ^ 52 + em.roundedMantissa) := by
  obtain ⟨low, high, choice⟩ := h.rounded
  have positive : (0 : ℚ) < 2 ^ (a - 1074 : ℤ) := zpow_pos two_pos _
  have floor := rung_eq least most.le
  have ceil := rung_eq (least.imp_right Nat.le_succ_of_le) most
  rw [Nat.cast_succ, Nat.succ_eq_add_one, ← add_assoc] at ceil
  generalize (2 : ℚ) ^ (a - 1074 : ℤ) = unit at positive floor ceil
  have sum : rung (a * 2 ^ 52 + em.mantissa) + rung (a * 2 ^ 52 + em.mantissa + 1) = (2 * em.mantissa + 1) * unit := by
    rw [floor, ceil]
    ring
  have twice : 2 * (q * unit) = 2 * q * unit := by ring
  obtain ⟨eq, half, tie⟩ | ⟨eq, half, tie⟩ := choice
  · rw [eq]
    refine .of_floor ?_ ?_ fun same => ?_
    · rw [floor]
      exact mul_le_mul_of_nonneg_right low positive.le
    · rw [sum, twice]
      exact mul_le_mul_of_nonneg_right half positive.le
    · rw [sum, twice] at same
      have even := tie (mul_right_cancel₀ positive.ne' same)
      omega
  · rw [eq, ← add_assoc]
    refine .of_ceil ?_ ?_ fun same => ?_
    · rw [ceil]
      exact mul_le_mul_of_nonneg_right high.le positive.le
    · rw [sum, twice]
      exact mul_le_mul_of_nonneg_right half positive.le
    · rw [sum, twice] at same
      have even := tie (mul_right_cancel₀ positive.ne' same)
      omega

end Truncates

theorem mantissaBits_eq : Format.binary64.mantissaBits = 53 := rfl

section Packing

theorem toNat_packComponents (exponent : BitVec 11) (mantissa : BitVec 52) :
    (packComponents .binary64 .positive exponent mantissa).toNat = exponent.toNat * 2 ^ 52 + mantissa.toNat := by
  unfold packComponents
  rw [BitVec.toNat_append, BitVec.toNat_append, ← Nat.shiftLeft_add_eq_or_of_lt mantissa.isLt]
  simp [Sign.toBitVec, Nat.shiftLeft_eq]

theorem rank_pack_zero :
    rankOf (.ofModel (.pack (.zero .positive))) = 0 ∧ signOf (.ofModel (.pack (.zero .positive))) = false := by
  decide

theorem toNat_pack {a m : Nat} (pos : 0 < m) (least : a = 0 ∨ 2 ^ 52 ≤ m) (most : m < 2 ^ 53) :
    (UnpackedFloat.pack .binary64 (.finite .positive m (a - 1074) pos)).toNat = min (a * 2 ^ 52 + m) topmost := by
  have biased : ((a - 1074 : Int) + Format.binary64.exponentBias + Format.binary64.mantissaBitsWithoutImplicit).toNat =
      a + 1 := by
    simp only [Format.exponentBias]
    omega
  have infinity : (packedInfinity .binary64 .positive).toNat = topmost := by decide
  have log : m.log2 < 53 := (Nat.log2_lt pos.ne').2 most
  have normal : m.log2 + 1 = Format.binary64.mantissaBits ↔ 2 ^ 52 ≤ m := by
    rw [← Nat.le_log2 pos.ne', mantissaBits_eq]
    omega
  unfold UnpackedFloat.pack
  rw [biased]
  dsimp only
  split
  · next large =>
    have large : 2046 ≤ a := by simpa using large
    rw [infinity, topmost]
    omega
  · next small =>
    have small : a < 2046 := by simpa using small
    clear biased infinity log
    split
    · next full =>
      rw [normal] at full
      rw [toNat_packComponents, BitVec.toNat_ofNat, BitVec.toNat_ofNat, topmost]
      change (a + 1) % 2 ^ 11 * 2 ^ 52 + m % 2 ^ 52 = _
      omega
    · next short =>
      rw [normal] at short
      rw [toNat_packComponents, BitVec.toNat_ofNat, BitVec.toNat_ofNat, topmost]
      change 0 % 2 ^ 11 * 2 ^ 52 + m % 2 ^ 52 = _
      omega

theorem rank_pack {a m : Nat} (pos : 0 < m) (least : a = 0 ∨ 2 ^ 52 ≤ m) (most : m < 2 ^ 53) :
    rankOf (.ofModel (.pack (.finite .positive m (a - 1074) pos))) = min (a * 2 ^ 52 + m) topmost ∧
      signOf (.ofModel (.pack (.finite .positive m (a - 1074) pos))) = false := by
  have bits : (Float.ofModel (.pack (.finite .positive m (a - 1074) pos))).toBits.toNat =
      min (a * 2 ^ 52 + m) topmost := toNat_pack pos least most
  have small : min (a * 2 ^ 52 + m) topmost < 2 ^ 63 := (min_le_right _ _).trans_lt (by decide)
  rw [rankOf, signOf, bits]
  exact ⟨Nat.mod_eq_of_lt small, by rw [Nat.div_eq_of_lt small]; rfl⟩

end Packing

section Rounding

theorem target_eq (m : Nat) (e : Int) :
    Format.binary64.targetExponent (totalExponent m e) = max (m.log2 + e - 52) (-1074) := by
  simp only [Format.targetExponent, totalExponent, mantissaBits_eq, Format.minExponent]
  omega

theorem shift_eq {m s : Nat} {e : Int} (accuracy : Accuracy) (amount : (max (m.log2 + e - 52) (-1074) - e).toNat = s) :
    shiftToTargetExponent .binary64 m e accuracy =
      (ExtendedMantissa.ofMantissaAndAccuracy m accuracy >>> s, e + s) := by
  rw [shiftToTargetExponent, shiftToExponent, target_eq, amount]

theorem exists_shift {m : Nat} {e : Int} (fits : 52 ≤ m.log2 ∨ e ≤ -1074) :
    ∃ a s : Nat, (max (m.log2 + e - 52) (-1074) - e).toNat = s ∧ e + s = a - 1074 ∧
      (a = 0 ∨ 2 ^ 52 ≤ m / 2 ^ s) ∧ m / 2 ^ s < 2 ^ 53 := by
  obtain ⟨a, ha⟩ : ∃ a : Nat, max (m.log2 + e - 52) (-1074) = (a : Int) - 1074 :=
    ⟨(max (m.log2 + e - 52) (-1074) + 1074).toNat, by omega⟩
  obtain ⟨s, hs⟩ : ∃ s : Nat, e + s = (a : Int) - 1074 := ⟨((a : Int) - 1074 - e).toNat, by omega⟩
  refine ⟨a, s, by omega, hs, ?_, ?_⟩
  · by_cases zero : a = 0
    · exact .inl zero
    · have log : m.log2 = 52 + s := by omega
      have nonzero : m ≠ 0 := by
        rintro rfl
        rw [Nat.log2_zero] at log
        omega
      refine .inr ((Nat.le_div_iff_mul_le (Nat.two_pow_pos s)).2 ?_)
      rw [← pow_add, ← log]
      exact Nat.log2_self_le nonzero
  · rw [Nat.div_lt_iff_lt_mul (Nat.two_pow_pos s), ← pow_add]
    exact Nat.lt_log2_self.trans_le (Nat.pow_le_pow_right two_pos (by omega))

/-- Behind the rounding, a second shift matters only where a new bit was carried. -/
theorem rank_round {m a s : Nat} {e : Int} {accuracy : Accuracy}
    (amount : (max (m.log2 + e - 52) (-1074) - e).toNat = s) (cut : e + s = a - 1074)
    (least : a = 0 ∨ 2 ^ 52 ≤ m / 2 ^ s) (most : m / 2 ^ s < 2 ^ 53) :
    rankOf (.ofModel (.pack (roundWithAccuracy .binary64 .positive m e accuracy))) =
        min (a * 2 ^ 52 + (ExtendedMantissa.ofMantissaAndAccuracy m accuracy >>> s).roundedMantissa) topmost ∧
      signOf (.ofModel (.pack (roundWithAccuracy .binary64 .positive m e accuracy))) = false := by
  have bounds := rounded_bounds (ExtendedMantissa.ofMantissaAndAccuracy m accuracy >>> s)
  rw [mantissa_shiftRight, mantissa_ofMantissaAndAccuracy] at bounds
  rw [roundWithAccuracy, shift_eq accuracy amount, cut]
  dsimp only
  generalize (ExtendedMantissa.ofMantissaAndAccuracy m accuracy >>> s).roundedMantissa = r at bounds
  obtain carried | within : r = 2 ^ 53 ∨ r < 2 ^ 53 := by omega
  · have next : (a - 1074 : Int) + (1 : Nat) = (a + 1 : Nat) - 1074 := by omega
    have halved : (ExtendedMantissa.ofMantissaAndAccuracy (2 ^ 53) .exact >>> 1).mantissa = 2 ^ 52 := by
      rw [mantissa_shiftRight]
      rfl
    rw [carried, @shift_eq _ 1 _ .exact (by rw [Nat.log2_two_pow]; omega), next]
    dsimp only
    generalize (ExtendedMantissa.ofMantissaAndAccuracy (2 ^ 53) .exact >>> 1).mantissa = k at halved ⊢
    subst halved
    rw [dif_neg (by decide)]
    have sum : (a + 1) * 2 ^ 52 + 2 ^ 52 = a * 2 ^ 52 + 2 ^ 53 := by omega
    rw [← sum]
    exact rank_pack (by decide) (.inr le_rfl) (by decide)
  · have log : r.log2 ≤ 52 := by
      by_cases zero : r = 0
      · simp [zero]
      · exact Nat.le_of_lt_succ ((Nat.log2_lt zero).2 within)
    have kept : (ExtendedMantissa.ofMantissaAndAccuracy r .exact >>> 0).mantissa = r := rfl
    rw [@shift_eq _ 0 _ .exact (by omega)]
    dsimp only
    generalize (ExtendedMantissa.ofMantissaAndAccuracy r .exact >>> 0).mantissa = k at kept ⊢
    obtain rfl : r = k := kept.symm
    by_cases zero : r = 0
    · obtain rfl : a = 0 := by omega
      rw [dif_pos zero, zero]
      exact rank_pack_zero
    · rw [dif_neg zero, Nat.cast_zero, add_zero]
      exact rank_pack (Nat.pos_of_ne_zero zero) (by omega) within

theorem nears_round {m : Nat} {e : Int} {accuracy : Accuracy} {q : ℚ}
    (h : Truncates (.ofMantissaAndAccuracy m accuracy) q) (fits : 52 ≤ m.log2 ∨ e ≤ -1074) :
    ∃ r, Nears (q * 2 ^ e) r ∧
      rankOf (.ofModel (.pack (roundWithAccuracy .binary64 .positive m e accuracy))) = min r topmost ∧
      signOf (.ofModel (.pack (roundWithAccuracy .binary64 .positive m e accuracy))) = false := by
  obtain ⟨a, s, amount, cut, least, most⟩ := exists_shift fits
  have scaled : q * 2 ^ e = q / 2 ^ s * 2 ^ (a - 1074 : ℤ) := by
    rw [← cut, zpow_add₀ two_ne_zero, zpow_natCast, mul_left_comm, div_mul_cancel₀ _ (pow_ne_zero s two_ne_zero), mul_comm]
  have mantissa : (ExtendedMantissa.ofMantissaAndAccuracy m accuracy >>> s).mantissa = m / 2 ^ s := by
    rw [mantissa_shiftRight, mantissa_ofMantissaAndAccuracy]
  refine ⟨_, ?_, rank_round amount cut least most⟩
  rw [scaled]
  exact (h.shiftRight s).nears (mantissa ▸ least) (mantissa ▸ most)

theorem nonneg_of_truncates {em : ExtendedMantissa} {q : ℚ} (h : Truncates em q) : 0 ≤ q :=
  (Nat.cast_nonneg _).trans h.rounded.1

theorem rounds_round {m : Nat} {e : Int} {accuracy : Accuracy} {q : ℚ}
    (h : Truncates (.ofMantissaAndAccuracy m accuracy) q) (fits : 52 ≤ m.log2 ∨ e ≤ -1074) :
    Rounds (q * 2 ^ e) (.ofModel (.pack (roundWithAccuracy .binary64 .positive m e accuracy))) := by
  obtain ⟨r, nears, rank, sign⟩ := nears_round h fits
  exact nears.rounds (mul_nonneg (nonneg_of_truncates h) (zpow_pos two_pos e).le) sign rank

theorem rounds_zero {q : ℚ} (nonneg : 0 ≤ q) (small : 2 * q ≤ 2 ^ (-1074 : ℤ)) :
    Rounds q (.ofModel (.pack (.zero .positive))) := by
  have first : rung 1 = 2 ^ (-1074 : ℤ) := by simp [rung]
  have nears : Nears q 0 :=
    .of_floor (by rwa [rung_zero]) (by rwa [rung_zero, zero_add, first]) fun _ => rfl
  exact nears.rounds nonneg rank_pack_zero.2 rank_pack_zero.1

theorem rounds_mul {m₁ m₂ : Nat} {e₁ e₂ : Int} (pos₁ : 0 < m₁) (pos₂ : 0 < m₂) (fits : 2 ^ 52 ≤ m₁ * m₂) :
    Rounds (m₁ * 2 ^ e₁ * (m₂ * 2 ^ e₂))
      (.ofModel (.pack (mul .binary64 (.finite .positive m₁ e₁ pos₁) (.finite .positive m₂ e₂ pos₂)))) := by
  have product : (m₁ * 2 ^ e₁ * (m₂ * 2 ^ e₂) : ℚ) = (m₁ * m₂ : Nat) * 2 ^ (e₁ + e₂) := by
    rw [zpow_add₀ two_ne_zero]
    push_cast
    ring
  rw [product]
  exact rounds_round (.exact _) (.inl ((Nat.le_log2 (Nat.mul_ne_zero pos₁.ne' pos₂.ne')).2 fits))

theorem exists_divCore {m₁ m₂ : Nat} (e₁ e₂ : Int) (pos₁ : 0 < m₁) (pos₂ : 0 < m₂) :
    ∃ (s : Nat) (t : Int), divCore .binary64 m₁ e₁ m₂ e₂ =
        (m₁ * 2 ^ s / m₂, t, accuracyOfFraction (m₁ * 2 ^ s % m₂) m₂) ∧
      t + s = e₁ - e₂ ∧ (52 ≤ (m₁ * 2 ^ s / m₂).log2 ∨ t ≤ -1074) := by
  have target : Format.binary64.targetExponent (totalExponent m₁ e₁ - totalExponent m₂ e₂) =
      max (m₁.log2 + e₁ - (m₂.log2 + e₂) - 53) (-1074) := by
    simp only [Format.targetExponent, totalExponent, mantissaBits_eq, Format.minExponent]
    omega
  unfold divCore
  rw [target]
  generalize ht : min (e₁ - e₂) (max (m₁.log2 + e₁ - (m₂.log2 + e₂) - 53) (-1074)) = t
  obtain ⟨s, hs⟩ : ∃ s : Nat, t + s = e₁ - e₂ := ⟨(e₁ - e₂ - t).toNat, by omega⟩
  have amount : (e₁ - e₂ - t).toNat = s := by omega
  refine ⟨s, t, by simp only [amount, Nat.shiftLeft_eq], hs, ?_⟩
  by_cases low : t ≤ -1074
  · exact .inr low
  · have enough : 53 + m₂.log2 ≤ m₁.log2 + s := by omega
    have many : 2 ^ 52 ≤ m₁ * 2 ^ s / m₂ := by
      rw [Nat.le_div_iff_mul_le pos₂]
      calc 2 ^ 52 * m₂ ≤ 2 ^ 52 * 2 ^ (m₂.log2 + 1) := Nat.mul_le_mul_left _ Nat.lt_log2_self.le
        _ = 2 ^ (53 + m₂.log2) := by rw [← pow_add]; congr 1; omega
        _ ≤ 2 ^ (m₁.log2 + s) := Nat.pow_le_pow_right two_pos enough
        _ ≤ m₁ * 2 ^ s := by rw [pow_add]; exact Nat.mul_le_mul_right _ (Nat.log2_self_le pos₁.ne')
    exact .inl ((Nat.le_log2 (Nat.pos_iff_ne_zero.1 (lt_of_lt_of_le (Nat.two_pow_pos 52) many))).2 many)

theorem rounds_div {m₁ m₂ : Nat} {e₁ e₂ : Int} (pos₁ : 0 < m₁) (pos₂ : 0 < m₂) :
    Rounds (m₁ * 2 ^ e₁ / (m₂ * 2 ^ e₂))
      (.ofModel (.pack (div .binary64 (.finite .positive m₁ e₁ pos₁) (.finite .positive m₂ e₂ pos₂)))) := by
  obtain ⟨s, t, core, sum, fits⟩ := exists_divCore e₁ e₂ pos₁ pos₂
  have quotient : (m₁ * 2 ^ e₁ / (m₂ * 2 ^ e₂) : ℚ) = (m₁ * 2 ^ s : Nat) / m₂ * 2 ^ t := by
    have exponent : e₁ = t + s + e₂ := by omega
    rw [exponent, zpow_add₀ two_ne_zero, zpow_add₀ two_ne_zero, zpow_natCast]
    push_cast
    rw [← mul_assoc, mul_div_mul_right _ _ (zpow_ne_zero e₂ two_ne_zero)]
    ring
  have cut : div .binary64 (.finite .positive m₁ e₁ pos₁) (.finite .positive m₂ e₂ pos₂) =
      let (m, e, accuracy) := divCore .binary64 m₁ e₁ m₂ e₂
      roundWithAccuracy .binary64 .positive m e accuracy := rfl
  rw [quotient, cut, core]
  exact rounds_round (.div _ pos₂) fits

end Rounding

section Unpacking

theorem toNat_unpackMantissa (b : BitVec 64) : (@unpackMantissa .binary64 b).toNat = b.toNat % 2 ^ 52 := by
  simp [unpackMantissa]

theorem toNat_unpackExponent (b : BitVec 64) : (@unpackExponent .binary64 b).toNat = b.toNat / 2 ^ 52 % 2 ^ 11 := by
  simp [unpackExponent, Nat.shiftRight_eq_div_pow]

theorem toNat_unpackSign (b : BitVec 64) : (@unpackSign .binary64 b).toNat = b.toNat / 2 ^ 63 % 2 := by
  unfold unpackSign
  simp [Nat.shiftRight_eq_div_pow]

theorem exists_unpack {x : Float} (sign : signOf x = false) (low : rankOf x ≠ 0) (high : rankOf x < topmost) :
    ∃ m e pos, x.toModel.unpack = .finite .positive m e pos ∧ (m * 2 ^ e : ℚ) = rung (rankOf x) := by
  have small : x.toModel.toBits.toBitVec.toNat < 2 ^ 64 := x.toModel.toBits.toBitVec.isLt
  have bits : x.toModel.toBits.toBitVec.toNat = rankOf x := by
    have sign : (x.toModel.toBits.toBitVec.toNat / 2 ^ 63 == 1) = false := sign
    rw [beq_eq_false_iff_ne] at sign
    change _ = x.toModel.toBits.toBitVec.toNat % 2 ^ 63
    omega
  have unsigned : Sign.ofBitVec (@unpackSign .binary64 x.toModel.toBits.toBitVec) = .positive := by
    refine if_pos (BitVec.eq_of_toNat_eq ?_)
    rw [toNat_unpackSign, bits]
    unfold topmost at high
    change rankOf x / 2 ^ 63 % 2 = 0
    omega
  have exponent := toNat_unpackExponent x.toModel.toBits.toBitVec
  have mantissa := toNat_unpackMantissa x.toModel.toBits.toBitVec
  rw [bits] at exponent mantissa
  unfold topmost at high
  unfold Float.Model.unpack UnpackedFloat.unpack
  dsimp only
  rw [unsigned]
  have below : @unpackExponent .binary64 x.toModel.toBits.toBitVec ≠ -1#_ := by
    intro full
    have full := congrArg BitVec.toNat full
    rw [exponent] at full
    change _ = 2047 at full
    omega
  rw [if_neg below]
  by_cases least : @unpackExponent .binary64 x.toModel.toBits.toBitVec = 0#_
  · rw [if_pos least]
    have least := congrArg BitVec.toNat least
    rw [exponent] at least
    change _ = 0 at least
    have small : rankOf x < 2 ^ 52 := by omega
    have whole : rankOf x % 2 ^ 52 = rankOf x := by omega
    rw [whole] at mantissa
    have some : @unpackMantissa .binary64 x.toModel.toBits.toBitVec ≠ 0#_ := fun none =>
      low (mantissa.symm.trans (congrArg BitVec.toNat none))
    rw [dif_neg some]
    refine ⟨(@unpackMantissa .binary64 x.toModel.toBits.toBitVec).toNat, _, mantissa ▸ Nat.pos_of_ne_zero low, rfl, ?_⟩
    have lowest : ((@unpackExponent .binary64 x.toModel.toBits.toBitVec).toNat : Int) -
        (Format.binary64.exponentBias + Format.binary64.mantissaBitsWithoutImplicit) + 1 = -1074 := by
      rw [exponent, least]
      decide
    rw [mantissa, lowest, rung, if_pos small]
  · rw [if_neg least]
    have some : rankOf x / 2 ^ 52 % 2 ^ 11 ≠ 0 := fun zero =>
      least (BitVec.eq_of_toNat_eq (exponent.trans zero))
    have significand : (1#1 ++ @unpackMantissa .binary64 x.toModel.toBits.toBitVec).toNat = 2 ^ 52 + rankOf x % 2 ^ 52 := by
      rw [BitVec.toNat_append, ← Nat.shiftLeft_add_eq_or_of_lt (BitVec.isLt _), mantissa]
      rfl
    have place : ((@unpackExponent .binary64 x.toModel.toBits.toBitVec).toNat : Int) -
        (Format.binary64.exponentBias + Format.binary64.mantissaBitsWithoutImplicit) = (rankOf x / 2 ^ 52 : Nat) - 1075 := by
      rw [exponent, show rankOf x / 2 ^ 52 % 2 ^ 11 = rankOf x / 2 ^ 52 by omega]
      rfl
    refine ⟨(1#1 ++ @unpackMantissa .binary64 x.toModel.toBits.toBitVec).toNat, _, by rw [significand]; omega, rfl, ?_⟩
    rw [significand, place, rung, if_neg (by omega)]

end Unpacking

end Scriptlet.Decimal
