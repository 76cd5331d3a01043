import Mathlib.Algebra.Order.Field.Power
import Mathlib.Algebra.Order.Ring.Rat
import Mathlib.Tactic.Linarith
import Mathlib.Tactic.Positivity
import Mathlib.Tactic.NormNum
import Mathlib.Tactic.Ring
import Scriptlet.Decimal.Numeral

/-!
The floating-point number nearest to a rational. The numbers without a sign form a ladder: their bits count its rungs, and
each rung stands above the one before it. Infinity is the topmost rung and stands where the next power of two would, so
that rounding up to it needs no rule of its own.
-/

namespace Scriptlet.Decimal

def Binary.value (b : Binary) : ℚ :=
  b.significand * 2 ^ b.exponent

namespace Parts

def place? : Parts → Option ℚ
  | .notANumber => none
  | .infinite negative => some (if negative then -2 ^ 1024 else 2 ^ 1024)
  | .zero _ => some 0
  | .finite negative magnitude => some (if negative then -magnitude.value else magnitude.value)

def negative : Parts → Bool
  | .notANumber => false
  | .infinite negative | .zero negative | .finite negative _ => negative

def even : Parts → Bool
  | .finite _ magnitude => magnitude.significand % 2 == 0
  | _ => true

end Parts

/-- The number without a sign that a rational is rounded to: none is nearer, and of two that are equally near it is the one
with an even significand. -/
structure Rounds (q : ℚ) (x : Float) : Prop where
  unsigned : (Parts.ofFloat x).negative = false
  nearest : ∃ v, (Parts.ofFloat x).place? = some v ∧ ∀ y w, (Parts.ofFloat y).place? = some w →
    |q - v| ≤ |q - w| ∧ (|q - v| = |q - w| → v = w ∨ (Parts.ofFloat x).even = true)

/-- The place of the number whose bits are `n`, for a ladder without an end. -/
def rung (n : Nat) : ℚ :=
  if n < 2 ^ 52 then n * 2 ^ (-1074 : ℤ) else (2 ^ 52 + n % 2 ^ 52 : Nat) * 2 ^ ((n / 2 ^ 52 : Nat) - 1075 : ℤ)

def topmost : Nat :=
  2047 * 2 ^ 52

section Rung

theorem rung_eq {a m : Nat} (least : a = 0 ∨ 2 ^ 52 ≤ m) (most : m ≤ 2 ^ 53) :
    rung (a * 2 ^ 52 + m) = m * 2 ^ (a - 1074 : ℤ) := by
  obtain below | within | rfl : m < 2 ^ 52 ∨ (2 ^ 52 ≤ m ∧ m < 2 ^ 53) ∨ m = 2 ^ 53 := by omega
  · obtain rfl : a = 0 := by omega
    rw [rung, if_pos (by omega)]
    simp
  · have digits : (a * 2 ^ 52 + m) / 2 ^ 52 = a + 1 := by omega
    have rest : 2 ^ 52 + (a * 2 ^ 52 + m) % 2 ^ 52 = m := by omega
    rw [rung, if_neg (by omega), digits, rest]
    congr 2
    push_cast
    ring
  · have digits : (a * 2 ^ 52 + 2 ^ 53) / 2 ^ 52 = a + 2 := by omega
    have rest : 2 ^ 52 + (a * 2 ^ 52 + 2 ^ 53) % 2 ^ 52 = 2 ^ 52 := by omega
    rw [rung, if_neg (by omega), digits, rest]
    have shift : ((a + 2 : Nat) - 1075 : ℤ) = (a - 1074) + 1 := by push_cast; ring
    rw [shift, zpow_add_one₀ two_ne_zero]
    push_cast
    ring

theorem exists_rung (n : Nat) : ∃ a m, n = a * 2 ^ 52 + m ∧ (a = 0 ∨ 2 ^ 52 ≤ m) ∧ m < 2 ^ 53 :=
  ⟨n / 2 ^ 52 - 1, n - (n / 2 ^ 52 - 1) * 2 ^ 52, by omega, by omega, by omega⟩

theorem rung_lt_succ (n : Nat) : rung n < rung (n + 1) := by
  obtain ⟨a, m, rfl, least, most⟩ := exists_rung n
  rw [rung_eq least most.le, add_assoc, rung_eq (least.imp_right Nat.le_succ_of_le) most]
  have unit : (0 : ℚ) < 2 ^ (a - 1074 : ℤ) := zpow_pos two_pos _
  push_cast
  linarith

theorem strictMono_rung : StrictMono rung :=
  strictMono_nat_of_lt_succ rung_lt_succ

theorem rung_zero : rung 0 = 0 := by
  simp [rung]

theorem rung_nonneg (n : Nat) : 0 ≤ rung n :=
  rung_zero ▸ strictMono_rung.monotone (Nat.zero_le n)

theorem rung_topmost : rung topmost = 2 ^ 1024 := by
  have place := @rung_eq 2046 (2 ^ 52) (.inr le_rfl) (by norm_num)
  rw [topmost, show 2047 * 2 ^ 52 = 2046 * 2 ^ 52 + 2 ^ 52 by norm_num, place]
  rw [Nat.cast_pow, Nat.cast_two, ← zpow_natCast, ← zpow_natCast, ← zpow_add₀ two_ne_zero]
  rfl

end Rung

section Bits

variable (x : Float)

def signOf : Bool :=
  x.toBits.toNat / 2 ^ 63 == 1

def rankOf : Nat :=
  x.toBits.toNat % 2 ^ 63

theorem ofFloat_of_lt (h : rankOf x < topmost) :
    (Parts.ofFloat x).place? = some (if signOf x then -rung (rankOf x) else rung (rankOf x)) ∧
      (Parts.ofFloat x).negative = signOf x ∧ (Parts.ofFloat x).even = (rankOf x % 2 == 0) := by
  have biased : x.toBits.toNat / 2 ^ 52 % 2 ^ 11 = rankOf x / 2 ^ 52 := by unfold rankOf; omega
  have fraction : x.toBits.toNat % 2 ^ 52 = rankOf x % 2 ^ 52 := by unfold rankOf; omega
  have sign : (x.toBits.toNat / 2 ^ 63 == 1) = signOf x := rfl
  unfold topmost at h
  simp only [Parts.ofFloat, Nat.pow_eq, biased, fraction, sign]
  rw [if_neg (by omega)]
  by_cases small : rankOf x < 2 ^ 52
  · have whole : rankOf x % 2 ^ 52 = rankOf x := by omega
    rw [if_pos (by omega), whole, rung, if_pos small]
    by_cases zero : rankOf x = 0
    · simp [zero, Parts.place?, Parts.negative, Parts.even]
    · simp [zero, Parts.place?, Parts.negative, Parts.even, Binary.value]
  · rw [if_neg (by omega), rung, if_neg small]
    simp [Parts.place?, Parts.negative, Parts.even, Binary.value]
    omega

theorem ofFloat_of_eq (h : rankOf x = topmost) : Parts.ofFloat x = .infinite (signOf x) := by
  have biased : x.toBits.toNat / 2 ^ 52 % 2 ^ 11 = 2047 := by unfold rankOf topmost at h; omega
  have fraction : x.toBits.toNat % 2 ^ 52 = 0 := by unfold rankOf topmost at h; omega
  simp only [Parts.ofFloat, Nat.pow_eq, biased, fraction, if_true]
  rfl

theorem ofFloat_of_gt (h : topmost < rankOf x) : Parts.ofFloat x = .notANumber := by
  have biased : x.toBits.toNat / 2 ^ 52 % 2 ^ 11 = 2047 := by unfold rankOf topmost at h; omega
  have fraction : x.toBits.toNat % 2 ^ 52 ≠ 0 := by unfold rankOf topmost at h; omega
  simp only [Parts.ofFloat, Nat.pow_eq, biased, fraction, if_true, if_false]

variable {x}

theorem ofFloat_of_le (h : rankOf x ≤ topmost) :
    (Parts.ofFloat x).place? = some (if signOf x then -rung (rankOf x) else rung (rankOf x)) ∧
      (Parts.ofFloat x).negative = signOf x ∧ (Parts.ofFloat x).even = (rankOf x % 2 == 0) := by
  obtain less | same := h.lt_or_eq
  · exact ofFloat_of_lt x less
  · rw [ofFloat_of_eq x same, same, rung_topmost]
    exact ⟨rfl, rfl, rfl⟩

theorem rank_of_place? {v : ℚ} (h : (Parts.ofFloat x).place? = some v) :
    rankOf x ≤ topmost ∧ v = if signOf x then -rung (rankOf x) else rung (rankOf x) := by
  obtain most | beyond := le_or_gt (rankOf x) topmost
  · exact ⟨most, Option.some.inj (h.symm.trans (ofFloat_of_le most).1)⟩
  · rw [ofFloat_of_gt x beyond] at h
    cases h

theorem eq_of_rank {y : Float} (rank : rankOf x = rankOf y) (sign : signOf x = signOf y) : x = y := by
  obtain ⟨⟨bits, _⟩⟩ := x
  obtain ⟨⟨bits', _⟩⟩ := y
  have same : bits = bits' := by
    have sign : (bits.toNat / 2 ^ 63 == 1) = (bits'.toNat / 2 ^ 63 == 1) := sign
    have rank : bits.toNat % 2 ^ 63 = bits'.toNat % 2 ^ 63 := rank
    have := bits.toNat_lt
    have := bits'.toNat_lt
    rw [Bool.eq_iff_iff, beq_iff_eq, beq_iff_eq] at sign
    exact UInt64.toNat.inj (by omega)
  subst same
  rfl

end Bits

/-- A rung next to which no other is nearer; of two that are equally near it is the even one. -/
structure Nears (q : ℚ) (r : Nat) : Prop where
  below : ∀ k, k + 1 = r → rung k + rung r ≤ 2 * q ∧ (rung k + rung r = 2 * q → r % 2 = 0)
  above : 2 * q ≤ rung r + rung (r + 1) ∧ (2 * q = rung r + rung (r + 1) → r % 2 = 0)

namespace Nears

variable {q : ℚ} {r : Nat}

theorem above_nearer {a b : ℚ} (less : a < b) (half : a + b ≤ 2 * q) :
    |q - b| ≤ |q - a| ∧ (|q - b| = |q - a| → a + b = 2 * q) := by
  rw [abs_of_nonneg (show 0 ≤ q - a by linarith)]
  obtain ⟨eq, -⟩ | ⟨eq, -⟩ := abs_cases (q - b) <;> rw [eq] <;> constructor <;> intros <;> linarith

theorem below_nearer {a b : ℚ} (less : a < b) (half : 2 * q ≤ a + b) :
    |q - a| ≤ |q - b| ∧ (|q - a| = |q - b| → 2 * q = a + b) := by
  rw [abs_of_nonpos (show q - b ≤ 0 by linarith)]
  obtain ⟨eq, -⟩ | ⟨eq, -⟩ := abs_cases (q - a) <;> rw [eq] <;> constructor <;> intros <;> linarith

theorem of_floor (low : rung r ≤ q) (half : 2 * q ≤ rung r + rung (r + 1))
    (tie : 2 * q = rung r + rung (r + 1) → r % 2 = 0) : Nears q r := by
  refine ⟨fun k next => ?_, half, tie⟩
  have step : rung k < rung r := strictMono_rung (by omega)
  exact ⟨by linarith, fun same => absurd same (by linarith)⟩

theorem of_ceil (high : q ≤ rung (r + 1)) (half : rung r + rung (r + 1) ≤ 2 * q)
    (tie : rung r + rung (r + 1) = 2 * q → (r + 1) % 2 = 0) : Nears q (r + 1) := by
  have step := rung_lt_succ (r + 1)
  refine ⟨fun k next => ?_, by linarith, fun same => absurd same (by linarith)⟩
  obtain rfl : k = r := by omega
  exact ⟨half, tie⟩

theorem nearest (h : Nears q r) (k : Nat) :
    |q - rung r| ≤ |q - rung k| ∧ (|q - rung r| = |q - rung k| → r = k ∨ r % 2 = 0) := by
  obtain less | rfl | greater := lt_trichotomy k r
  · obtain ⟨r, rfl⟩ := Nat.exists_eq_succ_of_ne_zero (Nat.ne_zero_of_lt less)
    obtain ⟨half, tie⟩ := h.below r rfl
    have step : rung k ≤ rung r := strictMono_rung.monotone (Nat.le_of_lt_succ less)
    obtain ⟨nearer, even⟩ := above_nearer (strictMono_rung less) ((add_le_add_left step _).trans half)
    exact ⟨nearer, fun same => .inr (tie (by linarith [even same]))⟩
  · exact ⟨le_rfl, fun _ => .inl rfl⟩
  · obtain ⟨half, tie⟩ := h.above
    have step : rung (r + 1) ≤ rung k := strictMono_rung.monotone greater
    obtain ⟨nearer, even⟩ := below_nearer (strictMono_rung greater) (half.trans (add_le_add_right step _))
    exact ⟨nearer, fun same => .inr (tie (by linarith [even same]))⟩

theorem clamped (h : Nears q r) {k : Nat} (most : k ≤ topmost) :
    |q - rung (min r topmost)| ≤ |q - rung k| ∧
      (|q - rung (min r topmost)| = |q - rung k| → min r topmost = k ∨ min r topmost % 2 = 0) := by
  obtain within | beyond := le_or_gt r topmost
  · rw [min_eq_left within]
    exact h.nearest k
  · obtain ⟨r, rfl⟩ := Nat.exists_eq_succ_of_ne_zero (Nat.ne_zero_of_lt beyond)
    have half := (h.below r rfl).1
    have step : rung topmost ≤ rung r := strictMono_rung.monotone (Nat.le_of_lt_succ beyond)
    have step' : rung topmost ≤ rung (r + 1) := strictMono_rung.monotone beyond.le
    have lower : rung k ≤ rung topmost := strictMono_rung.monotone most
    rw [min_eq_right beyond.le, abs_of_nonneg (by linarith), abs_of_nonneg (by linarith)]
    exact ⟨by linarith, fun _ => .inr rfl⟩

theorem rounds (h : Nears q r) (nonneg : 0 ≤ q) {x : Float} (unsigned : signOf x = false)
    (rank : rankOf x = min r topmost) : Rounds q x := by
  obtain ⟨place, negative, even⟩ := ofFloat_of_le (rank.trans_le (min_le_right r topmost))
  rw [unsigned, if_neg Bool.false_ne_true, rank] at place
  refine ⟨negative.trans unsigned, _, place, fun y w hw => ?_⟩
  obtain ⟨most, rfl⟩ := rank_of_place? hw
  obtain ⟨nearer, tie⟩ := h.clamped most
  have low := rung_nonneg (rankOf y)
  rw [even, rank, beq_iff_eq]
  cases signOf y with
  | false => exact ⟨nearer, fun same => (tie same).imp_left (congrArg rung)⟩
  | true =>
    -- on the other side of zero no number is as near as zero, which stands on the first rung
    have fromZero := (h.clamped (Nat.zero_le topmost)).1
    rw [rung_zero, sub_zero, abs_of_nonneg nonneg] at fromZero
    rw [if_pos rfl, sub_neg_eq_add, abs_of_nonneg (add_nonneg nonneg low)]
    refine ⟨by linarith, fun same => ?_⟩
    have zero : rung (rankOf y) = 0 := by linarith
    rw [zero, sub_zero, abs_of_nonneg nonneg] at tie
    rw [zero, add_zero] at same
    rw [zero, neg_zero, ← zero]
    exact (tie same).imp_left (congrArg rung)

end Nears

end Scriptlet.Decimal
