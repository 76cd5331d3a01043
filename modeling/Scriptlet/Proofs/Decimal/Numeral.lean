import Mathlib.Tactic.FieldSimp
import Scriptlet.Proofs.Decimal.Scientific

namespace Scriptlet.Decimal

inductive Spells (q : ℚ) : List Char → Prop
  | whole {whole : List Char} (nonempty : whole ≠ []) (digits : ∀ c ∈ whole, c.isDigit = true)
      (value : magnitude whole [] = q) : Spells q whole
  | parts {whole fraction : List Char} (nonempty : whole ≠ []) (nonempty' : fraction ≠ [])
      (digits : ∀ c ∈ whole, c.isDigit = true) (digits' : ∀ c ∈ fraction, c.isDigit = true)
      (value : magnitude whole fraction = q) : Spells q (whole ++ '.' :: fraction)

def Scaled.value (d : Scaled) : ℚ :=
  d.coefficient * 10 ^ d.exponent

section Positional

theorem ofDigits_toDigits (n : Nat) : ofDigits (Nat.toDigits 10 n) = n :=
  Nat.ofDigitChars_ten_toDigits

theorem ofDigits_zeros (n : Nat) : ofDigits (zeros n) = 0 :=
  Nat.ofDigitChars_replicate_zero.trans (Nat.mul_zero _)

theorem isDigit_zeros {n : Nat} : ∀ c ∈ zeros n, c.isDigit = true := by
  intro c mem
  rw [List.eq_of_mem_replicate mem]
  rfl

theorem isDigit_toDigits {n : Nat} : ∀ c ∈ Nat.toDigits 10 n, c.isDigit = true := fun _ mem =>
  Nat.isDigit_of_mem_toDigits (by decide) (by decide) mem

theorem magnitude_eq {whole fraction : List Char} {n : Nat} (digits : ofDigits (whole ++ fraction) = n) :
    magnitude whole fraction = n / 10 ^ fraction.length := by
  rw [magnitude, ← digits, ofDigits_append]
  push_cast
  rw [add_div, mul_div_cancel_right₀ _ (pow_ne_zero _ (by norm_num))]

theorem Scaled.spells_positional (d : Scaled) : Spells d.value d.positional := by
  obtain ⟨c, e⟩ := d
  have length : 0 < (Nat.toDigits 10 c).length := Nat.length_toDigits_pos
  unfold Scaled.positional Scaled.value
  dsimp only
  split
  · next nonneg =>
    obtain ⟨n, rfl⟩ := Int.eq_ofNat_of_zero_le nonneg
    refine .whole (by simp [Nat.toDigits_ne_nil]) (List.forall_mem_append.2 ⟨isDigit_toDigits, isDigit_zeros⟩) ?_
    have digits : ofDigits (Nat.toDigits 10 c ++ zeros n ++ []) = c * 10 ^ n := by
      rw [List.append_nil, ofDigits_append, ofDigits_toDigits, ofDigits_zeros, zeros, List.length_replicate, add_zero]
    rw [Int.toNat_natCast, magnitude_eq digits]
    simp
  · next negative =>
    obtain ⟨n, rfl⟩ : ∃ n : Nat, e = -n := ⟨(-e).toNat, by omega⟩
    rw [neg_neg, Int.toNat_natCast, zpow_neg, zpow_natCast, ← div_eq_mul_inv]
    split
    · next short =>
      have behind : ((Nat.toDigits 10 c).drop ((Nat.toDigits 10 c).length - n)).length = n := by
        rw [List.length_drop]
        omega
      refine .parts ?_ ?_ (fun d mem => isDigit_toDigits d (List.mem_of_mem_take mem))
        (fun d mem => isDigit_toDigits d (List.mem_of_mem_drop mem)) ?_
      · rw [← List.length_pos_iff, List.length_take]
        omega
      · rw [← List.length_pos_iff, behind]
        omega
      · have digits := ofDigits_toDigits c
        rw [← List.take_append_drop ((Nat.toDigits 10 c).length - n) (Nat.toDigits 10 c)] at digits
        rw [magnitude_eq digits, behind]
    · next long =>
      have behind : (zeros (n - (Nat.toDigits 10 c).length) ++ Nat.toDigits 10 c).length = n := by
        rw [List.length_append, zeros, List.length_replicate]
        omega
      refine @Spells.parts _ ['0'] _ (List.cons_ne_nil _ _) (by simp [Nat.toDigits_ne_nil])
        (List.forall_mem_singleton.2 rfl) (List.forall_mem_append.2 ⟨isDigit_zeros, isDigit_toDigits⟩) ?_
      have digits : ofDigits (['0'] ++ (zeros (n - (Nat.toDigits 10 c).length) ++ Nat.toDigits 10 c)) = c := by
        rw [ofDigits_append, ofDigits_append, ofDigits_toDigits, ofDigits_zeros]
        simp [ofDigits]
      rw [magnitude_eq digits, behind]

end Positional

section Interval

variable {a m : Nat} (least : a = 0 ∨ 2 ^ 52 ≤ m) (most : m < 2 ^ 53)

theorem quarter (a : Nat) : (2 : ℚ) ^ (a - 1074 : ℤ) = 4 * 2 ^ (a - 1074 - 2 : ℤ) := by
  rw [zpow_sub₀ two_ne_zero _ 2]
  norm_num
  ring

include least most

theorem rung_add_succ :
    rung (a * 2 ^ 52 + m) + rung (a * 2 ^ 52 + m + 1) = 2 * ((4 * m + 2 : Nat) * 2 ^ (a - 1074 - 2 : ℤ)) := by
  rw [rung_eq least most.le, add_assoc, rung_eq (by omega) most, quarter]
  push_cast
  ring

/-- At a power of two the gap to the rung below is half as wide. -/
theorem pred_add_rung {k : Nat} (next : k + 1 = a * 2 ^ 52 + m) :
    rung k + rung (k + 1) =
      2 * ((4 * m - if m = 2 ^ 52 ∧ a ≠ 0 then 1 else 2 : Nat) * 2 ^ (a - 1074 - 2 : ℤ)) := by
  rw [next, rung_eq least most.le]
  split
  · next narrow =>
    obtain ⟨rfl, nonzero⟩ := narrow
    obtain ⟨a, rfl⟩ := Nat.exists_eq_succ_of_ne_zero nonzero
    obtain rfl : k = a * 2 ^ 52 + (2 ^ 53 - 1) := by omega
    have half : ((a + 1 : Nat) - 1074 : ℤ) = a - 1074 + 1 := by push_cast; ring
    have half' : ((a + 1 : Nat) - 1074 - 2 : ℤ) = a - 1074 - 2 + 1 := by push_cast; ring
    rw [rung_eq (by omega) (by omega), half', half, zpow_add_one₀ two_ne_zero, zpow_add_one₀ two_ne_zero, quarter]
    push_cast
    ring
  · next wide =>
    obtain ⟨m, rfl⟩ : ∃ m', m = m' + 1 := ⟨m - 1, by omega⟩
    obtain rfl : k = a * 2 ^ 52 + m := by omega
    rw [rung_eq (by omega) (by omega), quarter]
    have whole : 4 * (m + 1) - 2 = 4 * m + 2 := by omega
    rw [whole]
    push_cast
    ring

end Interval

section Search

theorem tenTo_div (p : Int) : ((tenTo p).1 / (tenTo p).2 : ℚ) = 10 ^ p := by
  obtain ⟨n, rfl | rfl⟩ := p.eq_nat_or_neg <;> simp [tenTo]

theorem twoTo_div (q : Int) : ((twoTo q).1 / (twoTo q).2 : ℚ) = 2 ^ q := by
  obtain ⟨n, rfl | rfl⟩ := q.eq_nat_or_neg <;> simp [twoTo]

variable {b : Binary} {c : Nat} {p : Int}

theorem Grid.bounds_of_readsBack (h : (b.grid p).readsBack c = true) :
    ((4 * b.significand - if b.narrowBelow then 1 else 2 : Nat) * 2 ^ (b.exponent - 2) : ℚ) ≤ c * 10 ^ p ∧
      (c * 10 ^ p : ℚ) ≤ (4 * b.significand + 2 : Nat) * 2 ^ (b.exponent - 2) ∧
      ((c * 10 ^ p : ℚ) = (4 * b.significand - if b.narrowBelow then 1 else 2 : Nat) * 2 ^ (b.exponent - 2) ∨
        (c * 10 ^ p : ℚ) = (4 * b.significand + 2 : Nat) * 2 ^ (b.exponent - 2) → b.significand % 2 = 0) := by
  have ten : (0 : ℚ) < (tenTo p).2 := by simp [tenTo]
  have two : (0 : ℚ) < (twoTo (b.exponent - 2)).2 := by simp [twoTo]
  -- the grid measures all of them by one yardstick
  have step : ((b.grid p).step : ℚ) = (tenTo p).2 * (twoTo (b.exponent - 2)).2 * 10 ^ p := by
    rw [← tenTo_div, Binary.grid, Nat.cast_mul]
    field_simp
  have low : ((b.grid p).low : ℚ) = (tenTo p).2 * (twoTo (b.exponent - 2)).2 *
      ((4 * b.significand - if b.narrowBelow then 1 else 2 : Nat) * 2 ^ (b.exponent - 2)) := by
    rw [← twoTo_div, Binary.grid, Nat.cast_mul, Nat.cast_mul]
    field_simp
  have high : ((b.grid p).high : ℚ) = (tenTo p).2 * (twoTo (b.exponent - 2)).2 *
      ((4 * b.significand + 2 : Nat) * 2 ^ (b.exponent - 2)) := by
    rw [← twoTo_div, Binary.grid, Nat.cast_mul, Nat.cast_mul]
    field_simp
  have yardstick := mul_pos ten two
  have point : ((c * (b.grid p).step : Nat) : ℚ) = (tenTo p).2 * (twoTo (b.exponent - 2)).2 * (c * 10 ^ p) := by
    rw [Nat.cast_mul, step]
    ring
  have closed : (b.grid p).closed = (b.significand % 2 == 0) := rfl
  unfold Grid.readsBack at h
  rw [closed] at h
  split at h
  · next even =>
    simp only [Bool.and_eq_true, decide_eq_true_eq, ← @Nat.cast_le ℚ, point, low, high,
      mul_le_mul_iff_right₀ yardstick] at h
    exact ⟨h.1, h.2, fun _ => by simpa using even⟩
  · simp only [Bool.and_eq_true, decide_eq_true_eq, ← @Nat.cast_lt ℚ, point, low, high,
      mul_lt_mul_iff_right₀ yardstick] at h
    refine ⟨h.1.le, h.2.le, fun ends => ?_⟩
    obtain same | same := ends
    · exact absurd same h.1.ne'
    · exact absurd same h.2.ne

theorem Grid.readsBack_of_nearest? {g : Grid} (h : g.nearest? = some c) : g.readsBack c = true := by
  unfold Grid.nearest? at h
  dsimp only at h
  split at h
  · next below above =>
    cases h
    split
    · exact above
    · exact below
  · next below _ =>
    cases h
    exact below
  · next above =>
    cases h
    exact above
  · cases h

/-- What is found reads back, and otherwise all digits are given. -/
theorem Binary.shortest_cases (b : Binary) :
    (∃ c p, b.shortest = ⟨c, p⟩ ∧ (b.grid p).readsBack c = true) ∨ b.shortest = b.exact := by
  unfold Binary.shortest
  dsimp only
  generalize found : (List.range 21).findSome? _ = result
  cases result with
  | none => exact .inr rfl
  | some d =>
    obtain ⟨n, -, found⟩ := List.exists_of_findSome?_eq_some found
    obtain ⟨c, nearest, rfl⟩ := Option.map_eq_some_iff.1 found
    exact .inl ⟨c, _, rfl, Grid.readsBack_of_nearest? nearest⟩

theorem Binary.value_exact (b : Binary) : b.exact.value = b.value := by
  unfold Binary.exact Binary.value Scaled.value
  split
  · next nonneg =>
    obtain ⟨n, same⟩ := Int.eq_ofNat_of_zero_le nonneg
    simp [same]
  · next negative =>
    obtain ⟨n, same⟩ : ∃ n : Nat, b.exponent = -n := ⟨(-b.exponent).toNat, by omega⟩
    have ten : (10 : ℚ) = 2 * 5 := by norm_num
    simp only [same, neg_neg, Int.toNat_natCast, zpow_neg, zpow_natCast, ten, mul_pow, Nat.pow_eq]
    push_cast
    field_simp

end Search

section Reading

theorem nears_shortest {a m : Nat} (least : a = 0 ∨ 2 ^ 52 ≤ m) (most : m < 2 ^ 53) :
    Nears (Binary.shortest ⟨m, a - 1074, decide (m = 2 ^ 52 ∧ a ≠ 0)⟩).value (a * 2 ^ 52 + m) := by
  obtain ⟨c, p, found, back⟩ | all := Binary.shortest_cases ⟨m, a - 1074, decide (m = 2 ^ 52 ∧ a ≠ 0)⟩
  · rw [found, Scaled.value]
    obtain ⟨low, high, ends⟩ := Grid.bounds_of_readsBack back
    simp only [decide_eq_true_eq] at low high ends
    have even : (a * 2 ^ 52 + m) % 2 = m % 2 := by omega
    have above := rung_add_succ least most
    refine ⟨fun k next => ?_, by linarith, fun same => ?_⟩
    · have below := pred_add_rung least most next
      rw [next] at below
      exact ⟨by linarith, fun same => even ▸ ends (.inl (by linarith))⟩
    · exact even ▸ ends (.inr (by linarith))
  · have value : Binary.value ⟨m, a - 1074, decide (m = 2 ^ 52 ∧ a ≠ 0)⟩ = rung (a * 2 ^ 52 + m) :=
      (rung_eq least most.le).symm
    rw [all, Binary.value_exact, value]
    have step := rung_lt_succ (a * 2 ^ 52 + m)
    exact .of_floor le_rfl (by linarith) fun same => absurd same (by linarith)

variable {x : Float}

theorem exists_ofFloat (sign : signOf x = false) (low : rankOf x ≠ 0) (high : rankOf x < topmost) :
    ∃ a m, rankOf x = a * 2 ^ 52 + m ∧ (a = 0 ∨ 2 ^ 52 ≤ m) ∧ m < 2 ^ 53 ∧
      Parts.ofFloat x = .finite false ⟨m, a - 1074, decide (m = 2 ^ 52 ∧ a ≠ 0)⟩ := by
  have biased : x.toBits.toNat / 2 ^ 52 % 2 ^ 11 = rankOf x / 2 ^ 52 := by unfold rankOf; omega
  have fraction : x.toBits.toNat % 2 ^ 52 = rankOf x % 2 ^ 52 := by unfold rankOf; omega
  have sign : (x.toBits.toNat / 2 ^ 63 == 1) = false := sign
  unfold topmost at high
  simp only [Parts.ofFloat, Nat.pow_eq, biased, fraction, sign]
  rw [if_neg (by omega)]
  by_cases small : rankOf x < 2 ^ 52
  · refine ⟨0, rankOf x, by omega, .inl rfl, by omega, ?_⟩
    rw [if_pos (by omega), if_neg (by omega), Nat.mod_eq_of_lt small]
    simp
  · refine ⟨rankOf x / 2 ^ 52 - 1, 2 ^ 52 + rankOf x % 2 ^ 52, by omega, .inr (by omega), by omega, ?_⟩
    rw [if_neg (by omega)]
    congr 2
    · omega
    · rw [Bool.eq_iff_iff]
      simp
      omega

theorem ofFloat_of_zero (sign : signOf x = false) (zero : rankOf x = 0) : Parts.ofFloat x = .zero false := by
  have biased : x.toBits.toNat / 2 ^ 52 % 2 ^ 11 = 0 := by unfold rankOf at zero; omega
  have fraction : x.toBits.toNat % 2 ^ 52 = 0 := by unfold rankOf at zero; omega
  have sign : (x.toBits.toNat / 2 ^ 63 == 1) = false := sign
  simp only [Parts.ofFloat, Nat.pow_eq, biased, fraction, sign]
  rfl

theorem rankOf_lt_of_isFinite (sign : signOf x = false) (most : rankOf x ≤ topmost) (finite : x.isFinite = true) :
    rankOf x < topmost := by
  refine lt_of_le_of_ne most fun top => ?_
  have same : x = Float.ofBits 0x7FF0000000000000 := eq_of_rank (top.trans (by decide)) (sign.trans (by decide))
  rw [same] at finite
  exact absurd finite (by decide)

theorem exists_spells_numeral (sign : signOf x = false) (finite : rankOf x < topmost) :
    ∃ q, Spells q (numeral x).toList ∧ Rounds q x := by
  by_cases zero : rankOf x = 0
  · have parts : Parts.ofFloat x = .zero false := ofFloat_of_zero sign zero
    have text : (numeral x).toList = ['0'] := by
      rw [numeral, parts]
      rfl
    have digits : ∀ c ∈ ['0'], c.isDigit = true := List.forall_mem_singleton.2 rfl
    refine ⟨0, text ▸ .whole (List.cons_ne_nil _ _) digits (by simp [magnitude, ofDigits]), ?_⟩
    have nears : Nears 0 0 := by
      have step := rung_lt_succ 0
      rw [rung_zero] at step
      exact .of_floor rung_zero.le (by rw [rung_zero]; linarith) fun _ => rfl
    exact nears.rounds le_rfl sign zero
  · obtain ⟨a, m, rank, least, most, parts⟩ := exists_ofFloat sign zero finite
    have nears := nears_shortest least most
    generalize shortest : Binary.shortest ⟨m, a - 1074, decide (m = 2 ^ 52 ∧ a ≠ 0)⟩ = d at nears
    have text : (numeral x).toList = d.positional := by
      rw [numeral, parts, ← shortest]
      exact String.toList_ofList
    refine ⟨d.value, text ▸ d.spells_positional, ?_⟩
    have nonneg : 0 ≤ d.value := mul_nonneg (Nat.cast_nonneg _) (zpow_pos (by norm_num) _).le
    exact nears.rounds nonneg sign (by omega)

end Reading

end Scriptlet.Decimal
