/-
# Gamebook.Proofs.Rounding — which decimals are too large

A decimal `v / 10 ^ k` is read by rounding a quotient to 53 bits, a half to the even neighbour. The two bits
that rounding keeps of what it drops are those of the exact quotient, however often the denominator is
doubled (`shiftRight_quotient`), so the exponent of the result follows from the quotient alone
(`excess_add_le_iff`). Read from the bits, the result is infinity from half a place under `2 ^ 1024` on
(`ofFloat_read_of_le`), and a number that is not negative below it (`ofFloat_read_of_lt`).
-/
import Mathlib.Tactic.Ring
import Gamebook.Decimal.Numeral

namespace Gamebook.Decimal

open Float.Model Float.Model.UnpackedFloat

/-! ## The nearest whole number -/

/-- The whole part of `num / den` with the two bits that rounding looks at: whether at least a half is left,
and whether something else is left. -/
def quotient (num den : Nat) : ExtendedMantissa :=
  ⟨num / den, den ≤ 2 * (num % den), 2 * (num % den) % den ≠ 0⟩

/-- Something is left of a division just when one of the two bits says so. -/
theorem left_iff {r den : Nat} (hr : r < den) : r ≠ 0 ↔ den ≤ 2 * r ∨ 2 * r % den ≠ 0 := by
  constructor
  · intro hne
    rcases Nat.lt_or_ge (2 * r) den with h | h
    · rw [Nat.mod_eq_of_lt h]
      omega
    · exact Or.inl h
  · rintro (h | h) rfl
    · omega
    · exact h (Nat.zero_mod den)

theorem ofMantissaAndAccuracy_div {den : Nat} (hden : 0 < den) (num : Nat) :
    ExtendedMantissa.ofMantissaAndAccuracy (num / den) (accuracyOfFraction (num % den) den)
      = quotient num den := by
  have hlt : num % den < den := Nat.mod_lt num hden
  unfold accuracyOfFraction quotient
  split
  · next hzero => simp [ExtendedMantissa.ofMantissaAndAccuracy, hzero, Nat.not_le.mpr hden]
  · next hzero =>
    rcases Nat.lt_trichotomy (2 * (num % den)) den with h | h | h
    · have hleft : 2 * (num % den) % den ≠ 0 := by
        rw [Nat.mod_eq_of_lt h]
        omega
      rw [Nat.compare_eq_lt.mpr h, decide_eq_false (Nat.not_le.mpr h), decide_eq_true hleft]
      rfl
    · simp [h, ExtendedMantissa.ofMantissaAndAccuracy]
    · have hleft : 2 * (num % den) % den ≠ 0 := by
        rw [Nat.mod_eq_sub_mod (Nat.le_of_lt h), Nat.mod_eq_of_lt (by omega)]
        omega
      rw [Nat.compare_eq_gt.mpr h, decide_eq_true (Nat.le_of_lt h), decide_eq_true hleft]
      rfl

theorem shiftRightOne_quotient {den : Nat} (hden : 0 < den) (num : Nat) :
    (quotient num den).shiftRightOne = quotient num (den * 2) := by
  have hlt : num % den < den := Nat.mod_lt num hden
  have hmod : num % (den * 2) = num % den + den * (num / den % 2) := Nat.mod_mul
  have hround : (num / den % 2 != 0) = decide (den * 2 ≤ 2 * (num % (den * 2))) := by
    rw [hmod]
    rcases Nat.mod_two_eq_zero_or_one (num / den) with hbit | hbit <;> rw [hbit] <;> simp <;> omega
  have hsticky : num % den ≠ 0 ↔ 2 * (num % (den * 2)) % (den * 2) ≠ 0 := by
    rw [Nat.mul_comm den 2, Nat.mul_mod_mul_left, Nat.mod_mul_left_mod]
    omega
  unfold ExtendedMantissa.shiftRightOne quotient
  simp only [← Bool.decide_or, ← left_iff hlt]
  rw [Nat.div_div_eq_div_mul, hround, decide_eq_decide.mpr hsticky]

theorem shiftRight_quotient {den : Nat} (hden : 0 < den) (num n : Nat) :
    quotient num den >>> n = quotient num (den * 2 ^ n) := by
  induction n with
  | zero => rw [pow_zero, Nat.mul_one]; rfl
  | succ n ih =>
    have hpos : 0 < den * 2 ^ n := Nat.mul_pos hden (Nat.pow_pos (by decide))
    show (quotient num den >>> n).shiftRightOne = _
    rw [ih, shiftRightOne_quotient hpos, Nat.mul_assoc, ← pow_succ]

/-- The whole number nearest to `num / den`, of two such the even one. -/
def nearest (num den : Nat) : Nat := (accuracyOfFraction (num % den) den).roundToNearestEven (num / den)

theorem roundedMantissa_quotient {den : Nat} (hden : 0 < den) (num : Nat) :
    (quotient num den).roundedMantissa = nearest num den := by
  rw [← ofMantissaAndAccuracy_div hden, nearest]
  cases accuracyOfFraction (num % den) den with
  | exact => rfl
  | inexact half => cases half <;> rfl

/-- An even number is reached by rounding from half below it. -/
theorem le_nearest_iff (num : Nat) {den k : Nat} (hden : 0 < den) (hk : 0 < k) :
    2 * k ≤ nearest num den ↔ (4 * k - 1) * den ≤ 2 * num := by
  have hlt : num % den < den := Nat.mod_lt num hden
  -- Both sides say that the even number is below the fraction, or just above it with half or more left.
  trans 2 * k ≤ num / den ∨ 2 * k = num / den + 1 ∧ den ≤ 2 * (num % den)
  · unfold nearest accuracyOfFraction
    split
    · simp only [Accuracy.roundToNearestEven]
      omega
    · rcases Nat.lt_trichotomy (2 * (num % den)) den with h | h | h
      · rw [Nat.compare_eq_lt.mpr h, Accuracy.roundToNearestEven]
        omega
      · rw [Nat.compare_eq_eq.mpr h, Accuracy.roundToNearestEven]
        omega
      · rw [Nat.compare_eq_gt.mpr h, Accuracy.roundToNearestEven]
        omega
  · have hnum : 2 * num = 2 * (num / den) * den + 2 * (num % den) := by
      rw [Nat.mul_assoc, Nat.mul_comm (num / den), ← Nat.mul_add, Nat.div_add_mod]
    rw [hnum]
    rcases Nat.lt_trichotomy (2 * k) (num / den + 1) with h | h | h
    · have hle : (4 * k - 1) * den ≤ 2 * (num / den) * den := Nat.mul_le_mul_right den (by omega)
      omega
    · have heq : (4 * k - 1) * den = 2 * (num / den) * den + den := by
        rw [← Nat.succ_mul]
        congr 1
        omega
      omega
    · have hge : (2 * (num / den) + 3) * den ≤ (4 * k - 1) * den := Nat.mul_le_mul_right den (by omega)
      rw [Nat.add_mul] at hge
      omega

/-! ## Rounding to 53 bits -/

/-- Half a place under `2 ^ (54 + place)`, for numbers of 53 bits. -/
@[irreducible] def brink (place : Nat) : Nat := (2 ^ 54 - 1) * 2 ^ place

theorem le_brink (place : Nat) : 2 ^ 54 - 1 ≤ brink place := by
  rw [brink]
  exact Nat.le_mul_of_pos_right _ (Nat.two_pow_pos place)

theorem brink_scaled (place den n : Nat) :
    brink (place + 1 + n) * den = 2 * (brink place * den * 2 ^ n) := by
  rw [brink, brink, pow_add, pow_succ]
  generalize 2 ^ 54 - 1 = c
  ring

/-- How many bits of `m * 2 ^ e` have no place in the format. -/
def excess (m : Nat) (e : Int) : Nat := (Format.binary64.targetExponent (totalExponent m e) - e).toNat

theorem excess_le_iff {m : Nat} {e : Int} {j : Nat} :
    excess m e ≤ j ↔ m < 2 ^ (53 + j) ∧ -1074 ≤ e + j := by
  have hbits : m < 2 ^ (53 + j) ↔ m.log2 < 53 + j := by
    rcases Nat.eq_zero_or_pos m with rfl | hm
    · simp
    · exact (Nat.log2_lt (Nat.ne_of_gt hm)).symm
  have hmin : Format.binary64.minExponent = -1074 := by decide
  have hwidth : (Format.binary64.mantissaBits : Int) = 53 := by decide
  rw [hbits, excess, Format.targetExponent, totalExponent, hmin, hwidth]
  omega

/-- What `num / den * 2 ^ e` is rounded to. -/
def rounded (num den : Nat) (e : Int) : UnpackedFloat :=
  roundWithAccuracy Format.binary64 .positive (num / den) e (accuracyOfFraction (num % den) den)

/-- Rounding drops the bits that have no place, and then those that rounding up may have added. -/
theorem rounded_eq {den : Nat} (hden : 0 < den) (num : Nat) (e : Int) {n n' m : Nat}
    (hn : excess (num / den) e = n) (hm : nearest num (den * 2 ^ n) = m) (hn' : excess m (e + n) = n') :
    m / 2 ^ n' = 0 ∧ rounded num den e = .zero .positive ∨
      ∃ hpos : 0 < m / 2 ^ n', rounded num den e = .finite .positive (m / 2 ^ n') (e + n + n') hpos := by
  have hpos : 0 < den * 2 ^ n := Nat.mul_pos hden (Nat.two_pow_pos n)
  have hexact : ExtendedMantissa.ofMantissaAndAccuracy m .exact = quotient m 1 := by
    simp [ExtendedMantissa.ofMantissaAndAccuracy, quotient, Nat.mod_one]
  have hfirst : shiftToTargetExponent Format.binary64 (num / den) e (accuracyOfFraction (num % den) den)
      = (quotient num (den * 2 ^ n), e + n) := by
    rw [← shiftRight_quotient hden, ← ofMantissaAndAccuracy_div hden, ← hn]
    rfl
  have hsecond : shiftToTargetExponent Format.binary64 m (e + n) .exact
      = (quotient m (2 ^ n'), e + n + n') := by
    rw [← Nat.one_mul (2 ^ n'), ← shiftRight_quotient Nat.one_pos, ← hexact, ← hn']
    rfl
  unfold rounded roundWithAccuracy
  rw [hfirst]
  dsimp only
  rw [roundedMantissa_quotient hpos, hm, hsecond]
  by_cases hzero : m / 2 ^ n' = 0
  · exact Or.inl ⟨hzero, dif_pos hzero⟩
  · exact Or.inr ⟨Nat.pos_of_ne_zero hzero, dif_neg hzero⟩

/-- The exponent stays in its range just below the value that is half a place under the next power. -/
theorem excess_add_le_iff {num den : Nat} {e : Int} {n n' j : Nat} (hden : 0 < den)
    (hn : excess (num / den) e = n) (hn' : excess (nearest num (den * 2 ^ n)) (e + n) = n')
    (hj : -1074 ≤ e + j) :
    n + n' ≤ j ↔ 2 * num < brink j * den := by
  have hfirst : ∀ i : Nat, n ≤ i ↔ num < 2 ^ (53 + i) * den ∧ -1074 ≤ e + i := by
    intro i
    rw [← hn, excess_le_iff, Nat.div_lt_iff_lt_mul hden]
  have hsecond : n ≤ j → (n + n' ≤ j ↔ 2 * num < (2 ^ 54 * 2 ^ j - 2 ^ n) * den) := by
    intro hle
    have hpos : 0 < den * 2 ^ n := Nat.mul_pos hden (Nat.pow_pos (by decide))
    obtain ⟨i, rfl⟩ := Nat.exists_eq_add_of_le hle
    have hreach := le_nearest_iff num hpos (Nat.two_pow_pos (52 + i))
    have hpow : 2 * 2 ^ (52 + i) = 2 ^ (53 + i) := by ring
    have hscale : (4 * 2 ^ (52 + i) - 1) * (den * 2 ^ n) = (2 ^ 54 * 2 ^ (n + i) - 2 ^ n) * den := by
      rw [Nat.mul_comm den, ← Nat.mul_assoc, Nat.sub_mul, Nat.one_mul]
      congr 2
      ring
    rw [hpow, hscale] at hreach
    rw [Nat.add_le_add_iff_left, ← hn', excess_le_iff, ← Nat.not_le, hreach, Nat.not_le]
    exact and_iff_left (by push_cast at hj; omega)
  have hhalf : brink j = 2 ^ 54 * 2 ^ j - 2 ^ j := by rw [brink, Nat.sub_mul, Nat.one_mul]
  rw [hhalf]
  constructor
  · intro h
    have hle : n ≤ j := Nat.le_trans (Nat.le_add_right n n') h
    rcases Nat.lt_or_eq_of_le hle with hlt | rfl
    · -- With places to spare the number is below half of the next power.
      obtain ⟨i, rfl⟩ := Nat.exists_eq_add_of_lt hlt
      have hsmall := ((hfirst (n + i)).mp (Nat.le_add_right n i)).1
      have hpower : 2 * 2 ^ (53 + (n + i)) ≤ 2 ^ 54 * 2 ^ (n + i + 1) - 2 ^ (n + i + 1) := by
        rw [pow_add 2 53, pow_succ 2 (n + i)]
        omega
      calc 2 * num < 2 * (2 ^ (53 + (n + i)) * den) := by omega
        _ = 2 * 2 ^ (53 + (n + i)) * den := (Nat.mul_assoc _ _ _).symm
        _ ≤ _ := Nat.mul_le_mul_right den hpower
    · exact (hsecond hle).mp h
  · intro h
    have hpower : 2 ^ 54 * 2 ^ j - 2 ^ j ≤ 2 * 2 ^ (53 + j) := by
      rw [pow_add 2 53]
      omega
    have hle : n ≤ j := by
      refine (hfirst j).mpr ⟨?_, hj⟩
      have := Nat.lt_of_lt_of_le h (Nat.mul_le_mul_right den hpower)
      rw [Nat.mul_assoc] at this
      omega
    refine (hsecond hle).mpr (Nat.lt_of_lt_of_le h (Nat.mul_le_mul_right den ?_))
    exact Nat.sub_le_sub_left (Nat.pow_le_pow_right (by decide) hle) _

/-- A large number is not rounded to zero. -/
theorem nearest_ne_zero {num den : Nat} {e : Int} {n j : Nat} (hden : 0 < den)
    (hn : excess (num / den) e = n) (hj : -1074 ≤ e + j) (hlarge : brink j * den ≤ 2 * num) :
    nearest num (den * 2 ^ n) ≠ 0 := by
  have hpos : 0 < den * 2 ^ n := Nat.mul_pos hden (Nat.two_pow_pos n)
  have hthree : 3 * 2 ^ n * den ≤ 2 * num := by
    rcases Nat.lt_or_ge j n with h | h
    · -- No bit is dropped without need, so the whole part has more than 53 bits.
      obtain ⟨i, rfl⟩ := Nat.exists_eq_add_of_lt h
      have hmany : 2 ^ (53 + (j + i)) * den ≤ num := by
        have hnot : ¬ excess (num / den) e ≤ j + i := by omega
        rw [excess_le_iff, Nat.div_lt_iff_lt_mul hden] at hnot
        exact Nat.not_lt.mp fun hlt => hnot ⟨hlt, by push_cast; omega⟩
      have hpow : 3 * 2 ^ (j + i + 1) ≤ 2 * 2 ^ (53 + (j + i)) := by
        rw [pow_add 2 53, pow_succ]
        omega
      calc 3 * 2 ^ (j + i + 1) * den ≤ 2 * 2 ^ (53 + (j + i)) * den := Nat.mul_le_mul_right den hpow
        _ = 2 * (2 ^ (53 + (j + i)) * den) := Nat.mul_assoc _ _ _
        _ ≤ 2 * num := Nat.mul_le_mul_left 2 hmany
    · have hpow : 2 ^ n ≤ 2 ^ j := Nat.pow_le_pow_right (by decide) h
      rw [brink] at hlarge
      exact Nat.le_trans (Nat.mul_le_mul_right den (by omega)) hlarge
  have htwo := (le_nearest_iff num hpos Nat.one_pos).mpr (by
    rw [Nat.mul_comm den, ← Nat.mul_assoc]
    exact hthree)
  omega

theorem div_excess_ne_zero {m : Nat} {e : Int} (hm : m ≠ 0) (he : -1074 ≤ e) : m / 2 ^ excess m e ≠ 0 := by
  have hbits : excess m e ≤ m.log2 := by
    refine excess_le_iff.mpr ⟨Nat.lt_of_lt_of_le Nat.lt_log2_self ?_, by omega⟩
    exact Nat.pow_le_pow_right (by decide) (by omega)
  have hle : 2 ^ excess m e ≤ m :=
    Nat.le_trans (Nat.pow_le_pow_right (by decide) hbits) (Nat.log2_self_le hm)
  exact Nat.ne_of_gt (Nat.div_pos hle (Nat.two_pow_pos _))

/-- Zero, or positive with an exponent of at most `top`. -/
inductive Below (top : Int) : UnpackedFloat → Prop
  | zero : Below top (.zero .positive)
  | finite {m : Nat} {e : Int} (hm : 0 < m) (he : e ≤ top) : Below top (.finite .positive m e hm)

/-- Positive with an exponent above `top`. -/
inductive Beyond (top : Int) : UnpackedFloat → Prop
  | finite {m : Nat} {e : Int} (hm : 0 < m) (he : top < e) : Beyond top (.finite .positive m e hm)

theorem below_rounded {num den : Nat} {e : Int} {j : Nat} (hden : 0 < den) (hj : -1074 ≤ e + j)
    (hsmall : 2 * num < brink j * den) : Below (e + j) (rounded num den e) := by
  have hle := (excess_add_le_iff hden rfl rfl hj).mpr hsmall
  rcases rounded_eq hden num e rfl rfl rfl with ⟨-, hzero⟩ | ⟨hpos, hfinite⟩
  · rw [hzero]
    exact .zero
  · rw [hfinite]
    exact .finite hpos (by omega)

theorem beyond_rounded {num den : Nat} {e : Int} {j : Nat} (hden : 0 < den) (hj : -1074 ≤ e + j)
    (hlarge : brink j * den ≤ 2 * num) : Beyond (e + j) (rounded num den e) := by
  have hlt := mt (excess_add_le_iff hden rfl rfl hj).mp (Nat.not_lt.mpr hlarge)
  have hleast := (excess_le_iff.mp (Nat.le_refl (excess (num / den) e))).2
  rcases rounded_eq hden num e rfl rfl rfl with ⟨hzero, -⟩ | ⟨hpos, hfinite⟩
  · exact absurd hzero (div_excess_ne_zero (nearest_ne_zero hden rfl hj hlarge) hleast)
  · rw [hfinite]
    exact .finite hpos (by omega)

/-! ## Bits -/

theorem toNat_packComponents (exponent : BitVec 11) (mantissa : BitVec 52) :
    (packComponents Format.binary64 .positive exponent mantissa).toNat
      = exponent.toNat * 2 ^ 52 + mantissa.toNat := by
  have hmantissa : mantissa.toNat < 2 ^ 52 := mantissa.isLt
  rw [packComponents, BitVec.toNat_append, BitVec.toNat_append, ← Nat.shiftLeft_add_eq_or_of_lt hmantissa,
    Nat.shiftLeft_eq]
  simp [Sign.toBitVec]

/-- The parts of packed bits. -/
theorem ofBits_packComponents (exponent : BitVec 11) (mantissa : BitVec 52) :
    Binary64.ofBits (packComponents Format.binary64 .positive exponent mantissa).toNat
      = if exponent.toNat = 2047 then (if mantissa.toNat = 0 then .infinite false else .nan)
        else if exponent.toNat = 0 then .finite false mantissa.toNat Binary64.leastExponent false
        else
          .finite false (Binary64.hidden + mantissa.toNat) (Binary64.leastExponent + (exponent.toNat - 1 : Nat))
            (mantissa.toNat = 0 && 1 < exponent.toNat) := by
  have hexponent : exponent.toNat < 2 ^ 11 := exponent.isLt
  have hmantissa : mantissa.toNat < 2 ^ 52 := mantissa.isLt
  have hhidden : Binary64.hidden = 2 ^ 52 := rfl
  have hsign : (exponent.toNat * 2 ^ 52 + mantissa.toNat) / (Binary64.hidden * 2048) % 2 = 0 := by
    rw [hhidden, Nat.div_eq_of_lt (by omega)]
  have hfield : (exponent.toNat * 2 ^ 52 + mantissa.toNat) / Binary64.hidden % 2048 = exponent.toNat := by
    rw [hhidden, Nat.add_comm, Nat.add_mul_div_right _ _ (Nat.two_pow_pos 52), Nat.div_eq_of_lt hmantissa,
      Nat.zero_add]
    exact Nat.mod_eq_of_lt hexponent
  have hfraction : (exponent.toNat * 2 ^ 52 + mantissa.toNat) % Binary64.hidden = mantissa.toNat := by
    rw [hhidden, Nat.mul_add_mod', Nat.mod_eq_of_lt hmantissa]
  rw [toNat_packComponents, Binary64.ofBits, hsign, hfield, hfraction]
  rfl

theorem pack_finite {m : Nat} (hm : 0 < m) (e : Int) :
    UnpackedFloat.pack Format.binary64 (.finite .positive m e hm)
      = if 2048 ≤ (e + 1023 + 52).toNat + 1 then packedInfinity Format.binary64 .positive
        else if m.log2 + 1 = 53 then
          packComponents Format.binary64 .positive (BitVec.ofNat 11 (e + 1023 + 52).toNat) (BitVec.ofNat 52 m)
        else packComponents Format.binary64 .positive 0#11 (BitVec.ofNat 52 m) :=
  rfl

/-- A number below an exponent of the range is packed with a field for at most that exponent. -/
theorem pack_of_below {top : Int} {x : UnpackedFloat} (h : Below top x) (hleast : -1075 ≤ top)
    (hmost : top ≤ 971) :
    ∃ exponent mantissa,
      UnpackedFloat.pack Format.binary64 x = packComponents Format.binary64 .positive exponent mantissa ∧
        (exponent.toNat : Int) ≤ top + 1075 := by
  have hzero : ((0#11).toNat : Int) ≤ top + 1075 := by
    rw [BitVec.toNat_zero]
    omega
  cases h with
  | zero => exact ⟨0#11, 0#52, rfl, hzero⟩
  | @finite m e hm he =>
    rw [pack_finite, if_neg (by omega)]
    split
    · refine ⟨_, _, rfl, ?_⟩
      have hlt : (e + 1023 + 52).toNat < 2 ^ 11 := by omega
      rw [BitVec.toNat_ofNat, Nat.mod_eq_of_lt hlt]
      omega
    · exact ⟨_, _, rfl, hzero⟩

/-- A number below the largest exponent is packed as a number. -/
theorem ofBits_pack_of_below {x : UnpackedFloat} (h : Below 971 x) :
    ∃ m e tight, Binary64.ofBits (UnpackedFloat.pack Format.binary64 x).toNat = .finite false m e tight := by
  obtain ⟨exponent, mantissa, hpack, hexponent⟩ := pack_of_below h (by decide) (Int.le_refl _)
  rw [hpack, ofBits_packComponents, if_neg (by omega)]
  split
  · exact ⟨_, _, _, rfl⟩
  · exact ⟨_, _, _, rfl⟩

/-- A number beyond the largest exponent is packed as infinity. -/
theorem ofBits_pack_of_beyond {x : UnpackedFloat} (h : Beyond 971 x) :
    Binary64.ofBits (UnpackedFloat.pack Format.binary64 x).toNat = .infinite false := by
  obtain ⟨hm, he⟩ := h
  rw [pack_finite, if_pos (by omega)]
  decide

/-! ## Division -/

/-- A quotient is rounded from its numerator with as many more bits as it needs. -/
theorem div_finite {m₁ m₂ : Nat} (h₁ : 0 < m₁) (h₂ : 0 < m₂) (e₁ e₂ : Int) :
    ∃ n : Nat, UnpackedFloat.div Format.binary64 (.finite .positive m₁ e₁ h₁) (.finite .positive m₂ e₂ h₂)
      = rounded (m₁ * 2 ^ n) m₂ (e₁ - e₂ - n) := by
  let target := min (e₁ - e₂) (Format.binary64.targetExponent (totalExponent m₁ e₁ - totalExponent m₂ e₂))
  have htarget : e₁ - e₂ - ((e₁ - e₂ - target).toNat : Int) = target := by omega
  refine ⟨(e₁ - e₂ - target).toNat, ?_⟩
  rw [htarget, ← Nat.shiftLeft_eq]
  rfl

theorem below_div {v d : Nat} (hv : 0 < v) (hd : 0 < d) (h : v < brink 970 * d) :
    Below 971 (UnpackedFloat.div Format.binary64 (.finite .positive v 0 hv) (.finite .positive d 0 hd)) := by
  obtain ⟨n, hdiv⟩ := div_finite hv hd 0 0
  have htop : (971 : Int) = 0 - 0 - n + (970 + 1 + n : Nat) := by omega
  rw [hdiv, htop]
  refine below_rounded hd (by omega) ?_
  rw [brink_scaled]
  exact Nat.mul_lt_mul_of_pos_left (Nat.mul_lt_mul_of_pos_right h (Nat.two_pow_pos n)) (by decide)

theorem beyond_div {v d : Nat} (hv : 0 < v) (hd : 0 < d) (h : brink 970 * d ≤ v) :
    Beyond 971 (UnpackedFloat.div Format.binary64 (.finite .positive v 0 hv) (.finite .positive d 0 hd)) := by
  obtain ⟨n, hdiv⟩ := div_finite hv hd 0 0
  have htop : (971 : Int) = 0 - 0 - n + (970 + 1 + n : Nat) := by omega
  rw [hdiv, htop]
  refine beyond_rounded hd (by omega) ?_
  rw [brink_scaled]
  exact Nat.mul_le_mul_left 2 (Nat.mul_le_mul_right _ h)

/-- A decimal that is written with more places than its digits could need is below the first of them. -/
theorem lt_of_log2_lt {v k : Nat} (h : v.log2 < k) : v < brink 970 * 10 ^ k :=
  calc v < 2 ^ (v.log2 + 1) := Nat.lt_log2_self
    _ ≤ 2 ^ k := Nat.pow_le_pow_right (by decide) h
    _ ≤ 10 ^ k := Nat.pow_le_pow_left (by decide) k
    _ ≤ brink 970 * 10 ^ k := Nat.le_mul_of_pos_left _ (Nat.lt_of_lt_of_le (by decide) (le_brink 970))

theorem below_ofScientific {v k : Nat} (hk : 0 < k) (h : v < brink 970 * 10 ^ k) :
    Below 971 (UnpackedFloat.ofScientific Format.binary64 v (-k)) := by
  have hbits : (2 : Int) ^ Format.binary64.exponentBits = 2048 := rfl
  unfold UnpackedFloat.ofScientific
  by_cases hv : v = 0
  · rw [dif_pos hv]
    exact .zero
  rw [dif_neg hv, if_neg (by omega)]
  by_cases htiny : -(k : Int) < -(2 ^ Format.binary64.exponentBits + v.log2)
  · rw [if_pos htiny]
    exact .zero
  · rw [if_neg htiny, if_neg (by omega)]
    refine below_div _ _ ?_
    rwa [Int.neg_neg, Int.toNat_natCast]

theorem beyond_ofScientific {v k : Nat} (hk : 0 < k) (h : brink 970 * 10 ^ k ≤ v) :
    Beyond 971 (UnpackedFloat.ofScientific Format.binary64 v (-k)) := by
  have hlog : k ≤ v.log2 := Nat.not_lt.mp fun hlt => Nat.not_lt.mpr h (lt_of_log2_lt hlt)
  have hv : v ≠ 0 := by
    rintro rfl
    simp at hlog
    omega
  have hbits : (2 : Int) ^ Format.binary64.exponentBits = 2048 := rfl
  unfold UnpackedFloat.ofScientific
  rw [dif_neg hv, if_neg (by omega), if_neg (by omega), if_neg (by omega)]
  refine beyond_div _ _ ?_
  rwa [Int.neg_neg, Int.toNat_natCast]

/-! ## Short decimals

A decimal of few digits is read by dividing two floats that are exact. Neither the quotient nor its parts come
near the largest exponent. -/

theorem unpackSign_packComponents (exponent : BitVec 11) (mantissa : BitVec 52) :
    unpackSign (packComponents Format.binary64 .positive exponent mantissa) = 0#1 := by
  have hexponent : exponent.toNat < 2 ^ 11 := exponent.isLt
  have hmantissa : mantissa.toNat < 2 ^ 52 := mantissa.isLt
  have hsmall : exponent.toNat * 2 ^ 52 + mantissa.toNat < 2 ^ 63 := by omega
  refine BitVec.eq_of_toNat_eq ?_
  show (packComponents Format.binary64 .positive exponent mantissa).toNat >>> 63 % 2 ^ 1 = 0
  rw [toNat_packComponents, Nat.shiftRight_eq_div_pow, Nat.div_eq_of_lt hsmall]

/-- Zero, or positive with at most 53 bits and an exponent of at most `top`. -/
def Compact (top : Int) (x : UnpackedFloat) : Prop :=
  x = .zero .positive ∨ ∃ m e hm, x = .finite .positive m e hm ∧ m < 2 ^ 53 ∧ e ≤ top

theorem compact_unpack {top : Int} {b : BitVec Format.binary64.numBits} (hsign : unpackSign b = 0#1)
    (hexponent : ((unpackExponent b).toNat : Int) ≤ top + 1075) (hleast : -1074 ≤ top) (hmost : top ≤ 970) :
    Compact top (UnpackedFloat.unpack Format.binary64 b) := by
  have hmantissa : (unpackMantissa b).toNat < 2 ^ 52 := (unpackMantissa b).isLt
  have hfinite : unpackExponent b ≠ -1#11 := by
    intro hall
    rw [hall] at hexponent
    have hvalue : (-1#11).toNat = 2047 := rfl
    omega
  unfold UnpackedFloat.unpack
  dsimp only
  rw [hsign, if_neg hfinite]
  by_cases hzero : unpackExponent b = 0#11
  · rw [if_pos hzero]
    by_cases hnone : unpackMantissa b = 0#52
    · rw [dif_pos hnone]
      exact Or.inl rfl
    · rw [dif_neg hnone]
      refine Or.inr ⟨_, _, _, rfl, by omega, ?_⟩
      rw [hzero]
      show (0 : Int) - (1023 + 52) + 1 ≤ top
      omega
  · rw [if_neg hzero]
    refine Or.inr ⟨_, _, _, rfl, BitVec.isLt _, ?_⟩
    show ((unpackExponent b).toNat : Int) - (1023 + 52) ≤ top
    omega

theorem compact_unpack_pack {top : Int} {x : UnpackedFloat} (h : Below top x) (hleast : -1074 ≤ top)
    (hmost : top ≤ 970) :
    Compact top (UnpackedFloat.unpack Format.binary64 (UnpackedFloat.pack Format.binary64 x)) := by
  obtain ⟨exponent, mantissa, hpack, hexponent⟩ := pack_of_below h (by omega) (by omega)
  rw [hpack]
  refine compact_unpack (unpackSign_packComponents exponent mantissa) ?_ hleast hmost
  rwa [unpackExponent_packComponents]

theorem below_ofNat {v : Nat} (hv : v < 2 ^ 53) : Below 0 (UnpackedFloat.ofNat Format.binary64 v) := by
  rcases Nat.eq_zero_or_pos v with rfl | hpos
  · exact .zero
  · have hcompare : compare (v : Int) 0 = .gt := Int.compare_eq_gt.mpr (by omega)
    let n := (0 - Format.binary64.targetExponent (totalExponent v 0)).toNat
    have hrounded : UnpackedFloat.ofNat Format.binary64 v = rounded (v * 2 ^ n) 1 (0 - n) := by
      unfold UnpackedFloat.ofNat UnpackedFloat.ofInt UnpackedFloat.normalize
      rw [hcompare, rounded, Nat.div_one, Nat.mod_one, ← Nat.shiftLeft_eq]
      rfl
    have hbelow : Below (0 - n + n) (rounded (v * 2 ^ n) 1 (0 - n)) := by
      refine below_rounded Nat.one_pos (by omega) ?_
      rw [Nat.mul_one, ← Nat.mul_assoc, brink]
      exact Nat.mul_lt_mul_of_pos_right (by omega) (Nat.two_pow_pos n)
    rw [Int.sub_add_cancel] at hbelow
    rwa [hrounded]

/-- The quotient of a compact number and a positive one keeps away from the largest exponent, if their
exponents do. -/
theorem below_div_of_compact {x y : UnpackedFloat} (hx : Compact 0 x) {m : Nat} {e : Int} {hm : 0 < m}
    (hy : y = .finite .positive m e hm) (he : -971 ≤ e) :
    Below 971 (UnpackedFloat.div Format.binary64 x y) := by
  subst hy
  rcases hx with rfl | ⟨m₁, e₁, h₁, rfl, hm₁, he₁⟩
  · exact .zero
  · obtain ⟨n, hdiv⟩ := div_finite h₁ hm e₁ e
    have htop : e₁ - e - n + ((971 - (e₁ - e)).toNat + n : Nat) = 971 := by omega
    rw [hdiv, ← htop]
    refine below_rounded hm (by omega) ?_
    calc 2 * (m₁ * 2 ^ n) = 2 * m₁ * 2 ^ n := (Nat.mul_assoc _ _ _).symm
      _ < (2 ^ 54 - 1) * 2 ^ n := Nat.mul_lt_mul_of_pos_right (by omega) (Nat.two_pow_pos n)
      _ ≤ brink ((971 - (e₁ - e)).toNat + n) := by
        rw [brink]
        exact Nat.mul_le_mul_left _ (Nat.pow_le_pow_right (by decide) (Nat.le_add_left _ _))
      _ ≤ _ := Nat.le_mul_of_pos_right _ hm

/-- Whether a number is positive and not among the smallest. -/
def isSizable : UnpackedFloat → Bool
  | .finite .positive _ e _ => -971 ≤ e
  | _ => false

theorem isSizable_powersOfTen :
    ∀ k : Fin 23, isSizable (Float.exactlyRepresentablePowersOfTen[k].toModel.unpack) = true := by
  decide +kernel

theorem exists_of_isSizable {x : UnpackedFloat} (h : isSizable x = true) :
    ∃ m e hm, x = .finite .positive m e hm ∧ -971 ≤ e := by
  cases x with
  | infinity sign => cases h
  | notANumber => cases h
  | zero sign => cases h
  | finite sign m e hm =>
    cases sign with
    | negative => cases h
    | positive => exact ⟨m, e, hm, rfl, of_decide_eq_true h⟩

/-! ## Reading -/

/-- The bits that a decimal is read as are packed from a number that the format holds, if there is one. -/
theorem exists_pack_ofScientific (v : Nat) {k : Nat} (hk : 0 < k) :
    ∃ x, Binary64.ofFloat (Float.ofScientific v true k)
        = Binary64.ofBits (UnpackedFloat.pack Format.binary64 x).toNat ∧
      (v < brink 970 * 10 ^ k → Below 971 x) ∧ (brink 970 * 10 ^ k ≤ v → Beyond 971 x) := by
  unfold Float.ofScientific
  split
  · next h =>
    have hsmall : v < brink 970 * 10 ^ k :=
      calc v < 2 ^ 54 - 1 := by omega
        _ ≤ brink 970 := le_brink 970
        _ ≤ brink 970 * 10 ^ k := Nat.le_mul_of_pos_right _ (Nat.pow_pos (by decide))
    have hword : v.toUInt64.toNat = v := UInt64.toNat_ofNat_of_lt' (Nat.lt_trans h.1 (by decide))
    have hv : Compact 0 v.toUInt64.toFloat.toModel.unpack := by
      have hcompact := compact_unpack_pack (below_ofNat h.1) (by decide) (by decide)
      rw [← hword] at hcompact
      exact hcompact
    obtain ⟨m, e, hm, hpower, he⟩ := exists_of_isSizable (isSizable_powersOfTen ⟨k, by omega⟩)
    refine ⟨_, rfl, fun _ => below_div_of_compact hv hpower he, fun hlarge => ?_⟩
    exact absurd hsmall (Nat.not_lt.mpr hlarge)
  · exact ⟨_, rfl, below_ofScientific hk, beyond_ofScientific hk⟩

/-- **From the brink on a decimal is read as infinity.** -/
theorem ofFloat_read_of_le {whole fraction : List Char} (hne : fraction ≠ [])
    (h : brink 970 * 10 ^ fraction.length ≤ value (whole ++ fraction)) :
    Binary64.ofFloat (read whole fraction) = .infinite false := by
  obtain ⟨x, hx, -, hbeyond⟩ :=
    exists_pack_ofScientific (value (whole ++ fraction)) (List.length_pos_iff.mpr hne)
  rw [read, hx]
  exact ofBits_pack_of_beyond (hbeyond h)

/-- **Below the brink a decimal is read as a number,** and not as a negative one. -/
theorem ofFloat_read_of_lt {whole fraction : List Char} (hne : fraction ≠ [])
    (h : value (whole ++ fraction) < brink 970 * 10 ^ fraction.length) :
    ∃ m e tight, Binary64.ofFloat (read whole fraction) = .finite false m e tight := by
  obtain ⟨x, hx, hbelow, -⟩ :=
    exists_pack_ofScientific (value (whole ++ fraction)) (List.length_pos_iff.mpr hne)
  rw [read, hx]
  exact ofBits_pack_of_below (hbelow h)

end Gamebook.Decimal
