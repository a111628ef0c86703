import AssemblyInfo.Binary64.Basic
import Mathlib

/-! Rounding keeps the order. A larger quotient never rounds to a smaller rank, and a larger rank
has a larger value, so products, quotients and powers of ten are bounded by the same operations on
bounds. In this way a scaled significand is shown finite where a larger one is. -/

namespace AssemblyInfo.Binary64

/-! ### Rounding to whole numbers -/

variable {num den num' den' : Nat}

/-- Quotients in order, compared by their products. -/
theorem div_le_div_of_mul_le (hden : 0 < den) (hden' : 0 < den') (h : num * den' ≤ num' * den) :
    num / den ≤ num' / den' := by
  rw [Nat.le_div_iff_mul_le hden']
  refine Nat.le_of_mul_le_mul_right ?_ hden
  calc num / den * den' * den = num / den * den * den' := Nat.mul_right_comm ..
    _ ≤ num * den' := Nat.mul_le_mul_right den' (Nat.div_mul_le_self num den)
    _ ≤ num' * den := h

theorem div_le_roundDiv (num den : Nat) : num / den ≤ roundDiv num den := by
  dsimp only [roundDiv]
  split_ifs
  · exact Nat.le_refl _
  · exact Nat.le_succ _

theorem roundDiv_le (num den : Nat) : roundDiv num den ≤ num / den + 1 := by
  dsimp only [roundDiv]
  split_ifs
  · exact Nat.le_succ _
  · exact Nat.le_refl _

theorem roundDiv_mono (hden : 0 < den) (hden' : 0 < den') (h : num * den' ≤ num' * den) :
    roundDiv num den ≤ roundDiv num' den' := by
  rcases Nat.eq_or_lt_of_le (div_le_div_of_mul_le hden hden' h) with hq | hq
  · -- with the same quotient it is the rests that are in order
    have hrest : num % den * den' ≤ num' % den' * den := by
      have h₁ := Nat.div_add_mod num den
      have h₂ := Nat.div_add_mod num' den'
      rw [← h₁, ← h₂, hq] at h
      nlinarith
    dsimp only [roundDiv]
    rw [hq]
    split_ifs with h₁ h₂ h₂
    · exact Nat.le_refl _
    · exact Nat.le_succ _
    · refine absurd ?_ h₁
      rcases h₂ with h₂ | ⟨h₂, heven⟩
      · exact .inl (by nlinarith)
      · rcases Nat.lt_or_ge (2 * (num % den)) den with hlt | hge
        · exact .inl hlt
        · exact .inr ⟨by nlinarith, heven⟩
    · exact Nat.le_refl _
  · calc roundDiv num den ≤ num / den + 1 := roundDiv_le num den
      _ ≤ num' / den' := hq
      _ ≤ roundDiv num' den' := div_le_roundDiv num' den'

/-! ### Rounding to numbers -/

/-- How many bits of the quotient are below the last one that is kept. -/
def roundingShift (num den : Nat) : Nat := (num * unitsPerOne / den).log2 - 52

theorem nearestRank_eq (num den : Nat) : nearestRank num den =
    roundingShift num den * binade +
      roundDiv (num * unitsPerOne) (den * 2 ^ roundingShift num den) := rfl

/-- Ranks go over to the next power of two at most. -/
theorem nearestRank_le (num den : Nat) :
    nearestRank num den ≤ (roundingShift num den + 2) * binade := by
  have hlog : (num * unitsPerOne / den).log2 < 53 + roundingShift num den := by
    rw [roundingShift]
    omega
  have hquotient : num * unitsPerOne / (den * 2 ^ roundingShift num den) < 2 * binade := by
    rw [← Nat.div_div_eq_div_mul, Nat.div_lt_iff_lt_mul (Nat.two_pow_pos _)]
    calc num * unitsPerOne / den < 2 ^ (53 + roundingShift num den) := by
          rcases Nat.eq_zero_or_pos (num * unitsPerOne / den) with hz | hpos
          · rw [hz]
            exact Nat.two_pow_pos _
          · exact (Nat.log2_lt hpos.ne').1 hlog
      _ = 2 * binade * 2 ^ roundingShift num den := Nat.pow_add 2 53 _
  rw [nearestRank_eq, Nat.add_mul]
  exact Nat.add_le_add_left (Nat.le_trans (roundDiv_le _ _) hquotient) _

/-- A number that loses bits has a significand of full length. -/
theorem le_nearestRank (h : 0 < roundingShift num den) :
    (roundingShift num den + 1) * binade ≤ nearestRank num den := by
  have hlog : roundingShift num den + 52 = (num * unitsPerOne / den).log2 := by
    rw [roundingShift] at h ⊢
    omega
  have hpos : num * unitsPerOne / den ≠ 0 := by
    intro hz
    rw [hz, Nat.log2_zero] at hlog
    omega
  have hquotient : binade ≤ num * unitsPerOne / (den * 2 ^ roundingShift num den) := by
    rw [← Nat.div_div_eq_div_mul, Nat.le_div_iff_mul_le (Nat.two_pow_pos _)]
    calc binade * 2 ^ roundingShift num den = 2 ^ (roundingShift num den + 52) := by
          rw [Nat.pow_add, Nat.mul_comm]
      _ ≤ num * unitsPerOne / den := by
          rw [hlog]
          exact Nat.log2_self_le hpos
  rw [nearestRank_eq, Nat.add_mul, Nat.one_mul]
  exact Nat.add_le_add_left (Nat.le_trans hquotient (div_le_roundDiv _ _)) _

/-- A larger quotient does not round to a smaller rank. -/
theorem nearestRank_mono (hden : 0 < den) (hden' : 0 < den') (h : num * den' ≤ num' * den) :
    nearestRank num den ≤ nearestRank num' den' := by
  have hscaled : num * unitsPerOne * den' ≤ num' * unitsPerOne * den := by
    rw [Nat.mul_right_comm, Nat.mul_right_comm num']
    exact Nat.mul_le_mul_right _ h
  have hshift : roundingShift num den ≤ roundingShift num' den' := by
    have hquotient := div_le_div_of_mul_le hden hden' hscaled
    have hlog : (num * unitsPerOne / den).log2 ≤ (num' * unitsPerOne / den').log2 := by
      rw [Nat.log2_eq_log_two, Nat.log2_eq_log_two]
      exact Nat.log_mono_right hquotient
    rw [roundingShift, roundingShift]
    omega
  rcases Nat.eq_or_lt_of_le hshift with heq | hlt
  · rw [nearestRank_eq, nearestRank_eq, heq]
    refine Nat.add_le_add_left (roundDiv_mono ?_ ?_ ?_) _
    · exact Nat.mul_pos hden (Nat.two_pow_pos _)
    · exact Nat.mul_pos hden' (Nat.two_pow_pos _)
    · rw [← Nat.mul_assoc, ← Nat.mul_assoc]
      exact Nat.mul_le_mul_right _ hscaled
  · calc nearestRank num den ≤ (roundingShift num den + 2) * binade := nearestRank_le num den
      _ ≤ (roundingShift num' den' + 1) * binade := Nat.mul_le_mul_right _ (by omega)
      _ ≤ nearestRank num' den' := le_nearestRank (by omega)

/-- What rounds below a finite number is finite. -/
theorem exists_nearest? {m : Magnitude} (h : nearestRank num den ≤ m.rank) :
    ∃ m', nearest? num den = some m' ∧ m'.rank ≤ m.rank := by
  have hfinite := Nat.lt_of_le_of_lt h m.finite
  exact ⟨⟨nearestRank num den, hfinite⟩, dif_pos hfinite, h⟩

theorem rank_of_nearest? {m : Magnitude} (h : nearest? num den = some m) :
    nearestRank num den = m.rank := by
  rw [nearest?] at h
  split_ifs at h
  cases h
  rfl

namespace Magnitude

/-- The values of numbers are in the order of their ranks. -/
theorem units_mono {m m' : Magnitude} (h : m.rank ≤ m'.rank) : m.units ≤ m'.units := by
  have hbinade : 0 < binade := by decide
  have hexponent : m.rank / binade ≤ m'.rank / binade := Nat.div_le_div_right h
  have hfraction : m.rank % binade < binade := Nat.mod_lt _ hbinade
  dsimp only [units]
  rcases Nat.eq_or_lt_of_le hexponent with heq | hlt
  · have hle : m.rank % binade ≤ m'.rank % binade := by
      have h₁ := Nat.div_add_mod m.rank binade
      have h₂ := Nat.div_add_mod m'.rank binade
      rw [heq] at h₁
      omega
    rw [heq]
    split_ifs
    · exact hle
    · exact Nat.mul_le_mul_right _ (Nat.add_le_add_left hle _)
  · rw [if_neg (Nat.ne_zero_of_lt hlt)]
    -- the larger number is at least the power of two that the smaller one is below
    have hpower : binade * 2 ^ (m'.rank / binade - 1) ≤
        (binade + m'.rank % binade) * Nat.pow 2 (m'.rank / binade - 1) :=
      Nat.mul_le_mul_right _ (Nat.le_add_right _ _)
    refine Nat.le_trans ?_ hpower
    split_ifs with hz
    · exact Nat.le_trans hfraction.le (Nat.le_mul_of_pos_right _ (Nat.two_pow_pos _))
    · calc (binade + m.rank % binade) * 2 ^ (m.rank / binade - 1)
          ≤ 2 * binade * 2 ^ (m.rank / binade - 1) := Nat.mul_le_mul_right _ (by omega)
        _ = binade * 2 ^ (m.rank / binade) := by
            rw [Nat.mul_right_comm, ← Nat.pow_add_one', Nat.mul_comm binade,
              Nat.sub_add_cancel (Nat.pos_of_ne_zero hz)]
        _ ≤ binade * 2 ^ (m'.rank / binade - 1) :=
            Nat.mul_le_mul_left _ (Nat.pow_le_pow_right (by decide) (by omega))

end Magnitude

/-! ### Scaling -/

variable {s s' k : Nat} {m p product : Magnitude}

theorem unitsPerOne_pos : 0 < unitsPerOne := by decide +kernel

theorem rank_of_powerOfTen? (h : powerOfTen? k = some p) : nearestRank (Nat.pow 10 k) 1 = p.rank :=
  rank_of_nearest? h

theorem nearestRank_le_one (h : s ≤ s') : nearestRank s 1 ≤ nearestRank s' 1 :=
  nearestRank_mono Nat.one_pos Nat.one_pos (Nat.mul_le_mul_right 1 h)

/-- A smaller power of ten is finite if a larger one is. -/
theorem exists_powerOfTen?_of_le {j : Nat} (h : j ≤ k) (hp : powerOfTen? k = some p) :
    ∃ p', powerOfTen? j = some p' ∧ p'.units ≤ p.units := by
  have hle : nearestRank (Nat.pow 10 j) 1 ≤ nearestRank (Nat.pow 10 k) 1 :=
    nearestRank_le_one (Nat.pow_le_pow_right (by decide) h)
  rw [rank_of_powerOfTen? hp] at hle
  obtain ⟨p', hp', hrank⟩ := exists_nearest? hle
  exact ⟨p', hp', Magnitude.units_mono hrank⟩

/-- Powers of ten up to `10 ^ 308` are finite, and not below one. -/
theorem exists_powerOfTen? (hk : k ≤ 308) :
    ∃ p, powerOfTen? k = some p ∧ unitsPerOne ≤ p.units := by
  obtain ⟨largest, hlargest⟩ : ∃ p, powerOfTen? 308 = some p :=
    Option.isSome_iff_exists.1 (by decide +kernel)
  have hone : (powerOfTen? 0).map Magnitude.units = some unitsPerOne := by decide +kernel
  obtain ⟨p, hp, -⟩ := exists_powerOfTen?_of_le hk hlargest
  obtain ⟨one, hone', hle⟩ := exists_powerOfTen?_of_le (Nat.zero_le k) hp
  rw [hone', Option.map_some] at hone
  exact ⟨p, hp, Option.some.inj hone ▸ hle⟩

/-- Smaller factors have a finite product if larger ones have. -/
theorem Magnitude.exists_mul? {m' p' : Magnitude} (h : m'.units ≤ m.units) (hp : p'.units ≤ p.units)
    (hm : m.mul? p = some product) : ∃ product', m'.mul? p' = some product' := by
  have hpos := Nat.mul_pos unitsPerOne_pos unitsPerOne_pos
  have hle := nearestRank_mono hpos hpos
    (Nat.mul_le_mul_right (unitsPerOne * unitsPerOne) (Nat.mul_le_mul h hp))
  rw [rank_of_nearest? hm] at hle
  obtain ⟨product', hproduct', -⟩ := exists_nearest? hle
  exact ⟨product', hproduct'⟩

theorem scaled?_ofNat (s : Nat) (hk : k ≤ 308) :
    scaled? s (.ofNat k) = (nearest? s 1).bind fun m => (powerOfTen? k).bind m.mul? := by
  rw [scaled?]
  simp only [if_pos hk]
  rfl

/-- A smaller significand is finite after a smaller scaling. -/
theorem exists_scaled?_of_le {j : Nat} (hk : k ≤ 308) (hj : j ≤ k) (h : s ≤ s')
    (hs : (scaled? s' (.ofNat k)).isSome) : ∃ m, scaled? s (.ofNat j) = some m := by
  rw [scaled?_ofNat _ hk] at hs
  obtain ⟨product, hproduct⟩ := Option.isSome_iff_exists.1 hs
  obtain ⟨m', hm', hproduct⟩ := Option.bind_eq_some_iff.1 hproduct
  obtain ⟨p', hp', hmul⟩ := Option.bind_eq_some_iff.1 hproduct
  obtain ⟨m, hm, hrank⟩ :=
    exists_nearest? (Nat.le_trans (nearestRank_le_one h) (rank_of_nearest? hm').le)
  obtain ⟨p, hp, hunits⟩ := exists_powerOfTen?_of_le hj hp'
  rw [scaled?_ofNat _ (Nat.le_trans hj hk), hm, Option.bind_some, hp, Option.bind_some]
  exact Magnitude.exists_mul? (Magnitude.units_mono hrank) hunits hmul

/-- The number `2 ^ 64`. -/
theorem exists_nearest?_top :
    ∃ top, nearest? 0x10000000000000000 1 = some top ∧
      top.units = 0x10000000000000000 * unitsPerOne :=
  ⟨⟨1087 * binade, by decide⟩, by decide +kernel, by decide +kernel⟩

/-- Division by powers of ten does not leave the numbers up to `2 ^ 64`. -/
theorem Magnitude.exists_lower? (h : m.units ≤ 0x10000000000000000 * unitsPerOne) (k : Nat) :
    ∃ m', m.lower? k = some m' := by
  obtain ⟨top, htop, hunits⟩ := exists_nearest?_top
  have hdiv {m p : Magnitude} (h : m.units ≤ 0x10000000000000000 * unitsPerOne)
      (hp : unitsPerOne ≤ p.units) :
      ∃ m', m.div? p = some m' ∧ m'.units ≤ 0x10000000000000000 * unitsPerOne := by
    have hmul : m.units * 1 ≤ 0x10000000000000000 * p.units := by
      rw [Nat.mul_one]
      exact Nat.le_trans h (Nat.mul_le_mul_left _ hp)
    have hle := nearestRank_mono (Nat.lt_of_lt_of_le unitsPerOne_pos hp) Nat.one_pos hmul
    rw [rank_of_nearest? htop] at hle
    obtain ⟨m', hm', hrank⟩ := exists_nearest? hle
    exact ⟨m', hm', hunits ▸ units_mono hrank⟩
  induction k using Nat.strongRecOn generalizing m with
  | ind k ih =>
    by_cases hk : k ≤ 308
    · obtain ⟨p, hp, hone⟩ := exists_powerOfTen? hk
      obtain ⟨m', hm', -⟩ := hdiv h hone
      rw [lower?, if_pos hk]
      exact ⟨m', Option.bind_eq_some_iff.2 ⟨p, hp, hm'⟩⟩
    · obtain ⟨p, hp, hone⟩ := exists_powerOfTen? (Nat.le_refl 308)
      obtain ⟨m', hm', hle⟩ := hdiv h hone
      obtain ⟨m'', hm''⟩ := ih (k - 308) (by omega) hle
      rw [lower?, if_neg hk]
      by_cases hz : m = zero
      · rw [if_pos hz]
        exact ⟨m, rfl⟩
      · rw [if_neg hz]
        have hlower := Option.bind_eq_some_iff.2 ⟨p, hp, hm'⟩
        exact ⟨m'', Option.bind_eq_some_iff.2 ⟨m', hlower, hm''⟩⟩

/-- Significands of 64 bits are finite after a scaling down, and after a small scaling up. -/
theorem exists_scaled?_of_lt (hs : s ≤ 0x10000000000000000) {exponent : Int} (he : exponent ≤ 16) :
    ∃ m, scaled? s exponent = some m := by
  cases exponent with
  | ofNat k =>
    have hlargest : (scaled? 0x10000000000000000 (.ofNat 16)).isSome := by decide +kernel
    exact exists_scaled?_of_le (by decide) (Int.ofNat_le.1 he) hs hlargest
  | negSucc k =>
    obtain ⟨top, htop, hunits⟩ := exists_nearest?_top
    have hle := nearestRank_le_one hs
    rw [rank_of_nearest? htop] at hle
    obtain ⟨m, hm, hrank⟩ := exists_nearest? hle
    obtain ⟨m', hm'⟩ := Magnitude.exists_lower? (hunits ▸ Magnitude.units_mono hrank) (k + 1)
    exact ⟨m', Option.bind_eq_some_iff.2 ⟨m, hm, hm'⟩⟩

/-! ### The largest number -/

/-- The largest finite number. -/
def Magnitude.largest : Magnitude := ⟨finiteCount - 1, by decide⟩

/-- Its value. -/
def largestWhole : Nat := (2 * binade - 1) * Nat.pow 2 971

theorem nearestRank_largestWhole : nearestRank largestWhole 1 = Magnitude.largest.rank := by
  decide +kernel

/-- The largest number is below `10 ^ 309`. -/
theorem le_of_pow_le_largestWhole (h : Nat.pow 10 k ≤ largestWhole) : k ≤ 308 := by
  by_contra hk
  have hle := Nat.le_trans (Nat.pow_le_pow_right (by decide) (Nat.lt_of_not_le hk)) h
  revert hle
  decide +kernel

/-- A significand of 17 digits is finite after a scaling that does not take it beyond the largest
number, although it is rounded before. -/
theorem exists_scaled?_of_mul_le (hs : s ≠ 0) (hdigits : s ≤ Nat.pow 10 17)
    (h : s * Nat.pow 10 k ≤ largestWhole) : ∃ m, scaled? s (.ofNat k) = some m := by
  by_cases hsmall : k ≤ 291
  · have hbound : (scaled? (Nat.pow 10 17) (.ofNat 291)).isSome := by decide +kernel
    exact exists_scaled?_of_le (by decide) hsmall hdigits hbound
  · have hk : k ≤ 308 := le_of_pow_le_largestWhole
      (Nat.le_trans (Nat.le_mul_of_pos_left _ (Nat.pos_of_ne_zero hs)) h)
    have hbounds : ∀ j ≤ 16,
        (scaled? (largestWhole / Nat.pow 10 (292 + j)) (.ofNat (292 + j))).isSome := by
      decide +kernel
    obtain ⟨j, rfl⟩ := Nat.exists_eq_add_of_lt (Nat.lt_of_not_le hsmall)
    have hle : s ≤ largestWhole / Nat.pow 10 (291 + j + 1) :=
      (Nat.le_div_iff_mul_le (Nat.pow_pos (by decide))).2 h
    have hsum : 291 + j + 1 = 292 + j := by omega
    rw [hsum] at hk hle ⊢
    exact exists_scaled?_of_le hk (Nat.le_refl _) hle (hbounds j (by omega))

end AssemblyInfo.Binary64
