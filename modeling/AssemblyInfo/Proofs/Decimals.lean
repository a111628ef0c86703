import AssemblyInfo.Proofs.Numerals
import AssemblyInfo.Proofs.Rounding

/-! Floats written and read back. A float is written as the numeral of its shortest decimal, which
has a fraction or an exponent and so is read as a float again. What is read is finite: a numeral
whose exponent is small is far from the largest float, and one with a large exponent is read as
written, so that it is below the largest float if the float that it was written for is. -/

namespace AssemblyInfo

open Json (IsDigits IsDecimal Numeral)

namespace Binary64

/-! ### Shortest decimals -/

/-- A decimal with digits, the first of them zero for the zero alone. -/
structure Decimal.IsNormal (d : Decimal) : Prop where
  digits : IsDigits d.digits
  zero : d.digits.head? = some '0' → d = .zero

theorem Decimal.isNormal_zero : Decimal.zero.IsNormal :=
  ⟨⟨List.cons_ne_nil _ _, List.forall_mem_singleton.2 rfl⟩, fun _ => rfl⟩

/-- The zeros that are left out at the end of the digits. -/
theorem Decimal.exists_zeros {n : Nat} (hn : n ≠ 0) (place : Int) :
    ∃ zeros, Nat.toDigits 10 n = (ofNat n place).digits ++ List.replicate zeros '0' := by
  have hcut := List.takeWhile_append_dropWhile (p := (· == '0')) (l := (Nat.toDigits 10 n).reverse)
  have hzeros : (Nat.toDigits 10 n).reverse.takeWhile (· == '0') =
      List.replicate ((Nat.toDigits 10 n).reverse.takeWhile (· == '0')).length '0' := by
    refine List.eq_replicate_iff.2 ⟨rfl, ?_⟩
    intro c hc
    simpa using List.mem_takeWhile_imp hc
  rw [hzeros] at hcut
  have hreverse := congrArg List.reverse hcut
  rw [List.reverse_append, List.reverse_replicate, List.reverse_reverse] at hreverse
  simp only [ofNat, if_neg hn]
  exact ⟨_, hreverse.symm⟩

theorem Decimal.isNormal_ofNat (n : Nat) (place : Int) : (ofNat n place).IsNormal := by
  by_cases hn : n = 0
  · simp only [ofNat, if_pos hn]
    exact isNormal_zero
  · obtain ⟨zeros, hzeros⟩ := exists_zeros hn place
    have hhead := Json.head?_toDigits_ne_zero hn
    have hne : (ofNat n place).digits ≠ [] := by
      intro hnil
      rw [hnil, List.nil_append] at hzeros
      cases zeros with
      | zero => exact Nat.toDigits_ne_nil hzeros
      | succ zeros => exact hhead (by rw [hzeros]; rfl)
    refine ⟨⟨hne, fun c hc => ?_⟩, fun hz => absurd ?_ hhead⟩
    · refine (Json.isDigits_decimal n).isDigit c ?_
      rw [Text.decimal, hzeros]
      exact List.mem_append_left _ hc
    · rw [hzeros, List.head?_append_of_ne_nil _ hne, hz]

/-- The digits without the zeros at the end, scaled, are the number itself. -/
theorem Decimal.exists_value {n : Nat} (hn : n ≠ 0) (place : Int) :
    ∃ zeros, Nat.ofDigitChars 10 (ofNat n place).digits 0 * Nat.pow 10 zeros = n ∧
      (ofNat n place).exponent - ((ofNat n place).digits.length - 1) = place + zeros := by
  obtain ⟨zeros, hzeros⟩ := exists_zeros hn place
  have hexponent : (ofNat n place).exponent = place + ((Nat.toDigits 10 n).length - 1 : Nat) := by
    simp only [ofNat, if_neg hn]
  have hpos := List.length_pos_iff.2 (isNormal_ofNat n place).digits.ne_nil
  refine ⟨zeros, ?_, ?_⟩
  · have hvalue : Nat.ofDigitChars 10 (Nat.toDigits 10 n) 0 = n := Nat.ofDigitChars_ten_toDigits
    rw [hzeros, Nat.ofDigitChars_append, Nat.ofDigitChars_replicate_zero, Nat.mul_comm] at hvalue
    exact hvalue
  · rw [hexponent, hzeros, List.length_append, List.length_replicate]
    omega

theorem Magnitude.isNormal_shortest (m : Magnitude) : m.shortest.IsNormal := by
  rw [shortest]
  cases m.shortestMultiple? with
  | none => exact Decimal.isNormal_zero
  | some p => exact Decimal.isNormal_ofNat _ _

theorem isDigit_replicate_zero (k : Nat) : ∀ c ∈ List.replicate k '0', c.isDigit := by
  intro c hc
  rw [List.eq_of_mem_replicate hc]
  rfl

theorem Decimal.IsNormal.isDigits_drop {d : Decimal} (h : d.IsNormal) {k : Nat}
    (hne : d.digits.drop k ≠ []) : IsDigits (d.digits.drop k) :=
  ⟨hne, fun c hc => h.digits.isDigit c (List.mem_of_mem_drop hc)⟩

/-- The first digits make a number, also with zeros after them, unless they are a zero. -/
theorem Decimal.IsNormal.isDecimal_take {d : Decimal} (h : d.IsNormal) (k : Nat) {zeros : List Char}
    (hz : ∀ c ∈ zeros, c.isDigit) (h0 : d = .zero → zeros = []) :
    IsDecimal (d.digits.take (k + 1) ++ zeros) := by
  obtain ⟨c, digits, hc⟩ := List.exists_cons_of_ne_nil h.digits.ne_nil
  refine ⟨⟨by simp [hc], ?_⟩, ?_⟩
  · intro c hc
    exact (List.mem_append.1 hc).elim (fun hc => h.digits.isDigit c (List.mem_of_mem_take hc)) (hz c)
  · intro hhead
    have hd : d = .zero := h.zero (by simpa [hc] using hhead)
    rw [h0 hd, hd]
    simp [Decimal.zero]

/-- The multiple is next to the number, and rounds to it. -/
theorem Magnitude.multiple?_spec {m : Magnitude} {n place : Nat} (h : m.multiple? place = some n) :
    m.isNearest n place ∧
      n ≤ m.units * decimalsPerOne / (unitsPerOne * Nat.pow 10 place) + 1 := by
  have hnearer := roundDiv_le (m.units * decimalsPerOne) (unitsPerOne * Nat.pow 10 place)
  rw [multiple?] at h
  generalize m.units * decimalsPerOne = num at h hnearer ⊢
  generalize unitsPerOne * Nat.pow 10 place = den at h hnearer ⊢
  have hfarther : (if roundDiv num den = num / den then num / den + 1 else num / den) ≤
      num / den + 1 := by
    split_ifs
    · exact Nat.le_refl _
    · exact Nat.le_succ _
  generalize (if roundDiv num den = num / den then num / den + 1 else num / den) = farther
    at h hfarther
  split_ifs at h with hnearest hnearest'
  · cases h
    exact ⟨hnearest, hnearer⟩
  · cases h
    exact ⟨hnearest', hfarther⟩

/-- The shortest multiple has seventeen digits at most, and rounds to the number. -/
theorem Magnitude.shortestMultiple?_spec {m : Magnitude} {n place : Nat}
    (h : m.shortestMultiple? = some (n, place)) : m.isNearest n place ∧ n ≤ Nat.pow 10 17 := by
  rw [shortestMultiple?] at h
  obtain ⟨i, hi, hsome⟩ := List.exists_of_findSome?_eq_some h
  obtain ⟨n', hn', heq⟩ := Option.map_eq_some_iff.1 hsome
  obtain ⟨rfl, rfl⟩ := Prod.mk.inj heq
  obtain ⟨hnearest, hle⟩ := multiple?_spec hn'
  refine ⟨hnearest, Nat.le_trans hle (Nat.succ_le_of_lt ?_)⟩
  rw [← Nat.div_div_eq_div_mul]
  generalize m.units * decimalsPerOne / unitsPerOne = whole
  have hlength : whole < 10 ^ (Nat.toDigits 10 whole).length :=
    (Nat.length_toDigits_le_iff (by decide) (List.length_pos_iff.2 Nat.toDigits_ne_nil)).1
      (Nat.le_refl _)
  refine Nat.div_lt_of_lt_mul ?_
  have hi := List.mem_range.1 hi
  calc whole < 10 ^ (Nat.toDigits 10 whole).length := hlength
    _ ≤ 10 ^ ((Nat.toDigits 10 whole).length - (i + 1) + 17) :=
        Nat.pow_le_pow_right (by decide) (by omega)
    _ = 10 ^ ((Nat.toDigits 10 whole).length - (i + 1)) * 10 ^ 17 := Nat.pow_add ..

/-- The digits of a shortest decimal of ten and more, scaled, are a multiple that rounds to the
number. -/
theorem Magnitude.exists_isNearest_shortest {m : Magnitude} (h : 0 < m.shortest.exponent) :
    ∃ place zeros : Nat,
      m.isNearest (Nat.ofDigitChars 10 m.shortest.digits 0 * Nat.pow 10 zeros) place ∧
      Nat.ofDigitChars 10 m.shortest.digits 0 ≠ 0 ∧
      Nat.ofDigitChars 10 m.shortest.digits 0 ≤ Nat.pow 10 17 ∧
      m.shortest.exponent - (m.shortest.digits.length - 1) = (place - 342 : Int) + zeros := by
  cases hm : m.shortestMultiple? with
  | none =>
    have hzero : m.shortest = .zero := by rw [shortest, hm]; rfl
    rw [hzero] at h
    exact absurd h (by decide)
  | some multiple =>
    obtain ⟨n, place⟩ := multiple
    have hshortest : m.shortest = .ofNat n (place - 342 : Int) := by rw [shortest, hm]; rfl
    obtain ⟨hnearest, hdigits⟩ := shortestMultiple?_spec hm
    have hn : n ≠ 0 := by
      rintro rfl
      rw [hshortest] at h
      exact absurd h (by decide : ¬(0 : Int) < 0)
    obtain ⟨zeros, hvalue, hplace⟩ := Decimal.exists_value hn (place - 342 : Int)
    rw [← hshortest] at hvalue hplace
    refine ⟨place, zeros, hvalue ▸ hnearest, ?_, ?_, hplace⟩
    · intro hzero
      rw [hzero, Nat.zero_mul] at hvalue
      exact hn hvalue.symm
    · refine Nat.le_trans ?_ hdigits
      rw [← hvalue]
      exact Nat.le_mul_of_pos_right _ (Nat.pow_pos (by decide))

theorem decimalsPerOne_pos : 0 < decimalsPerOne := by decide +kernel

/-- What rounds to less than the largest number is less than it, however it is scaled. -/
theorem Magnitude.lt_of_isNearest {m : Magnitude} {value zeros place k : Nat} (hm : m ≠ largest)
    (h : m.isNearest (value * Nat.pow 10 zeros) place) (hk : k + 342 = place + zeros) :
    value * Nat.pow 10 k < largestWhole := by
  have hrank : nearestRank (value * Nat.pow 10 zeros * Nat.pow 10 place) decimalsPerOne = m.rank :=
    beq_iff_eq.1 h
  obtain ⟨scale, hscale, hone⟩ : ∃ scale, scale = 342 ∧ decimalsPerOne = Nat.pow 10 scale :=
    ⟨342, rfl, by decide +kernel⟩
  have hscaled : value * Nat.pow 10 zeros * Nat.pow 10 place =
      value * Nat.pow 10 k * decimalsPerOne := by
    rw [← hscale] at hk
    calc value * 10 ^ zeros * 10 ^ place = value * 10 ^ (k + scale) := by
          rw [hk, Nat.mul_assoc, ← Nat.pow_add, Nat.add_comm zeros]
      _ = value * 10 ^ k * 10 ^ scale := by rw [Nat.pow_add, Nat.mul_assoc]
      _ = value * 10 ^ k * decimalsPerOne := congrArg (value * 10 ^ k * ·) hone.symm
  refine Nat.lt_of_not_le fun hge => hm ?_
  have hle : nearestRank largestWhole 1 ≤
      nearestRank (value * Nat.pow 10 zeros * Nat.pow 10 place) decimalsPerOne := by
    refine nearestRank_mono Nat.one_pos decimalsPerOne_pos ?_
    rw [Nat.mul_one, hscaled]
    exact Nat.mul_le_mul_right _ hge
  rw [hrank, nearestRank_largestWhole] at hle
  obtain ⟨rank, finite⟩ := m
  obtain rfl : rank = largest.rank := Nat.le_antisymm (Nat.le_pred_of_lt finite) hle
  rfl

theorem Magnitude.shortest_largest :
    largest.shortest = ⟨"17976931348623157".toList, 308⟩ := by
  decide +kernel

end Binary64

namespace Json

open Binary64 (Decimal)

/-! ### Decimals as numerals -/

/-- The numeral of a decimal, laid out as a float. -/
def Numeral.ofDecimal (negative : Bool) (d : Decimal) : Numeral :=
  if Number.layout.low ≤ d.exponent ∧ d.exponent < Number.layout.high then
    match d.exponent with
    | .ofNat k =>
      { negative
        whole := d.digits.take (k + 1) ++ List.replicate (k + 1 - d.digits.length) '0'
        fraction := some (if d.digits.drop (k + 1) = [] then ['0'] else d.digits.drop (k + 1))
        exponent := none }
    | .negSucc k =>
      { negative
        whole := ['0']
        fraction := some (List.replicate k '0' ++ d.digits)
        exponent := none }
  else
    { negative
      whole := d.digits.take 1
      fraction := if d.digits.drop 1 = [] then none else some (d.digits.drop 1)
      exponent := some (decide (d.exponent < 0), Text.decimal d.exponent.natAbs) }

namespace Numeral

variable {d : Decimal} {negative : Bool}

theorem negative_ofDecimal (negative : Bool) (d : Decimal) :
    (ofDecimal negative d).negative = negative := by
  by_cases hlow : Number.layout.low ≤ d.exponent ∧ d.exponent < Number.layout.high
  · rw [ofDecimal, if_pos hlow]
    split <;> rfl
  · rw [ofDecimal, if_neg hlow]

theorem exponentText_some (n : Int) : exponentText (some (decide (n < 0), Text.decimal n.natAbs)) =
    'e' :: (if n < 0 then '-' else '+') :: Text.decimal n.natAbs := by
  simp [exponentText]

/-- The numeral of a decimal is written as the decimal is laid out. -/
theorem text_ofDecimal (negative : Bool) (d : Decimal) : (ofDecimal negative d).text =
    if negative then '-' :: Number.layout.write d else Number.layout.write d := by
  have hunsigned : (ofDecimal negative d).whole ++ (fractionText (ofDecimal negative d).fraction ++
      exponentText (ofDecimal negative d).exponent) = Number.layout.write d := by
    by_cases hlow : Number.layout.low ≤ d.exponent ∧ d.exponent < Number.layout.high
    · rw [Binary64.Layout.write, if_pos hlow, ofDecimal, if_pos hlow]
      cases d.exponent with
      | ofNat k => simp [fractionText, exponentText]
      | negSucc k => simp [fractionText, exponentText]
    · rw [Binary64.Layout.write, if_neg hlow, ofDecimal, if_neg hlow]
      simp only [exponentText_some]
      split_ifs <;> simp [fractionText, Text.decimal, Number.layout]
  rw [text, hunsigned, negative_ofDecimal]
  split_ifs <;> rfl

/-- The numeral of a decimal has a fraction or an exponent. -/
theorem isSome_ofDecimal (negative : Bool) (d : Decimal) :
    (ofDecimal negative d).fraction.isSome ∨ (ofDecimal negative d).exponent.isSome := by
  unfold ofDecimal
  split_ifs
  · split
    · exact .inl rfl
    · exact .inl rfl
  · exact .inr rfl
  · exact .inr rfl

theorem number?_ofDecimal (negative : Bool) (d : Decimal) :
    (ofDecimal negative d).number? = (ofDecimal negative d).float? := by
  rw [number?]
  exact if_pos ((isSome_ofDecimal negative d).imp_right .inl)

theorem wellFormed_ofDecimal (negative : Bool) (h : d.IsNormal) :
    (ofDecimal negative d).WellFormed := by
  have hfirst : IsDecimal (d.digits.take 1) := by
    simpa using h.isDecimal_take 0 (List.forall_mem_nil _) fun _ => rfl
  unfold ofDecimal
  split_ifs with hlow hfraction
  · split
    · next k hk =>
      refine ⟨h.isDecimal_take k (Binary64.isDigit_replicate_zero _) ?_, ?_, nofun⟩
      · rintro rfl
        cases hk
        rfl
      · rintro digits ⟨⟩
        split_ifs with hnil
        · exact (isDecimal_decimal 0).toIsDigits
        · exact h.isDigits_drop hnil
    · next k hk =>
      refine ⟨isDecimal_decimal 0, ?_, nofun⟩
      rintro digits ⟨⟩
      refine ⟨by simp [h.digits.ne_nil], fun c hc => ?_⟩
      exact (List.mem_append.1 hc).elim (Binary64.isDigit_replicate_zero k c) (h.digits.isDigit c)
  · refine ⟨hfirst, nofun, ?_⟩
    rintro e ⟨⟩
    exact isDigits_decimal _
  · refine ⟨hfirst, ?_, ?_⟩
    · rintro digits ⟨⟩
      exact h.isDigits_drop hfraction
    · rintro e ⟨⟩
      exact isDigits_decimal _

end Numeral

/-- A float is written as a numeral that stands for a float. -/
theorem Number.exists_numeral (negative : Bool) (m : Binary64.Magnitude) :
    ∃ n : Numeral, n.WellFormed ∧ n.text = (Number.float negative m).write ∧
      (n.fraction.isSome ∨ n.exponent.isSome) :=
  ⟨.ofDecimal negative m.shortest, Numeral.wellFormed_ofDecimal negative m.isNormal_shortest,
    Numeral.text_ofDecimal negative m.shortest, Numeral.isSome_ofDecimal negative m.shortest⟩

/-! ### Reading the significand -/

namespace Numeral

/-- The significand does not leave its 64 bits. -/
theorem gather_lt {s : Nat} (hs : s < wordCount) (digits : Text) :
    (gather s digits).1 < wordCount := by
  induction digits generalizing s with
  | nil => exact hs
  | cons c digits ih =>
    dsimp only [gather]
    split_ifs with h
    · exact ih h
    · exact hs

theorem length_gather_le (s : Nat) (digits : Text) :
    (gather s digits).2.length ≤ digits.length := by
  induction digits generalizing s with
  | nil => exact Nat.le_refl _
  | cons c digits ih =>
    dsimp only [gather]
    split_ifs with h
    · exact Nat.le_succ_of_le (ih _)
    · exact Nat.le_refl _

theorem le_ofDigitChars (s : Nat) (digits : Text) : s ≤ Nat.ofDigitChars 10 digits s := by
  rw [Nat.ofDigitChars_eq_ofDigitChars_zero]
  exact Nat.le_trans (Nat.le_mul_of_pos_left _ (Nat.pow_pos (by decide))) (Nat.le_add_right _ _)

/-- All digits are taken if the number that they make fits. -/
theorem gather_eq {s : Nat} {digits : Text} (h : Nat.ofDigitChars 10 digits s < wordCount) :
    gather s digits = (Nat.ofDigitChars 10 digits s, []) := by
  induction digits generalizing s with
  | nil => rw [gather, Nat.ofDigitChars_nil]
  | cons c digits ih =>
    rw [Nat.ofDigitChars_cons] at h ⊢
    have hnext : 10 * s + (c.toNat - '0'.toNat) < wordCount := by
      exact Nat.lt_of_le_of_lt (le_ofDigitChars _ _) h
    rw [gather, Nat.mul_comm s, if_pos hnext, ih h]

/-! ### Reading floats -/

/-- The power of ten that a numeral is written with. -/
def power (n : Numeral) : Int :=
  match n.exponent with
  | none => 0
  | some (negative, digits) =>
    if negative then -(Nat.ofDigitChars 10 digits 0) else Nat.ofDigitChars 10 digits 0

/-- The significand and the power of ten that a numeral is read with. -/
def significand (n : Numeral) : Nat := (gather (gather 0 n.whole).1 (n.fraction.getD [])).1

def place (n : Numeral) : Int :=
  (gather 0 n.whole).2.length - ((n.fraction.getD []).length -
    (gather (gather 0 n.whole).1 (n.fraction.getD [])).2.length) + n.power

theorem float?_eq (n : Numeral) :
    n.float? = (Binary64.scaled? n.significand n.place).map (.float n.negative) := rfl

variable {n : Numeral}

theorem eq_float_of_float? {number : Number} (h : n.float? = some number) :
    ∃ m, number = .float n.negative m := by
  obtain ⟨m, -, hm⟩ := Option.map_eq_some_iff.1 (n.float?_eq.symm.trans h)
  exact ⟨m, hm.symm⟩

/-- A numeral with a small exponent is finite, however many digits it has. -/
theorem exists_scaled?_of_power (h : n.whole.length + n.power ≤ 16) :
    ∃ m, Binary64.scaled? n.significand n.place = some m := by
  refine Binary64.exists_scaled?_of_lt (gather_lt (gather_lt (by decide) _) _).le ?_
  have hwhole := length_gather_le 0 n.whole
  have hfraction := length_gather_le (gather 0 n.whole).1 (n.fraction.getD [])
  rw [place]
  omega

/-- Digits that make a number of 64 bits are all read. -/
theorem read_all (digits : Text) (hdigits : n.whole ++ n.fraction.getD [] = digits)
    (h : Nat.ofDigitChars 10 digits 0 < wordCount) :
    n.significand = Nat.ofDigitChars 10 digits 0 ∧
      n.place = n.power - (n.fraction.getD []).length := by
  subst hdigits
  rw [Nat.ofDigitChars_append] at h ⊢
  have hwhole := gather_eq (Nat.lt_of_le_of_lt (le_ofDigitChars _ _) h)
  have hfraction := gather_eq h
  rw [significand, place, hwhole, hfraction]
  refine ⟨rfl, ?_⟩
  simp only [List.length_nil]
  omega

theorem power_ofDecimal (negative : Bool) (h : Number.layout.high ≤ d.exponent) :
    (ofDecimal negative d).whole = d.digits.take 1 ∧
      (ofDecimal negative d).fraction.getD [] = d.digits.drop 1 ∧
      (ofDecimal negative d).power = d.exponent := by
  have hlow : ¬(Number.layout.low ≤ d.exponent ∧ d.exponent < Number.layout.high) := by omega
  have hpos : 0 ≤ d.exponent := Int.le_trans (by decide) h
  rw [ofDecimal, if_neg hlow]
  refine ⟨rfl, ?_, ?_⟩
  · dsimp only
    split_ifs with hnil
    · exact hnil.symm
    · rfl
  · have hvalue : Nat.ofDigitChars 10 (Text.decimal d.exponent.natAbs) 0 = d.exponent.natAbs :=
      Nat.ofDigitChars_ten_toDigits
    simp only [power, hvalue]
    rw [if_neg (by simpa using hpos), Int.natAbs_of_nonneg hpos]

/-- A decimal below `1e16` has a small exponent. -/
theorem power_ofDecimal_le (negative : Bool) (h : d.exponent < Number.layout.high) :
    (ofDecimal negative d).whole.length + (ofDecimal negative d).power ≤ 16 := by
  have hhigh : d.exponent < 16 := h
  by_cases hlow : Number.layout.low ≤ d.exponent ∧ d.exponent < Number.layout.high
  · rw [ofDecimal, if_pos hlow]
    split
    · next k hk =>
      have hk : d.exponent = (k : Int) := hk
      simp only [power, List.length_append, List.length_take, List.length_replicate]
      omega
    · simp [power]
  · have hlow : d.exponent < -5 := by
      by_contra hge
      exact hlow ⟨Int.le_of_not_gt hge, h⟩
    have hvalue : Nat.ofDigitChars 10 (Text.decimal d.exponent.natAbs) 0 = d.exponent.natAbs :=
      Nat.ofDigitChars_ten_toDigits
    rw [ofDecimal, if_neg (by omega)]
    simp only [power, hvalue, List.length_take]
    rw [if_pos (by simp; omega)]
    omega

end Numeral

/-- The largest float is read as written. -/
theorem Numeral.isSome_scaled?_largest (negative : Bool) : (Binary64.scaled?
    (ofDecimal negative ⟨"17976931348623157".toList, 308⟩).significand
    (ofDecimal negative ⟨"17976931348623157".toList, 308⟩).place).isSome := by
  revert negative
  decide +kernel

/-- Of a float of `1e16` and more all digits are read. -/
theorem Numeral.read_ofDecimal_shortest (negative : Bool) {m : Binary64.Magnitude}
    (h : Number.layout.high ≤ m.shortest.exponent)
    (hdigits : Nat.ofDigitChars 10 m.shortest.digits 0 ≤ Nat.pow 10 17) :
    (ofDecimal negative m.shortest).significand = Nat.ofDigitChars 10 m.shortest.digits 0 ∧
      (ofDecimal negative m.shortest).place =
        m.shortest.exponent - (m.shortest.digits.length - 1) := by
  obtain ⟨hwhole, hfraction, hpower⟩ := power_ofDecimal negative h
  obtain ⟨hsignificand, hscale⟩ := read_all m.shortest.digits
    (by rw [hwhole, hfraction, List.take_append_drop]) (Nat.lt_of_le_of_lt hdigits (by decide))
  have hne := List.length_pos_iff.2 m.isNormal_shortest.digits.ne_nil
  refine ⟨hsignificand, ?_⟩
  rw [hscale, hpower, hfraction, List.length_drop]
  omega

/-- The numeral of the shortest decimal is finite. -/
theorem Numeral.exists_scaled?_shortest (negative : Bool) (m : Binary64.Magnitude) :
    ∃ m', Binary64.scaled? (ofDecimal negative m.shortest).significand
      (ofDecimal negative m.shortest).place = some m' := by
  by_cases hlow : m.shortest.exponent < Number.layout.high
  · exact exists_scaled?_of_power (power_ofDecimal_le negative hlow)
  by_cases hlargest : m = .largest
  · rw [hlargest, Binary64.Magnitude.shortest_largest]
    exact Option.isSome_iff_exists.1 (isSome_scaled?_largest negative)
  have hhigh := Int.le_of_not_gt hlow
  -- the digits are those of a multiple that rounds to the float
  obtain ⟨place, zeros, hnearest, hne, hdigits, hplace⟩ :=
    Binary64.Magnitude.exists_isNearest_shortest (m := m) (Int.lt_of_lt_of_le (by decide) hhigh)
  obtain ⟨hsignificand, hscale⟩ := read_ofDecimal_shortest negative hhigh hdigits
  rw [hplace] at hscale
  rw [hsignificand]
  cases hk : (ofDecimal negative m.shortest).place with
  | ofNat k =>
    rw [hk, Int.ofNat_eq_natCast] at hscale
    have hsum : k + 342 = place + zeros := by omega
    refine Binary64.exists_scaled?_of_mul_le hne hdigits (Nat.le_of_lt ?_)
    exact Binary64.Magnitude.lt_of_isNearest hlargest hnearest hsum
  | negSucc k =>
    refine Binary64.exists_scaled?_of_lt ?_ (Int.le_trans (Int.negSucc_lt_zero k).le (by decide))
    exact Nat.le_trans hdigits (by decide)

/-- The literal of a float is read as a float of the same sign. -/
theorem Number.exists_parse?_write (negative : Bool) (m : Binary64.Magnitude) :
    ∃ m', Value.parse? (Number.float negative m).write = some (.number (.float negative m')) := by
  obtain ⟨m', hm'⟩ := Numeral.exists_scaled?_shortest negative m
  refine ⟨m', ?_⟩
  have hwrite := Numeral.text_ofDecimal negative m.shortest
  have hwritten := Shape.written_number (Numeral.wellFormed_ofDecimal negative m.isNormal_shortest)
  rw [write, ← hwrite, hwritten.parse?, Shape.value?, Numeral.number?_ofDecimal,
    Numeral.float?_eq, hm', Numeral.negative_ofDecimal]
  rfl

end Json

end AssemblyInfo
