import AssemblyInfo.Proofs.Except
import AssemblyInfo.Text.Utf8
import Mathlib

/-! Reading the UTF-8 form of a text loses nothing: if bytes are read as a text, they are its UTF-8
form, and the UTF-8 form of each text is read as the text. The invariant of a character of which some
bytes have been read says what these bytes are, whichever the bytes to come. -/

namespace AssemblyInfo.Utf8

/-- The last `k` bytes in the UTF-8 form of the character `v`, none of them its first byte. -/
def tailBytes : (k : Nat) → (v : Nat) → Bytes
  | 0, _ => []
  | k + 1, v => UInt8.ofNat (v / 64 ^ k % 64 + 0x80) :: tailBytes k v

/-- The least and the greatest character that a pending one can become, the latter excluded. -/
def Pending.least (p : Pending) : Nat :=
  (p.value * 64 + (p.low - 0x80)) * 64 ^ (p.needed - 1)

@[inherit_doc Pending.least]
def Pending.limit (p : Pending) : Nat :=
  (p.value * 64 + (p.high - 0x80) + 1) * 64 ^ (p.needed - 1)

/-- The bytes `read` are the start of each character that the pending one can become. -/
structure Pending.Starts (p : Pending) (read : Bytes) : Prop where
  needed_pos : 0 < p.needed
  low_ge : 0x80 ≤ p.low
  high_le : p.high ≤ 0xBF
  encode_eq : ∀ v, p.least ≤ v → v < p.limit →
    String.utf8EncodeChar (Char.ofNat v) = read ++ tailBytes p.needed v

theorem toNat_ofNat_of_valid {v : Nat} (h : v.isValidChar) : (Char.ofNat v).val.toNat = v := by
  rw [Char.ofNat, dif_pos h]
  rfl

theorem encodeChar_two {v : Nat} (h₁ : 0x80 ≤ v) (h₂ : v < 0x800) :
    String.utf8EncodeChar (Char.ofNat v) =
      UInt8.ofNat (v / 64 + 0xC0) :: tailBytes 1 v := by
  have hv : (Char.ofNat v).val.toNat = v := toNat_ofNat_of_valid (Or.inl (by omega))
  have hm : v / 64 % 32 = v / 64 := by omega
  simp only [String.utf8EncodeChar, hv]
  rw [if_neg (by omega), if_pos (by omega), hm]
  simp [tailBytes]

theorem encodeChar_three {v : Nat} (h₁ : 0x800 ≤ v) (h₂ : v < 0x10000)
    (hs : v < 0xD800 ∨ 0xDFFF < v) :
    String.utf8EncodeChar (Char.ofNat v) =
      UInt8.ofNat (v / 64 ^ 2 + 0xE0) :: tailBytes 2 v := by
  have hv : (Char.ofNat v).val.toNat = v :=
    toNat_ofNat_of_valid (hs.imp id fun h => ⟨h, by omega⟩)
  have hm : v / 4096 % 16 = v / 4096 := by omega
  simp only [String.utf8EncodeChar, hv]
  rw [if_neg (by omega), if_neg (by omega), if_pos (by omega), hm]
  simp [tailBytes]

theorem encodeChar_four {v : Nat} (h₁ : 0x10000 ≤ v) (h₂ : v < 0x110000) :
    String.utf8EncodeChar (Char.ofNat v) =
      UInt8.ofNat (v / 64 ^ 3 + 0xF0) :: tailBytes 3 v := by
  have hv : (Char.ofNat v).val.toNat = v :=
    toNat_ofNat_of_valid (Or.inr ⟨by omega, by omega⟩)
  have hm : v / 262144 % 8 = v / 262144 := by omega
  simp only [String.utf8EncodeChar, hv]
  rw [if_neg (by omega), if_neg (by omega), if_neg (by omega)]
  simp only [tailBytes, hm]
  simp

variable {p : Pending} {b : Nat}

theorem Pending.Starts.two (hn : p.needed = 1) (hb : p.value + 0xC0 = b) (hl : 0x80 ≤ p.low)
    (hh : p.high ≤ 0xBF) (h₁ : 0x80 ≤ p.least) (h₂ : p.limit ≤ 0x800) :
    p.Starts [UInt8.ofNat b] := by
  refine ⟨by omega, hl, hh, fun v hv hv' => ?_⟩
  have hd : v / 64 = p.value := by
    simp only [least, limit, hn, Nat.reduceSub, Nat.reducePow] at hv hv'
    omega
  rw [encodeChar_two (by omega) (by omega), hn, hd, hb]
  rfl

theorem Pending.Starts.three (hn : p.needed = 2) (hb : p.value + 0xE0 = b) (hl : 0x80 ≤ p.low)
    (hh : p.high ≤ 0xBF) (h₁ : 0x800 ≤ p.least) (h₂ : p.limit ≤ 0x10000)
    (hs : p.limit ≤ 0xD800 ∨ 0xE000 ≤ p.least) : p.Starts [UInt8.ofNat b] := by
  refine ⟨by omega, hl, hh, fun v hv hv' => ?_⟩
  have hd : v / 64 ^ 2 = p.value := by
    simp only [least, limit, hn, Nat.reduceSub, Nat.reducePow] at hv hv' ⊢
    omega
  rw [encodeChar_three (by omega) (by omega) (by omega), hn, hd, hb]
  rfl

theorem Pending.Starts.four (hn : p.needed = 3) (hb : p.value + 0xF0 = b) (hl : 0x80 ≤ p.low)
    (hh : p.high ≤ 0xBF) (h₁ : 0x10000 ≤ p.least) (h₂ : p.limit ≤ 0x110000) :
    p.Starts [UInt8.ofNat b] := by
  refine ⟨by omega, hl, hh, fun v hv hv' => ?_⟩
  have hd : v / 64 ^ 3 = p.value := by
    simp only [least, limit, hn, Nat.reduceSub, Nat.reducePow] at hv hv' ⊢
    omega
  rw [encodeChar_four (by omega) (by omega), hn, hd, hb]
  rfl

/-- The bounds that the first byte sets for the second one keep out overlong forms, surrogates and
what is above U+10FFFF. -/
theorem starts_of_lead? {start : Nat} (h : lead? start b = some p) :
    p.Starts [UInt8.ofNat b] := by
  simp only [lead?] at h
  split_ifs at h <;> cases h
  · apply Pending.Starts.two <;> simp only [Pending.least, Pending.limit] <;> omega
  · apply Pending.Starts.three <;> simp only [Pending.least, Pending.limit] <;> omega
  · apply Pending.Starts.three <;> simp only [Pending.least, Pending.limit] <;> omega
  · apply Pending.Starts.three <;> simp only [Pending.least, Pending.limit] <;> omega
  · apply Pending.Starts.four <;> simp only [Pending.least, Pending.limit] <;> omega
  · apply Pending.Starts.four <;> simp only [Pending.least, Pending.limit] <;> omega
  · apply Pending.Starts.four <;> simp only [Pending.least, Pending.limit] <;> omega

/-- One more byte of a pending character. -/
theorem Pending.Starts.next {read : Bytes} {b : UInt8} (hp : p.Starts read) (hl : p.low ≤ b.toNat)
    (hh : b.toNat ≤ p.high) (hn : p.needed ≠ 1) :
    Starts { p with accepted := p.accepted + 1, value := p.value * 64 + (b.toNat - 0x80),
                    needed := p.needed - 1, low := 0x80, high := 0xBF } (read ++ [b]) := by
  obtain ⟨hpos, hlow, hhigh, he⟩ := hp
  obtain ⟨k, hk⟩ : ∃ k, p.needed = k + 2 := ⟨p.needed - 2, by omega⟩
  refine ⟨by simp only; omega, by simp, by simp, fun v hv hv' => ?_⟩
  have hpow : ∀ j, 0 < 64 ^ j := fun j => Nat.pow_pos (by decide)
  -- the digit of `v` in this place is the one that the byte gives
  have hq : v / 64 ^ (k + 1) = p.value * 64 + (b.toNat - 0x80) := by
    rw [least, hk, ← Nat.le_div_iff_mul_le (hpow _)] at hv
    rw [limit, hk, ← Nat.div_lt_iff_lt_mul (hpow _)] at hv'
    simp only [show k + 2 - 1 - 1 = k from rfl] at hv hv'
    rw [Nat.pow_succ, ← Nat.div_div_eq_div_mul]
    omega
  have hleast : p.least ≤ v := by
    rw [least, hk, ← Nat.le_div_iff_mul_le (hpow _)]
    show _ ≤ v / 64 ^ (k + 1)
    omega
  have hlimit : v < p.limit := by
    rw [limit, hk, ← Nat.div_lt_iff_lt_mul (hpow _)]
    show v / 64 ^ (k + 1) < _
    omega
  rw [he v hleast hlimit, hk, tailBytes, hq, List.append_assoc]
  have hb : (p.value * 64 + (b.toNat - 0x80)) % 64 + 0x80 = b.toNat := by omega
  rw [hb, UInt8.ofNat_toNat]
  rfl

/-- The last byte of a pending character. -/
theorem Pending.Starts.last {read : Bytes} {b : UInt8} (hp : p.Starts read) (hl : p.low ≤ b.toNat)
    (hh : b.toNat ≤ p.high) (hn : p.needed = 1) :
    String.utf8EncodeChar (Char.ofNat (p.value * 64 + (b.toNat - 0x80))) = read ++ [b] := by
  obtain ⟨-, hlow, hhigh, he⟩ := hp
  rw [he _ (by simp only [least, hn]; omega) (by simp only [limit, hn]; omega), hn]
  have hb : (p.value * 64 + (b.toNat - 0x80)) / 64 ^ 0 % 64 + 0x80 = b.toNat := by omega
  rw [tailBytes, hb, UInt8.ofNat_toNat]
  rfl

theorem encodeChar_one {b : UInt8} (h : b.toNat < 0x80) :
    String.utf8EncodeChar (Char.ofNat b.toNat) = [b] := by
  have hv : (Char.ofNat b.toNat).val.toNat = b.toNat := toNat_ofNat_of_valid (Or.inl (by omega))
  simp only [String.utf8EncodeChar, hv]
  rw [if_pos (by omega), UInt8.ofNat_toNat]

/-- The bytes that have been read of the character that is pending, if there is one. -/
def Starts : Option Pending → Bytes → Prop
  | none, read => read = []
  | some p, read => p.Starts read

theorem encode_cons (c : Char) (t : Text) : encode (c :: t) = String.utf8EncodeChar c ++ encode t :=
  rfl

theorem encode_append (s t : Text) : encode (s ++ t) = encode s ++ encode t :=
  List.flatMap_append

theorem encode_of_decodeFrom {offset : Nat} {pending : Option Pending} {bytes read : Bytes}
    {t : Text} (hp : Starts pending read) (h : decodeFrom offset pending bytes = .ok t) :
    encode t = read ++ bytes := by
  fun_induction decodeFrom offset pending bytes generalizing read t with
  | case1 offset =>
    cases h
    rw [show read = [] from hp]
    rfl
  | case2 offset p => contradiction
  | case3 offset b bytes hb ih =>
    obtain ⟨t', ht, rfl⟩ := Except.map_eq_ok_iff.1 h
    rw [encode_cons, encodeChar_one hb, ih rfl ht, show read = [] from hp]
    rfl
  | case4 offset b bytes hb hl => contradiction
  | case5 offset b bytes hb q hl ih =>
    have hq : q.Starts [b] := by simpa using starts_of_lead? hl
    rw [ih hq h, show read = [] from hp]
    rfl
  | case6 offset b bytes q hb => contradiction
  | case7 offset b bytes q hb value hn =>
    rename_i ih
    obtain ⟨t', ht, rfl⟩ := Except.map_eq_ok_iff.1 h
    have hc : String.utf8EncodeChar _ = read ++ [b] :=
      Pending.Starts.last hp (by omega) (by omega) hn
    rw [encode_cons, hc, ih rfl ht, List.append_assoc]
    rfl
  | case8 offset b bytes q hb value hn =>
    rename_i ih
    have hq : Pending.Starts _ (read ++ [b]) :=
      Pending.Starts.next hp (by omega) (by omega) hn
    rw [ih hq h, List.append_assoc]
    rfl

/-- Bytes that are read as a text are its UTF-8 form. -/
theorem encode_of_decode {bytes : Bytes} {t : Text} (h : decode bytes = .ok t) :
    encode t = bytes := by
  have hp : Starts none [] := rfl
  exact encode_of_decodeFrom hp h

/-! ### Reading what was encoded -/

/-- Each character of several bytes has a first byte that announces it. -/
theorem exists_lead? (start : Nat) {v : Nat} (h₁ : 0x80 ≤ v) (h₂ : v.isValidChar) :
    ∃ b p, 0x80 ≤ b ∧ b < 0x100 ∧ lead? start b = some p ∧ 0x80 ≤ p.high ∧ p.least ≤ v ∧
      v < p.limit := by
  have hv : v < 0xD800 ∨ 0xDFFF < v ∧ v < 0x110000 := h₂
  obtain ⟨b, hb⟩ : ∃ b, b = if v < 0x800 then v / 64 + 0xC0
      else if v < 0x10000 then v / 4096 + 0xE0 else v / 262144 + 0xF0 := ⟨_, rfl⟩
  have hlead : ∃ p, lead? start b = some p ∧ 0x80 ≤ p.high ∧ p.least ≤ v ∧ v < p.limit := by
    unfold lead?
    split_ifs at hb ⊢ <;>
      simp only [Option.some.injEq, exists_eq_left', Pending.least, Pending.limit] <;> omega
  obtain ⟨p, hp⟩ := hlead
  refine ⟨b, p, ?_, ?_, hp⟩
  · split_ifs at hb <;> omega
  · split_ifs at hb <;> omega

/-- The next byte of a character that the pending one can become is within the bounds. -/
theorem Pending.Starts.exists_byte {read : Bytes} (hp : p.Starts read) (hhigh : 0x80 ≤ p.high)
    {v k : Nat} (hk : p.needed = k + 1) (hl : p.least ≤ v) (hh : v < p.limit) :
    ∃ b : UInt8, tailBytes p.needed v = b :: tailBytes k v ∧ p.low ≤ b.toNat ∧
      b.toNat ≤ p.high ∧ p.value * 64 + (b.toNat - 0x80) = v / 64 ^ k := by
  obtain ⟨-, hlow, hhigh', -⟩ := hp
  have hpow : 0 < 64 ^ k := Nat.pow_pos (by decide)
  rw [least, hk, Nat.add_sub_cancel, ← Nat.le_div_iff_mul_le hpow] at hl
  rw [limit, hk, Nat.add_sub_cancel, ← Nat.div_lt_iff_lt_mul hpow] at hh
  refine ⟨UInt8.ofNat (v / 64 ^ k % 64 + 0x80), by rw [hk, tailBytes], ?_⟩
  have hb : (UInt8.ofNat (v / 64 ^ k % 64 + 0x80)).toNat = v / 64 ^ k % 64 + 0x80 := by
    rw [UInt8.toNat_ofNat']
    omega
  rw [hb]
  omega

/-- The bytes that a pending character needs are read as this character. -/
theorem decodeFrom_tailBytes {read : Bytes} (hp : p.Starts read) (hhigh : 0x80 ≤ p.high) {v : Nat}
    (hl : p.least ≤ v) (hh : v < p.limit) (offset : Nat) (bytes : Bytes) :
    decodeFrom offset (some p) (tailBytes p.needed v ++ bytes) =
      (decodeFrom (offset + p.needed) none bytes).map (Char.ofNat v :: ·) := by
  obtain ⟨k, hk⟩ : ∃ k, p.needed = k + 1 := ⟨p.needed - 1, by have := hp.needed_pos; omega⟩
  induction k generalizing p read offset with
  | zero =>
    obtain ⟨b, htail, hb₁, hb₂, hvalue⟩ := hp.exists_byte hhigh hk hl hh
    rw [htail, List.cons_append, decodeFrom, if_neg (by omega)]
    simp only [hk, if_true, hvalue, Nat.pow_zero, Nat.div_one]
    rfl
  | succ k ih =>
    obtain ⟨b, htail, hb₁, hb₂, hvalue⟩ := hp.exists_byte hhigh hk hl hh
    have hnext := hp.next hb₁ hb₂ (by omega)
    have hneeded : p.needed - 1 = k + 1 := by omega
    rw [htail, List.cons_append, decodeFrom, if_neg (by omega)]
    dsimp only
    rw [if_neg (by omega)]
    rw [hneeded, hvalue] at hnext ⊢
    have hpow : 0 < 64 ^ k := Nat.pow_pos (by decide)
    have hdiv : v / 64 ^ (k + 1) = v / 64 ^ k / 64 := by
      rw [Nat.pow_succ, Nat.div_div_eq_div_mul]
    have hrest := ih hnext (by simp) ?_ ?_ (offset + 1) rfl
    · rw [hk, Nat.add_comm (k + 1) 1, ← Nat.add_assoc]
      exact hrest
    · rw [Pending.least]
      dsimp only
      rw [Nat.add_sub_cancel, ← Nat.le_div_iff_mul_le hpow]
      omega
    · rw [Pending.limit]
      dsimp only
      rw [Nat.add_sub_cancel, ← Nat.div_lt_iff_lt_mul hpow]
      omega

theorem decodeFrom_encodeChar (c : Char) (offset : Nat) (bytes : Bytes) :
    ∃ offset', decodeFrom offset none (String.utf8EncodeChar c ++ bytes) =
      (decodeFrom offset' none bytes).map (c :: ·) := by
  by_cases hc : c.toNat < 0x80
  · have hb : (UInt8.ofNat c.toNat).toNat = c.toNat := by
      rw [UInt8.toNat_ofNat']
      omega
    have hone := encodeChar_one (b := UInt8.ofNat c.toNat) (by omega)
    rw [hb, Char.ofNat_toNat] at hone
    refine ⟨offset + 1, ?_⟩
    rw [hone, List.singleton_append, decodeFrom, hb, if_pos hc, Char.ofNat_toNat]
  · obtain ⟨b, p, hb₁, hb₂, hlead, hhigh, hl, hh⟩ :=
      exists_lead? offset (Nat.le_of_not_lt hc) c.valid
    have hp := starts_of_lead? hlead
    have hencode := hp.encode_eq c.toNat hl hh
    rw [Char.ofNat_toNat] at hencode
    have hb : (UInt8.ofNat b).toNat = b := by
      rw [UInt8.toNat_ofNat']
      omega
    refine ⟨offset + 1 + p.needed, ?_⟩
    rw [hencode, List.append_assoc, List.singleton_append, decodeFrom, hb, if_neg (by omega), hlead]
    dsimp only
    rw [decodeFrom_tailBytes hp hhigh hl hh, Char.ofNat_toNat]

theorem decodeFrom_encode (t : Text) (offset : Nat) : decodeFrom offset none (encode t) = .ok t := by
  induction t generalizing offset with
  | nil => rfl
  | cons c t ih =>
    obtain ⟨offset', h⟩ := decodeFrom_encodeChar c offset (encode t)
    rw [encode_cons, h, ih]
    rfl

/-- The UTF-8 form of a text is read as the text. -/
theorem decode_encode (t : Text) : decode (encode t) = .ok t :=
  decodeFrom_encode t 0

end AssemblyInfo.Utf8
