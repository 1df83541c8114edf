import OpaqueStellar.Lib.Utf8
import OpaqueStellar.Schemas.Core

/-! # Texts and their bytes

`from_utf8` reads the bytes of texts, and nothing else. -/

namespace OpaqueStellar.Schemas

open OpaqueStellar.Lib

section FromUtf8

variable {b₀ b₁ b₂ b₃ : UInt8} {rest : List UInt8} {c : Char} {n : ℕ} {s : Str}

theorem isContinuation_iff : isContinuation b₀ = true ↔ 0x80 ≤ b₀.toNat ∧ b₀.toNat ≤ 0xBF := by
  rw [isContinuation, Bool.and_eq_true, decide_eq_true_eq, decide_eq_true_eq, UInt8.le_iff_toNat_le,
    UInt8.le_iff_toNat_le]
  rfl

theorem toNat_ofNat_of_lt (h : n < 256) : (UInt8.ofNat n).toNat = n := by
  rw [UInt8.toNat_ofNat']
  exact Nat.mod_eq_of_lt h

theorem not_ascii_iff : ¬ b₀ < 0x80 ↔ 0x80 ≤ b₀.toNat := by
  rw [UInt8.not_lt, UInt8.le_iff_toNat_le]
  rfl

/-! ### Characters of each length -/

/-- The bytes begin a character of two. -/
def IsTwo (b₀ b₁ : UInt8) : Prop := 0xC2 ≤ b₀ ∧ b₀ ≤ 0xDF ∧ isContinuation b₁

def IsThree (b₀ b₁ b₂ : UInt8) : Prop :=
  0xE0 ≤ b₀ ∧ b₀ ≤ 0xEF ∧ isContinuation b₁ ∧ isContinuation b₂ ∧ (b₀ = 0xE0 → 0xA0 ≤ b₁) ∧
    (b₀ = 0xED → b₁ ≤ 0x9F)

def IsFour (b₀ b₁ b₂ b₃ : UInt8) : Prop :=
  0xF0 ≤ b₀ ∧ b₀ ≤ 0xF4 ∧ isContinuation b₁ ∧ isContinuation b₂ ∧ isContinuation b₃ ∧
    (b₀ = 0xF0 → 0x90 ≤ b₁) ∧ (b₀ = 0xF4 → b₁ ≤ 0x8F)

theorem isTwo_iff : IsTwo b₀ b₁ ↔ 0xC2 ≤ b₀.toNat ∧ b₀.toNat ≤ 0xDF ∧ 0x80 ≤ b₁.toNat ∧ b₁.toNat ≤ 0xBF := by
  rw [IsTwo, isContinuation_iff, UInt8.le_iff_toNat_le, UInt8.le_iff_toNat_le]
  rfl

theorem isThree_iff : IsThree b₀ b₁ b₂ ↔ 0xE0 ≤ b₀.toNat ∧ b₀.toNat ≤ 0xEF ∧
    (0x80 ≤ b₁.toNat ∧ b₁.toNat ≤ 0xBF) ∧ (0x80 ≤ b₂.toNat ∧ b₂.toNat ≤ 0xBF) ∧
      (b₀.toNat = 0xE0 → 0xA0 ≤ b₁.toNat) ∧ (b₀.toNat = 0xED → b₁.toNat ≤ 0x9F) := by
  simp only [IsThree, isContinuation_iff, UInt8.le_iff_toNat_le, ← UInt8.toNat_inj]
  rfl

theorem isFour_iff : IsFour b₀ b₁ b₂ b₃ ↔ 0xF0 ≤ b₀.toNat ∧ b₀.toNat ≤ 0xF4 ∧
    (0x80 ≤ b₁.toNat ∧ b₁.toNat ≤ 0xBF) ∧ (0x80 ≤ b₂.toNat ∧ b₂.toNat ≤ 0xBF) ∧
      (0x80 ≤ b₃.toNat ∧ b₃.toNat ≤ 0xBF) ∧ (b₀.toNat = 0xF0 → 0x90 ≤ b₁.toNat) ∧
        (b₀.toNat = 0xF4 → b₁.toNat ≤ 0x8F) := by
  simp only [IsFour, isContinuation_iff, UInt8.le_iff_toNat_le, ← UInt8.toNat_inj]
  rfl

theorem fromUtf8_one (h : b₀ < 0x80) :
    fromUtf8 (b₀ :: rest) = (fromUtf8 rest).map (Char.ofNat b₀.toNat :: ·) := by
  rw [fromUtf8.eq_def]
  exact if_pos h

theorem fromUtf8_two (h : IsTwo b₀ b₁) : fromUtf8 (b₀ :: b₁ :: rest) =
    (fromUtf8 rest).map (Char.ofNat (b₀.toNat % 32 * 64 + lowBits b₁) :: ·) := by
  have hlarge : ¬ b₀ < 0x80 := by
    have := isTwo_iff.mp h
    rw [not_ascii_iff]
    omega
  rw [fromUtf8.eq_def]
  simp only [hlarge, if_false]
  exact if_pos h

theorem fromUtf8_three (h : IsThree b₀ b₁ b₂) : fromUtf8 (b₀ :: b₁ :: b₂ :: rest) =
    (fromUtf8 rest).map (Char.ofNat ((b₀.toNat % 16 * 64 + lowBits b₁) * 64 + lowBits b₂) :: ·) := by
  have hnat := isThree_iff.mp h
  have hlarge : ¬ b₀ < 0x80 := by
    rw [not_ascii_iff]
    omega
  have htwo : ¬ (0xC2 ≤ b₀ ∧ b₀ ≤ 0xDF ∧ isContinuation b₁) := by
    intro htwo
    have := isTwo_iff.mp htwo
    omega
  rw [fromUtf8.eq_def]
  simp only [hlarge, htwo, if_false]
  exact if_pos h

theorem fromUtf8_four (h : IsFour b₀ b₁ b₂ b₃) : fromUtf8 (b₀ :: b₁ :: b₂ :: b₃ :: rest) =
    (fromUtf8 rest).map (Char.ofNat (((b₀.toNat % 8 * 64 + lowBits b₁) * 64 + lowBits b₂) * 64 +
      lowBits b₃) :: ·) := by
  have hnat := isFour_iff.mp h
  have hlarge : ¬ b₀ < 0x80 := by
    rw [not_ascii_iff]
    omega
  have htwo : ¬ (0xC2 ≤ b₀ ∧ b₀ ≤ 0xDF ∧ isContinuation b₁) := by
    intro htwo
    have := isTwo_iff.mp htwo
    omega
  have hthree : ¬ (0xE0 ≤ b₀ ∧ b₀ ≤ 0xEF ∧ isContinuation b₁ ∧ isContinuation b₂ ∧
      (b₀ = 0xE0 → 0xA0 ≤ b₁) ∧ (b₀ = 0xED → b₁ ≤ 0x9F)) := by
    intro hthree
    have := isThree_iff.mp hthree
    omega
  rw [fromUtf8.eq_def]
  simp only [hlarge, htwo, hthree, if_false]
  exact if_pos h

/-- `from_utf8` reads a character from its bytes. -/
theorem fromUtf8_utf8EncodeChar (c : Char) (rest : List UInt8) :
    fromUtf8 (String.utf8EncodeChar c ++ rest) = (fromUtf8 rest).map (c :: ·) := by
  have hvalid : c.toNat < 0xD800 ∨ 0xDFFF < c.toNat ∧ c.toNat < 0x110000 := c.valid
  have hc : ∀ n, n = c.toNat → Char.ofNat n = c := by
    rintro n rfl
    exact Char.ofNat_toNat c
  by_cases hone : c.toNat ≤ 0x7F
  · have hbyte : (UInt8.ofNat c.toNat).toNat = c.toNat := toNat_ofNat_of_lt (by omega)
    have hascii : UInt8.ofNat c.toNat < 0x80 := by
      rw [UInt8.lt_iff_toNat_lt, hbyte]
      exact Nat.lt_succ_of_le hone
    rw [utf8EncodeChar_one hone, List.singleton_append, fromUtf8_one hascii, hc _ hbyte]
  · by_cases htwo : c.toNat ≤ 0x7FF
    · have h₀ : (UInt8.ofNat (c.toNat / 64 % 32 + 0xC0)).toNat = c.toNat / 64 % 32 + 0xC0 :=
        toNat_ofNat_of_lt (by omega)
      have h₁ : (UInt8.ofNat (c.toNat % 64 + 0x80)).toNat = c.toNat % 64 + 0x80 :=
        toNat_ofNat_of_lt (by omega)
      rw [utf8EncodeChar_two (Nat.lt_of_not_le hone) htwo]
      show fromUtf8 (_ :: _ :: rest) = _
      rw [fromUtf8_two (isTwo_iff.mpr (by omega)), hc]
      rw [lowBits, h₀, h₁]
      omega
    · by_cases hthree : c.toNat ≤ 0xFFFF
      · have h₀ : (UInt8.ofNat (c.toNat / 4096 % 16 + 0xE0)).toNat = c.toNat / 4096 % 16 + 0xE0 :=
          toNat_ofNat_of_lt (by omega)
        have h₁ : (UInt8.ofNat (c.toNat / 64 % 64 + 0x80)).toNat = c.toNat / 64 % 64 + 0x80 :=
          toNat_ofNat_of_lt (by omega)
        have h₂ : (UInt8.ofNat (c.toNat % 64 + 0x80)).toNat = c.toNat % 64 + 0x80 :=
          toNat_ofNat_of_lt (by omega)
        rw [utf8EncodeChar_three (Nat.lt_of_not_le htwo) hthree]
        show fromUtf8 (_ :: _ :: _ :: rest) = _
        rw [fromUtf8_three (isThree_iff.mpr (by omega)), hc]
        rw [lowBits, lowBits, h₀, h₁, h₂]
        omega
      · have h₀ : (UInt8.ofNat (c.toNat / 262144 % 8 + 0xF0)).toNat = c.toNat / 262144 % 8 + 0xF0 :=
          toNat_ofNat_of_lt (by omega)
        have h₁ : (UInt8.ofNat (c.toNat / 4096 % 64 + 0x80)).toNat = c.toNat / 4096 % 64 + 0x80 :=
          toNat_ofNat_of_lt (by omega)
        have h₂ : (UInt8.ofNat (c.toNat / 64 % 64 + 0x80)).toNat = c.toNat / 64 % 64 + 0x80 :=
          toNat_ofNat_of_lt (by omega)
        have h₃ : (UInt8.ofNat (c.toNat % 64 + 0x80)).toNat = c.toNat % 64 + 0x80 :=
          toNat_ofNat_of_lt (by omega)
        rw [utf8EncodeChar_four (Nat.lt_of_not_le hthree)]
        show fromUtf8 (_ :: _ :: _ :: _ :: rest) = _
        rw [fromUtf8_four (isFour_iff.mpr (by omega)), hc]
        rw [lowBits, lowBits, lowBits, h₀, h₁, h₂, h₃]
        omega

theorem fromUtf8_asBytes (s : Str) : fromUtf8 (asBytes s) = some s := by
  induction s with
  | nil => rfl
  | cons c s ih =>
    rw [asBytes, List.flatMap_cons, fromUtf8_utf8EncodeChar]
    rw [asBytes] at ih
    rw [ih]
    rfl

theorem asBytes_injective : Function.Injective asBytes := by
  intro s t h
  have hs := fromUtf8_asBytes s
  rw [h, fromUtf8_asBytes t] at hs
  exact (Option.some.inj hs).symm

/-! ### Nothing else -/

theorem toNat_ofNat_char (h : n < 0xD800 ∨ 0xDFFF < n ∧ n < 0x110000) : (Char.ofNat n).toNat = n := by
  unfold Char.ofNat
  rw [dif_pos h]
  rfl

theorem ofNat_eq_of_toNat {b : UInt8} (h : n = b.toNat) : UInt8.ofNat n = b := by
  rw [h]
  exact UInt8.ofNat_toNat

theorem utf8EncodeChar_of_isTwo (h : IsTwo b₀ b₁) :
    String.utf8EncodeChar (Char.ofNat (b₀.toNat % 32 * 64 + lowBits b₁)) = [b₀, b₁] := by
  have hnat := isTwo_iff.mp h
  have hc := toNat_ofNat_char (n := b₀.toNat % 32 * 64 + lowBits b₁) (by rw [lowBits]; omega)
  rw [lowBits] at hc ⊢
  rw [utf8EncodeChar_two (by omega) (by omega), hc, ofNat_eq_of_toNat (b := b₀) (by omega),
    ofNat_eq_of_toNat (b := b₁) (by omega)]

theorem utf8EncodeChar_of_isThree (h : IsThree b₀ b₁ b₂) : String.utf8EncodeChar
    (Char.ofNat ((b₀.toNat % 16 * 64 + lowBits b₁) * 64 + lowBits b₂)) = [b₀, b₁, b₂] := by
  have hnat := isThree_iff.mp h
  have hc := toNat_ofNat_char (n := (b₀.toNat % 16 * 64 + lowBits b₁) * 64 + lowBits b₂)
    (by rw [lowBits, lowBits]; omega)
  rw [lowBits, lowBits] at hc ⊢
  rw [utf8EncodeChar_three (by omega) (by omega), hc, ofNat_eq_of_toNat (b := b₀) (by omega),
    ofNat_eq_of_toNat (b := b₁) (by omega), ofNat_eq_of_toNat (b := b₂) (by omega)]

theorem utf8EncodeChar_of_isFour (h : IsFour b₀ b₁ b₂ b₃) : String.utf8EncodeChar
    (Char.ofNat (((b₀.toNat % 8 * 64 + lowBits b₁) * 64 + lowBits b₂) * 64 + lowBits b₃)) =
      [b₀, b₁, b₂, b₃] := by
  have hnat := isFour_iff.mp h
  have hc := toNat_ofNat_char (n := ((b₀.toNat % 8 * 64 + lowBits b₁) * 64 + lowBits b₂) * 64 + lowBits b₃)
    (by rw [lowBits, lowBits, lowBits]; omega)
  rw [lowBits, lowBits, lowBits] at hc ⊢
  rw [utf8EncodeChar_four (by omega), hc, ofNat_eq_of_toNat (b := b₀) (by omega),
    ofNat_eq_of_toNat (b := b₁) (by omega), ofNat_eq_of_toNat (b := b₂) (by omega),
    ofNat_eq_of_toNat (b := b₃) (by omega)]

theorem asBytes_of_map {bytes : List UInt8} (hc : String.utf8EncodeChar c = bytes)
    (ih : ∀ s, fromUtf8 rest = some s → asBytes s = rest)
    (h : (fromUtf8 rest).map (c :: ·) = some s) : asBytes s = bytes ++ rest := by
  obtain ⟨t, ht, rfl⟩ := Option.map_eq_some_iff.mp h
  rw [asBytes, List.flatMap_cons, hc]
  exact congrArg (bytes ++ ·) (ih t ht)

/-- **`from_utf8` reads the bytes of texts only.** -/
theorem asBytes_of_fromUtf8 {bytes : List UInt8} (h : fromUtf8 bytes = some s) : asBytes s = bytes := by
  induction bytes using fromUtf8.induct generalizing s with
  | case1 =>
    obtain rfl := Option.some.inj h
    rfl
  | case2 b rest hascii ih =>
    have hle : b.toNat < 0x80 := hascii
    have hc : (Char.ofNat b.toNat).toNat = b.toNat := toNat_ofNat_char (by omega)
    rw [fromUtf8_one hascii] at h
    have hone : String.utf8EncodeChar (Char.ofNat b.toNat) = [b] := by
      rw [utf8EncodeChar_one (by omega), hc, UInt8.ofNat_toNat]
    exact asBytes_of_map hone (fun s => ih) h
  | case3 b hlarge =>
    rw [fromUtf8.eq_def] at h
    simp [hlarge] at h
  | case4 b hlarge b₁ rest htwo ih =>
    rw [fromUtf8_two htwo] at h
    exact asBytes_of_map (utf8EncodeChar_of_isTwo htwo) (fun s => ih) h
  | case5 b hlarge b₁ htwo =>
    rw [fromUtf8.eq_def] at h
    simp [hlarge, htwo] at h
  | case6 b hlarge b₁ htwo b₂ rest hthree ih =>
    rw [fromUtf8_three hthree] at h
    exact asBytes_of_map (utf8EncodeChar_of_isThree hthree) (fun s => ih) h
  | case7 b hlarge b₁ htwo b₂ hthree =>
    rw [fromUtf8.eq_def] at h
    simp only [hlarge, htwo, hthree, if_false] at h
    cases h
  | case8 b hlarge b₁ htwo b₂ hthree b₃ rest hfour ih =>
    rw [fromUtf8_four hfour] at h
    exact asBytes_of_map (utf8EncodeChar_of_isFour hfour) (fun s => ih) h
  | case9 b hlarge b₁ htwo b₂ hthree b₃ rest hfour =>
    rw [fromUtf8.eq_def] at h
    simp only [hlarge, htwo, hthree, hfour, if_false] at h
    cases h

end FromUtf8

end OpaqueStellar.Schemas
