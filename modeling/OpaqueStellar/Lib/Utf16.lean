import Mathlib.Data.Nat.Notation
import Mathlib.Tactic.Cases

/-! # UTF-16 with replacement

A text as code units, and the text that code units stand for: a unit that is half of no pair reads as
U+FFFD. Texts are read back from their units. -/

namespace OpaqueStellar.Lib.Utf16

/-- The first half of a pair. -/
def isHigh (u : UInt16) : Bool := decide (0xD800 ≤ u.toNat ∧ u.toNat ≤ 0xDBFF)

/-- The second half of a pair. -/
def isLow (u : UInt16) : Bool := decide (0xDC00 ≤ u.toNat ∧ u.toNat ≤ 0xDFFF)

def pair (high low : UInt16) : Char :=
  Char.ofNat (0x10000 + (high.toNat - 0xD800) * 0x400 + (low.toNat - 0xDC00))

def single (u : UInt16) : Char := if isHigh u || isLow u then '\ufffd' else Char.ofNat u.toNat

def encodeChar (c : Char) : List UInt16 :=
  if c.toNat < 0x10000 then [UInt16.ofNat c.toNat]
  else
    [UInt16.ofNat (0xD800 + (c.toNat - 0x10000) / 0x400),
      UInt16.ofNat (0xDC00 + (c.toNat - 0x10000) % 0x400)]

def encode (s : List Char) : List UInt16 := s.flatMap encodeChar

def decode : List UInt16 → List Char
  | [] => []
  | [u] => [single u]
  | u :: v :: rest =>
      if isHigh u && isLow v then pair u v :: decode rest else single u :: decode (v :: rest)

variable {c : Char} {u v : UInt16} {rest : List UInt16}

theorem decode_cons_of_not_high (h : isHigh u = false) : decode (u :: rest) = single u :: decode rest := by
  cases rest with
  | nil => rfl
  | cons v rest =>
      rw [decode, h, Bool.false_and]
      rfl

theorem decode_cons_cons_of_pair (hu : isHigh u = true) (hv : isLow v = true) :
    decode (u :: v :: rest) = pair u v :: decode rest := by
  rw [decode, hu, hv]
  rfl

theorem toNat_ofNat_of_lt {n : ℕ} (h : n < 0x10000) : (UInt16.ofNat n).toNat = n := by
  rw [UInt16.toNat_ofNat']
  exact Nat.mod_eq_of_lt h

/-- No character is half of a pair. -/
theorem not_surrogate (c : Char) : c.toNat < 0xD800 ∨ 0xDFFF < c.toNat ∧ c.toNat < 0x110000 := c.valid

theorem decode_encodeChar_append (c : Char) (rest : List UInt16) :
    decode (encodeChar c ++ rest) = c :: decode rest := by
  have hc := not_surrogate c
  unfold encodeChar
  split
  next hsmall =>
    have hunit := toNat_ofNat_of_lt hsmall
    have hhigh : isHigh (UInt16.ofNat c.toNat) = false := by
      rw [isHigh, hunit, decide_eq_false_iff_not]
      omega
    have hlow : isLow (UInt16.ofNat c.toNat) = false := by
      rw [isLow, hunit, decide_eq_false_iff_not]
      omega
    show decode (_ :: rest) = _
    rw [decode_cons_of_not_high hhigh, single, hhigh, hlow, hunit, Char.ofNat_toNat]
    rfl
  next hlarge =>
    have hlt : c.toNat - 0x10000 < 0x100000 := by omega
    have hfirst := @toNat_ofNat_of_lt (0xD800 + (c.toNat - 0x10000) / 0x400) (by omega)
    have hsecond := @toNat_ofNat_of_lt (0xDC00 + (c.toNat - 0x10000) % 0x400) (by omega)
    have hhigh : isHigh (UInt16.ofNat (0xD800 + (c.toNat - 0x10000) / 0x400)) = true := by
      rw [isHigh, hfirst, decide_eq_true_iff]
      omega
    have hlow : isLow (UInt16.ofNat (0xDC00 + (c.toNat - 0x10000) % 0x400)) = true := by
      rw [isLow, hsecond, decide_eq_true_iff]
      omega
    have hsum : 0x10000 + (0xD800 + (c.toNat - 0x10000) / 0x400 - 0xD800) * 0x400 +
        (0xDC00 + (c.toNat - 0x10000) % 0x400 - 0xDC00) = c.toNat := by omega
    show decode (_ :: _ :: rest) = _
    rw [decode_cons_cons_of_pair hhigh hlow, pair, hfirst, hsecond, hsum, Char.ofNat_toNat]

theorem toNat_ofNat {n : ℕ} (h : n < 0xD800 ∨ 0xDFFF < n ∧ n < 0x110000) : (Char.ofNat n).toNat = n := by
  have hvalid : n.isValidChar := h
  rw [Char.ofNat, dif_pos hvalid]
  rfl

/-- A pair is what its character is encoded as. -/
theorem encodeChar_pair (hu : isHigh u = true) (hv : isLow v = true) : encodeChar (pair u v) = [u, v] := by
  have hhigh := of_decide_eq_true hu
  have hlow := of_decide_eq_true hv
  have hcode : (pair u v).toNat = 0x10000 + (u.toNat - 0xD800) * 0x400 + (v.toNat - 0xDC00) :=
    toNat_ofNat (by omega)
  have hlarge : ¬ (pair u v).toNat < 0x10000 := by omega
  have hfirst : 0xD800 + ((pair u v).toNat - 0x10000) / 0x400 = u.toNat := by omega
  have hsecond : 0xDC00 + ((pair u v).toNat - 0x10000) % 0x400 = v.toNat := by omega
  rw [encodeChar, if_neg hlarge, hfirst, hsecond, UInt16.ofNat_toNat, UInt16.ofNat_toNat]

/-- A unit that is half of no pair is the encoding of its character. -/
theorem encodeChar_ofNat (hhigh : isHigh u = false) (hlow : isLow u = false) :
    encodeChar (Char.ofNat u.toNat) = [u] := by
  have hu := u.toNat_lt
  have hnot := of_decide_eq_false hhigh
  have hnot' := of_decide_eq_false hlow
  have hcode : (Char.ofNat u.toNat).toNat = u.toNat := toNat_ofNat (by omega)
  have hsmall : u.toNat < 0x10000 := hu
  rw [encodeChar, hcode, if_pos hsmall, UInt16.ofNat_toNat]

/-- **Texts are read back from their units.** -/
theorem decode_encode (s : List Char) : decode (encode s) = s := by
  induction s with
  | nil => rfl
  | cons c s ih =>
      show decode (encodeChar c ++ encode s) = c :: s
      rw [decode_encodeChar_append, ih]

/-- The units of a text. -/
def WellFormed (units : List UInt16) : Prop := ∃ s, encode s = units

/-- Well-formed units are told apart by their texts. -/
theorem WellFormed.eq_of_decode_eq {units units' : List UInt16} (h : WellFormed units)
    (h' : WellFormed units') (heq : decode units = decode units') : units = units' := by
  obtain ⟨s, rfl⟩ := h
  obtain ⟨s', rfl⟩ := h'
  rw [decode_encode, decode_encode] at heq
  rw [heq]

end OpaqueStellar.Lib.Utf16
