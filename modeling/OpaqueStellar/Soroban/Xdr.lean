import OpaqueStellar.Lib.Fields
import OpaqueStellar.Soroban.Basic

/-! # Addresses and amounts as bytes

What is hashed is put together from addresses in XDR, amounts as sixteen bytes and numbers of a fixed
width. Each of these says where it ends, and determines what it encodes. -/

namespace OpaqueStellar.Soroban

open OpaqueStellar.Lib

/-- Bytes of a fixed number. -/
theorem framed_bytesN (n : ℕ) : Framed (fun b : BytesN n => b.1) :=
  framed_of_length n (fun b => b.2) Subtype.val_injective

namespace I128

theorem length_toBeBytes (a : I128) : a.toBeBytes.length = 16 := length_beBytes 16 _

theorem asU128_lt (a : I128) : a.asU128 < 256 ^ 16 := by
  have h := Int.emod_lt_of_pos a.val (by norm_num : (0 : ℤ) < 2 ^ 128)
  rw [asU128, Int.toNat_lt (Int.emod_nonneg _ (by norm_num))]
  exact h

/-- The two's complement determines the amount. -/
theorem asU128_injective : Function.Injective asU128 := by
  intro a b h
  apply ext
  have hal := a.lower
  have hau := a.upper
  have hbl := b.lower
  have hbu := b.upper
  unfold asU128 at h
  omega

theorem framed_toBeBytes : Framed toBeBytes := by
  apply framed_of_length 16 length_toBeBytes
  intro a b h
  exact asU128_injective (beBytes_inj a.asU128_lt b.asU128_lt h)

end I128

/-! ## Big integers -/

/-- The loop that writes a big integer from its last byte to its first: `n & 0xff`, then
`n >>= 8`. -/
def bigintBytes : ℕ → ℤ → List UInt8
  | 0, _ => []
  | len + 1, n => bigintBytes len (n >>> (8 : ℕ)) ++ [UInt8.ofNat (n % 256).toNat]

theorem length_bigintBytes (len : ℕ) (n : ℤ) : (bigintBytes len n).length = len := by
  induction len generalizing n with
  | zero => rfl
  | succ len ih => rw [bigintBytes, List.length_append, ih, List.length_singleton]

/-- The loop keeps the number modulo what the bytes can hold, whatever its sign. -/
theorem beNat_bigintBytes (len : ℕ) (n : ℤ) : (beNat (bigintBytes len n) : ℤ) = n % 256 ^ len := by
  induction len generalizing n with
  | zero => simp [bigintBytes, beNat]
  | succ len ih =>
      have hlow := Int.emod_nonneg n (by decide : (256 : ℤ) ≠ 0)
      have hlast : (beNat [UInt8.ofNat (n % 256).toNat] : ℤ) = n % 256 := by
        simp [beNat]
        omega
      have hdiv : n / 256 / 256 ^ len = n / (256 ^ len * 256) := by
        rw [Int.ediv_ediv_of_nonneg (by norm_num), mul_comm]
      rw [bigintBytes, beNat_append, List.length_singleton, pow_one, Nat.cast_add, Nat.cast_mul, ih,
        hlast, Int.shiftRight_eq_div_pow, pow_succ (256 : ℤ)]
      show n / 256 % 256 ^ len * 256 + n % 256 = _
      rw [Int.emod_def (n / 256), Int.emod_def n 256, Int.emod_def n (256 ^ len * 256), hdiv]
      ring

theorem bigintBytes_eq (len : ℕ) (n : ℤ) :
    bigintBytes len n = beBytes len (n % 256 ^ len).toNat := by
  have hpow : (0 : ℤ) < 256 ^ len := by positivity
  have hlow := Int.emod_nonneg n hpow.ne'
  have hhigh := Int.emod_lt_of_pos n hpow
  apply beNat_inj
  · rw [length_bigintBytes, length_beBytes]
  · rw [beNat_beBytes, Nat.mod_eq_of_lt]
    · have hloop := beNat_bigintBytes len n
      omega
    · rw [Int.toNat_lt hlow]
      exact_mod_cast hhigh

theorem bigintBytes_natCast (len n : ℕ) : bigintBytes len n = beBytes len n := by
  apply beNat_inj
  · rw [length_bigintBytes, length_beBytes]
  · have hloop := beNat_bigintBytes len n
    rw [beNat_beBytes]
    exact_mod_cast hloop

/-- An amount is written as the contracts write it. -/
theorem bigintBytes_val (a : I128) : bigintBytes 16 a.val = a.toBeBytes := bigintBytes_eq 16 a.val

/-! ## Addresses -/

namespace Address

/-- The tag, the kind of address and, for an account, the kind of key. -/
def header : Address → List UInt8
  | .account _ => beBytes 4 18 ++ beBytes 4 0 ++ beBytes 4 0
  | .contract _ => beBytes 4 18 ++ beBytes 4 1

def body : Address → BytesN 32
  | .account key => key
  | .contract id => id

theorem toXdr_eq (a : Address) : a.toXdr = a.header ++ a.body.1 := by
  cases a with
  | account key => rfl
  | contract id => rfl

theorem header_append_inj {a b : Address} {u w : List UInt8}
    (h : a.header ++ u = b.header ++ w) : a.header = b.header ∧ u = w := by
  have hkinds : beBytes 4 18 ++ beBytes 4 0 ≠ beBytes 4 18 ++ beBytes 4 1 := by decide
  cases a with
  | account key =>
      cases b with
      | account key' => exact ⟨rfl, List.append_cancel_left h⟩
      | contract id =>
          rw [header, header, List.append_assoc (_ ++ _)] at h
          exact absurd (List.append_inj h rfl).1 hkinds
  | contract id =>
      cases b with
      | account key' =>
          rw [header, header, List.append_assoc (_ ++ _)] at h
          exact absurd (List.append_inj h rfl).1.symm hkinds
      | contract id' => exact ⟨rfl, List.append_cancel_left h⟩

/-- The encoding of an address ends where it ends, and stands for that address. -/
theorem framed_toXdr : Framed toXdr := by
  intro a b u w h
  rw [toXdr_eq, toXdr_eq, List.append_assoc, List.append_assoc] at h
  obtain ⟨hheader, hrest⟩ := header_append_inj h
  obtain ⟨hbody, hrest⟩ := List.append_inj hrest (a.body.2.trans b.body.2.symm)
  refine ⟨?_, hrest⟩
  cases a with
  | account key =>
      cases b with
      | account key' => exact congrArg account (Subtype.ext hbody)
      | contract id => exact absurd (congrArg List.length hheader) (by simp [header])
  | contract id =>
      cases b with
      | account key' => exact absurd (congrArg List.length hheader) (by simp [header])
      | contract id' => exact congrArg contract (Subtype.ext hbody)

end Address

end OpaqueStellar.Soroban
