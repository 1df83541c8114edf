import Mathlib.Data.Nat.Digits.Lemmas
import OpaqueStellar.Lib.Bytes

/-! # Text encodings of bytes and numbers

Hexadecimal and base64 texts of byte strings and decimal texts of numbers, each with its reader and
the round trip. The hexadecimal reader takes digits of either case, as most readers do. -/

namespace OpaqueStellar.Lib

/-! ## Hexadecimal -/

namespace Hex

/-- The value of a hexadecimal digit of either case. -/
def digitValue (c : Char) : Option ℕ :=
  if '0' ≤ c ∧ c ≤ '9' then some (c.toNat - 48)
  else if 'a' ≤ c ∧ c ≤ 'f' then some (c.toNat - 87)
  else if 'A' ≤ c ∧ c ≤ 'F' then some (c.toNat - 55)
  else none

def digit (n : ℕ) : Char := if n < 10 then Char.ofNat (48 + n) else Char.ofNat (87 + n)

def decode : List Char → Option (List UInt8)
  | [] => some []
  | [_] => none
  | a :: b :: rest => do
      let high ← digitValue a
      let low ← digitValue b
      let bytes ← decode rest
      return UInt8.ofNat (16 * high + low) :: bytes

def encode (bytes : List UInt8) : List Char :=
  bytes.flatMap fun b => [digit (b.toNat / 16), digit (b.toNat % 16)]

theorem digitValue_digit {n : ℕ} (h : n < 16) : digitValue (digit n) = some n := by
  interval_cases n <;> decide

theorem length_encode (bytes : List UInt8) : (encode bytes).length = 2 * bytes.length := by
  rw [encode, List.length_flatMap]
  simp [Nat.mul_comm]

/-- What is written are digits, in lower case. -/
theorem mem_encode {bytes : List UInt8} {c : Char} (h : c ∈ encode bytes) : ∃ n < 16, c = digit n := by
  obtain ⟨b, -, hc⟩ := List.mem_flatMap.mp h
  have hb := b.toNat_lt
  simp only [List.mem_cons, List.not_mem_nil, or_false] at hc
  rcases hc with rfl | rfl
  · exact ⟨b.toNat / 16, by omega, rfl⟩
  · exact ⟨b.toNat % 16, by omega, rfl⟩

theorem toLower_digit {n : ℕ} (h : n < 16) : (digit n).toLower = digit n := by
  interval_cases n <;> decide

theorem decode_encode (bytes : List UInt8) : decode (encode bytes) = some bytes := by
  induction bytes with
  | nil => rfl
  | cons b bytes ih =>
      have hb := b.toNat_lt
      have hhigh : digitValue (digit (b.toNat / 16)) = some (b.toNat / 16) :=
        digitValue_digit (by omega)
      have hlow : digitValue (digit (b.toNat % 16)) = some (b.toNat % 16) :=
        digitValue_digit (by omega)
      have hbyte : UInt8.ofNat (16 * (b.toNat / 16) + b.toNat % 16) = b := by
        rw [Nat.div_add_mod]
        exact UInt8.ofNat_toNat
      show decode (_ :: _ :: encode bytes) = _
      rw [decode, hhigh, hlow, ih]
      show some (UInt8.ofNat (16 * (b.toNat / 16) + b.toNat % 16) :: bytes) = _
      rw [hbyte]

theorem decode_cons_eq_some {a b : Char} {rest : List Char} {bytes : List UInt8} :
    decode (a :: b :: rest) = some bytes ↔ ∃ high low more, digitValue a = some high ∧ digitValue b = some low ∧
      decode rest = some more ∧ bytes = UInt8.ofNat (16 * high + low) :: more := by
  constructor
  · intro h
    obtain ⟨high, hhigh, h⟩ := Option.bind_eq_some_iff.mp h
    obtain ⟨low, hlow, h⟩ := Option.bind_eq_some_iff.mp h
    obtain ⟨more, hmore, h⟩ := Option.bind_eq_some_iff.mp h
    exact ⟨high, low, more, hhigh, hlow, hmore, (Option.some.inj h).symm⟩
  · rintro ⟨high, low, more, hhigh, hlow, hmore, rfl⟩
    rw [decode, hhigh, hlow, hmore]
    rfl

theorem length_of_decode {s : List Char} {bytes : List UInt8} (h : decode s = some bytes) :
    s.length = 2 * bytes.length := by
  induction s using decode.induct generalizing bytes with
  | case1 =>
      obtain rfl := Option.some.inj h
      rfl
  | case2 => cases h
  | case3 a b rest ih =>
      obtain ⟨high, low, more, -, -, hmore, rfl⟩ := decode_cons_eq_some.mp h
      rw [List.length_cons, List.length_cons, List.length_cons, ih hmore]
      omega

/-- Only digits are read. -/
theorem isSome_of_decode {s : List Char} {bytes : List UInt8} (h : decode s = some bytes) :
    ∀ c ∈ s, (digitValue c).isSome := by
  induction s using decode.induct generalizing bytes with
  | case1 => simp
  | case2 => cases h
  | case3 a b rest ih =>
      obtain ⟨high, low, more, hhigh, hlow, hmore, -⟩ := decode_cons_eq_some.mp h
      rw [List.forall_mem_cons, List.forall_mem_cons, hhigh, hlow]
      exact ⟨rfl, rfl, ih hmore⟩

/-- Digits in pairs are bytes. -/
theorem exists_decode {s : List Char} {n : ℕ} (hlength : s.length = 2 * n)
    (h : ∀ c ∈ s, (digitValue c).isSome = true) : ∃ bytes, decode s = some bytes := by
  induction s using decode.induct generalizing n with
  | case1 => exact ⟨[], rfl⟩
  | case2 a =>
      rw [List.length_singleton] at hlength
      omega
  | case3 a b rest ih =>
      rw [List.forall_mem_cons, List.forall_mem_cons] at h
      obtain ⟨high, hhigh⟩ := Option.isSome_iff_exists.mp h.1
      obtain ⟨low, hlow⟩ := Option.isSome_iff_exists.mp h.2.1
      have hrest : rest.length = 2 * (n - 1) := by
        rw [List.length_cons, List.length_cons] at hlength
        omega
      obtain ⟨more, hmore⟩ := ih hrest h.2.2
      exact ⟨_, decode_cons_eq_some.mpr ⟨high, low, more, hhigh, hlow, hmore, rfl⟩⟩

/-- Only letters in upper case are put in lower case. -/
theorem toLower_cases (c : Char) : c.toLower = c ∨ ∃ n < 26, c = Char.ofNat (65 + n) := by
  by_cases hupper : 'A' ≤ c ∧ c ≤ 'Z'
  · refine .inr ⟨c.toNat - 65, ?_, ?_⟩
    · have := hupper.2
      have hz : c.toNat ≤ 90 := this
      omega
    · have ha : 65 ≤ c.toNat := hupper.1
      rw [Nat.add_sub_cancel' ha]
      exact (Char.ofNat_toNat c).symm
  · refine .inl ?_
    unfold Char.toLower
    exact dif_neg hupper

theorem toLower_toLower (c : Char) : c.toLower.toLower = c.toLower := by
  rcases toLower_cases c with hsame | ⟨n, hn, rfl⟩
  · rw [hsame, hsame]
  · interval_cases n <;> decide

theorem digitValue_toLower (c : Char) : digitValue c.toLower = digitValue c := by
  rcases toLower_cases c with hsame | ⟨n, hn, rfl⟩
  · rw [hsame]
  · interval_cases n <;> decide

/-- A text in lower case stands for the same bytes. -/
theorem decode_toLower (s : List Char) : decode (s.map Char.toLower) = decode s := by
  induction s using decode.induct with
  | case1 => rfl
  | case2 => rfl
  | case3 a b rest ih =>
      show decode (a.toLower :: b.toLower :: rest.map Char.toLower) = _
      rw [decode, decode, digitValue_toLower, digitValue_toLower, ih]

theorem toLower_of_digitValue {c : Char} {n : ℕ} (h : digitValue c = some n) :
    n < 16 ∧ c.toLower = digit n := by
  -- each digit in its range
  have hrange : ∀ low high offset : ℕ, (∀ k ∈ List.range (high + 1 - low), low + k - offset < 16 ∧
      (Char.ofNat (low + k)).toLower = digit (low + k - offset)) → low ≤ c.toNat → c.toNat ≤ high →
      n = c.toNat - offset → n < 16 ∧ c.toLower = digit n := by
    intro low high offset hall hlow hhigh hn
    have hk := hall (c.toNat - low) (List.mem_range.mpr (by omega))
    rw [Nat.add_sub_cancel' hlow, Char.ofNat_toNat] at hk
    rw [hn]
    exact hk
  unfold digitValue at h
  split_ifs at h with h0 ha hA
  · exact hrange 48 57 48 (by decide) h0.1 h0.2 (Option.some.inj h).symm
  · exact hrange 97 102 87 (by decide) ha.1 ha.2 (Option.some.inj h).symm
  · exact hrange 65 70 55 (by decide) hA.1 hA.2 (Option.some.inj h).symm

/-- In lower case, what is read is what would be written. -/
theorem toLower_of_decode {s : List Char} {bytes : List UInt8} (h : decode s = some bytes) :
    s.map Char.toLower = encode bytes := by
  induction s using decode.induct generalizing bytes with
  | case1 =>
      obtain rfl := Option.some.inj h
      rfl
  | case2 => cases h
  | case3 a b rest ih =>
      obtain ⟨high, low, more, hhigh, hlow, hmore, rfl⟩ := decode_cons_eq_some.mp h
      obtain ⟨hhigh, ha⟩ := toLower_of_digitValue hhigh
      obtain ⟨hlow, hb⟩ := toLower_of_digitValue hlow
      have hbyte : (UInt8.ofNat (16 * high + low)).toNat = 16 * high + low := by
        rw [UInt8.toNat_ofNat']
        exact Nat.mod_eq_of_lt (by omega)
      have hdiv : (16 * high + low) / 16 = high := by omega
      have hmod : (16 * high + low) % 16 = low := by omega
      show a.toLower :: b.toLower :: rest.map Char.toLower =
        digit ((UInt8.ofNat (16 * high + low)).toNat / 16) ::
          digit ((UInt8.ofNat (16 * high + low)).toNat % 16) :: encode more
      rw [hbyte, hdiv, hmod, ha, hb, ih hmore]

end Hex

/-! ## Base64 -/

namespace Base64

def digitValue (c : Char) : Option ℕ :=
  if 'A' ≤ c ∧ c ≤ 'Z' then some (c.toNat - 65)
  else if 'a' ≤ c ∧ c ≤ 'z' then some (c.toNat - 71)
  else if '0' ≤ c ∧ c ≤ '9' then some (c.toNat + 4)
  else if c = '+' then some 62
  else if c = '/' then some 63
  else none

def digit (n : ℕ) : Char :=
  if n < 26 then Char.ofNat (65 + n)
  else if n < 52 then Char.ofNat (71 + n)
  else if n < 62 then Char.ofNat (n - 4)
  else if n = 62 then '+' else '/'

/-- Bytes as numbers of six bits, the last one filled up with zeros. -/
def sextets : List UInt8 → List ℕ
  | [] => []
  | [a] => [a.toNat / 4, a.toNat % 4 * 16]
  | [a, b] => [a.toNat / 4, a.toNat % 4 * 16 + b.toNat / 16, b.toNat % 16 * 4]
  | a :: b :: c :: rest =>
      a.toNat / 4 :: (a.toNat % 4 * 16 + b.toNat / 16) :: (b.toNat % 16 * 4 + c.toNat / 64) ::
        c.toNat % 64 :: sextets rest

/-- The bytes that the numbers make up; bits that are left over are dropped. -/
def bytes : List ℕ → Option (List UInt8)
  | [] => some []
  | [_] => none
  | [a, b] => some [UInt8.ofNat (a * 4 + b / 16)]
  | [a, b, c] => some [UInt8.ofNat (a * 4 + b / 16), UInt8.ofNat (b % 16 * 16 + c / 4)]
  | a :: b :: c :: d :: rest => do
      let more ← bytes rest
      return UInt8.ofNat (a * 4 + b / 16) :: UInt8.ofNat (b % 16 * 16 + c / 4) ::
        UInt8.ofNat (c % 4 * 64 + d) :: more

/-- How many pad characters follow. -/
def padding (bs : List UInt8) : ℕ := (3 - bs.length % 3) % 3

def encode (bs : List UInt8) : List Char :=
  (sextets bs).map digit ++ List.replicate (padding bs) '='

def isSpace (c : Char) : Bool := c = ' ' || c = '\t' || c = '\n' || c = '\x0c' || c = '\r'

/-- Up to two pad characters at the end are taken off. -/
def stripPadding (s : List Char) : List Char :=
  match s.reverse with
  | '=' :: '=' :: rest => rest.reverse
  | '=' :: rest => rest.reverse
  | _ => s

/-- The forgiving reader: white space does not count, and the padding may be missing. -/
def decode (s : List Char) : Option (List UInt8) := do
  let s := s.filter fun c => !isSpace c
  let digits ← (if s.length % 4 = 0 then stripPadding s else s).mapM digitValue
  bytes digits

theorem digitValue_digit {n : ℕ} (h : n < 64) : digitValue (digit n) = some n := by
  interval_cases n <;> decide

theorem digit_ne_pad {n : ℕ} (h : n < 64) : digit n ≠ '=' := by
  interval_cases n <;> decide

theorem isSpace_digit {n : ℕ} (h : n < 64) : isSpace (digit n) = false := by
  interval_cases n <;> decide

theorem sextets_lt (bs : List UInt8) : ∀ n ∈ sextets bs, n < 64 := by
  induction bs using sextets.induct with
  | case1 => exact nofun
  | case2 a =>
      have ha := a.toNat_lt
      simp only [sextets, List.mem_cons, List.not_mem_nil, or_false]
      omega
  | case3 a b =>
      have ha := a.toNat_lt
      have hb := b.toNat_lt
      simp only [sextets, List.mem_cons, List.not_mem_nil, or_false]
      omega
  | case4 a b c rest ih =>
      have ha := a.toNat_lt
      have hb := b.toNat_lt
      have hc := c.toNat_lt
      intro n hn
      simp only [sextets, List.mem_cons] at hn
      rcases hn with rfl | rfl | rfl | rfl | hn
      · omega
      · omega
      · omega
      · omega
      · exact ih n hn

theorem bytes_sextets (bs : List UInt8) : bytes (sextets bs) = some bs := by
  have hbyte : ∀ (x : UInt8) (n : ℕ), n = x.toNat → UInt8.ofNat n = x := by
    rintro x n rfl
    exact UInt8.ofNat_toNat
  induction bs using sextets.induct with
  | case1 => rfl
  | case2 a =>
      simp only [sextets, bytes]
      rw [hbyte a _ (by omega)]
  | case3 a b =>
      have hb := b.toNat_lt
      simp only [sextets, bytes]
      rw [hbyte a _ (by omega), hbyte b _ (by omega)]
  | case4 a b c rest ih =>
      have hb := b.toNat_lt
      have hc := c.toNat_lt
      simp only [sextets, bytes, ih]
      rw [hbyte a _ (by omega), hbyte b _ (by omega), hbyte c _ (by omega)]
      rfl

theorem length_sextets (bs : List UInt8) : ((sextets bs).length + padding bs) % 4 = 0 := by
  induction bs using sextets.induct with
  | case1 => rfl
  | case2 a => simp [sextets, padding]
  | case3 a b => simp [sextets, padding]
  | case4 a b c rest ih =>
      simp only [sextets, padding, List.length_cons] at ih ⊢
      omega

theorem stripPadding_append {s : List Char} {n : ℕ} (hn : n ≤ 2) (hs : ∀ c ∈ s, c ≠ '=') :
    stripPadding (s ++ List.replicate n '=') = s := by
  have hlast : ∀ c ∈ s.reverse, c ≠ '=' := fun c hc => hs c (List.mem_reverse.mp hc)
  unfold stripPadding
  rw [List.reverse_append, List.reverse_replicate]
  interval_cases n
  · simp only [List.replicate_zero, List.nil_append, List.append_nil]
    split
    · next heq => exact absurd rfl (hlast '=' (heq ▸ List.mem_cons_self))
    · next heq => exact absurd rfl (hlast '=' (heq ▸ List.mem_cons_self))
    · rfl
  · simp only [List.replicate_one, List.singleton_append]
    split
    · next heq =>
        have htail := List.tail_eq_of_cons_eq heq
        exact absurd rfl (hlast '=' (htail ▸ List.mem_cons_self))
    · next heq =>
        have htail := List.tail_eq_of_cons_eq heq
        rw [← htail, List.reverse_reverse]
    · next hno => exact absurd rfl (hno _)
  · show s.reverse.reverse = s
    exact List.reverse_reverse s

/-- **Base64 texts are read back.** -/
theorem decode_encode (bs : List UInt8) : decode (encode bs) = some bs := by
  have hfilter : (encode bs).filter (fun c => !isSpace c) = encode bs := by
    rw [List.filter_eq_self]
    intro c hc
    rcases List.mem_append.mp hc with hc | hc
    · obtain ⟨n, hn, rfl⟩ := List.mem_map.mp hc
      rw [isSpace_digit (sextets_lt bs n hn)]
      rfl
    · rw [List.eq_of_mem_replicate hc]
      decide
  have hlength : (encode bs).length % 4 = 0 := by
    rw [encode, List.length_append, List.length_map, List.length_replicate]
    exact length_sextets bs
  have hstrip : stripPadding (encode bs) = (sextets bs).map digit := by
    refine stripPadding_append (by unfold padding; omega) ?_
    intro c hc
    obtain ⟨n, hn, rfl⟩ := List.mem_map.mp hc
    exact digit_ne_pad (sextets_lt bs n hn)
  have hdigits : ((sextets bs).map digit).mapM digitValue = some (sextets bs) := by
    have hall := sextets_lt bs
    generalize sextets bs = ns at hall
    induction ns with
    | nil => rfl
    | cons n ns ih =>
        rw [List.map_cons, List.mapM_cons, digitValue_digit (hall n List.mem_cons_self),
          ih fun m hm => hall m (List.mem_cons_of_mem _ hm)]
        rfl
  unfold decode
  simp only [hfilter, hlength, if_true, hstrip, hdigits, Option.bind_eq_bind, Option.bind_some]
  exact bytes_sextets bs

end Base64

/-! ## Decimal numbers -/

namespace Decimal

def digitValue (c : Char) : Option ℕ := if '0' ≤ c ∧ c ≤ '9' then some (c.toNat - 48) else none

def digit (n : ℕ) : Char := Char.ofNat (48 + n)

def encode (n : ℕ) : List Char := if n = 0 then ['0'] else ((Nat.digits 10 n).map digit).reverse

/-- Digits only, and at least one. -/
def decode (s : List Char) : Option ℕ :=
  if s = [] then none else (s.reverse.mapM digitValue).map (Nat.ofDigits 10)

theorem digitValue_digit {n : ℕ} (h : n < 10) : digitValue (digit n) = some n := by
  interval_cases n <;> decide

theorem decode_encode (n : ℕ) : decode (encode n) = some n := by
  unfold encode
  split
  · next h =>
      subst h
      decide
  · next h =>
      have hdigits : ((Nat.digits 10 n).map digit).mapM digitValue = some (Nat.digits 10 n) := by
        have hall : ∀ d ∈ Nat.digits 10 n, d < 10 := fun d hd => Nat.digits_lt_base (by decide) hd
        generalize Nat.digits 10 n = ds at hall
        induction ds with
        | nil => rfl
        | cons d ds ih =>
            rw [List.map_cons, List.mapM_cons, digitValue_digit (hall d List.mem_cons_self),
              ih fun m hm => hall m (List.mem_cons_of_mem _ hm)]
            rfl
      have hne : ((Nat.digits 10 n).map digit).reverse ≠ [] := by
        simpa [Nat.digits_eq_nil_iff_eq_zero] using h
      rw [decode, if_neg hne, List.reverse_reverse, hdigits, Option.map_some, Nat.ofDigits_digits]

theorem digit_of_digitValue {c : Char} {d : ℕ} (h : digitValue c = some d) : d < 10 ∧ c = digit d := by
  unfold digitValue at h
  split at h
  · next hc =>
      cases h
      have hlow : '0'.toNat ≤ c.toNat := hc.1
      have hhigh : c.toNat ≤ '9'.toNat := hc.2
      have h0 : '0'.toNat = 48 := rfl
      have h9 : '9'.toNat = 57 := rfl
      refine ⟨by omega, ?_⟩
      rw [digit, show 48 + (c.toNat - 48) = c.toNat by omega, Char.ofNat_toNat]
  · cases h

theorem encode_of_lt {n : ℕ} (h : n < 10) : encode n = [digit n] := by
  interval_cases n <;> decide

theorem mem_encode {n : ℕ} {c : Char} (h : c ∈ encode n) : ∃ d < 10, c = digit d := by
  unfold encode at h
  split at h
  · exact ⟨0, by decide, List.mem_singleton.mp h⟩
  · obtain ⟨d, hd, rfl⟩ := List.mem_map.mp (List.mem_reverse.mp h)
    exact ⟨d, Nat.digits_lt_base (by decide) hd, rfl⟩

theorem encode_injective {m n : ℕ} (h : encode m = encode n) : m = n := by
  have hm := decode_encode m
  rw [h, decode_encode n] at hm
  exact (Option.some.inj hm).symm

/-- A number ends with a digit. -/
theorem encode_concat (n : ℕ) : ∃ s, ∃ d < 10, encode n = s ++ [digit d] := by
  unfold encode
  split
  · exact ⟨[], 0, by decide, rfl⟩
  · next h =>
      cases hdigits : Nat.digits 10 n with
      | nil => exact absurd (Nat.digits_eq_nil_iff_eq_zero.mp hdigits) h
      | cons d ds =>
          have hd : d < 10 := Nat.digits_lt_base (by decide) (hdigits ▸ List.mem_cons_self)
          exact ⟨(ds.map digit).reverse, d, hd, by rw [List.map_cons, List.reverse_cons]⟩

/-- A number begins with a digit. -/
theorem encode_head (n : ℕ) : ∃ d < 10, (encode n).head? = some (digit d) := by
  unfold encode
  split
  · exact ⟨0, by decide, rfl⟩
  · next h =>
      have hne : Nat.digits 10 n ≠ [] := Nat.digits_ne_nil_iff_ne_zero.mpr h
      refine ⟨(Nat.digits 10 n).getLast hne,
        Nat.digits_lt_base (by decide) (List.getLast_mem hne), ?_⟩
      rw [List.head?_reverse, List.getLast?_map, List.getLast?_eq_some_getLast hne]
      rfl

end Decimal

end OpaqueStellar.Lib
