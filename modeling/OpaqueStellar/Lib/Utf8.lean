import Mathlib.Data.Nat.Notation
import Mathlib.Tactic.Cases
import Mathlib.Tactic.SplitIfs

/-! # Decoding UTF-8 with replacement

The decoder of browsers, byte by byte. What is not UTF-8 becomes U+FFFD, and a byte that a character cannot go
on with is read again as the first byte of the next one. Texts are decoded from their UTF-8.

`feed` is the decoder of a stream, which keeps the bytes of a character that is not complete. It gives a
character as soon as all its bytes are there, and not before (`prefix_feed_iff`). -/

namespace OpaqueStellar.Lib

/-! ## The bytes of a character -/

section Bytes

variable {c : Char}

theorem utf8EncodeChar_one (h : c.toNat ≤ 0x7F) : String.utf8EncodeChar c = [UInt8.ofNat c.toNat] := by
  unfold String.utf8EncodeChar
  exact if_pos h

theorem utf8EncodeChar_two (h : 0x7F < c.toNat) (h' : c.toNat ≤ 0x7FF) : String.utf8EncodeChar c =
    [UInt8.ofNat (c.toNat / 64 % 32 + 0xC0), UInt8.ofNat (c.toNat % 64 + 0x80)] := by
  have hone : ¬ c.val.toNat ≤ 0x7F := Nat.not_le_of_gt h
  unfold String.utf8EncodeChar
  simp only [hone, if_false]
  exact if_pos h'

theorem utf8EncodeChar_three (h : 0x7FF < c.toNat) (h' : c.toNat ≤ 0xFFFF) : String.utf8EncodeChar c =
    [UInt8.ofNat (c.toNat / 4096 % 16 + 0xE0), UInt8.ofNat (c.toNat / 64 % 64 + 0x80),
      UInt8.ofNat (c.toNat % 64 + 0x80)] := by
  have hone : ¬ c.val.toNat ≤ 0x7F := Nat.not_le_of_gt (Nat.lt_trans (by decide) h)
  have htwo : ¬ c.val.toNat ≤ 0x7FF := Nat.not_le_of_gt h
  unfold String.utf8EncodeChar
  simp only [hone, htwo, if_false]
  exact if_pos h'

theorem utf8EncodeChar_four (h : 0xFFFF < c.toNat) : String.utf8EncodeChar c =
    [UInt8.ofNat (c.toNat / 262144 % 8 + 0xF0), UInt8.ofNat (c.toNat / 4096 % 64 + 0x80),
      UInt8.ofNat (c.toNat / 64 % 64 + 0x80), UInt8.ofNat (c.toNat % 64 + 0x80)] := by
  have hone : ¬ c.val.toNat ≤ 0x7F := Nat.not_le_of_gt (Nat.lt_trans (by decide) h)
  have htwo : ¬ c.val.toNat ≤ 0x7FF := Nat.not_le_of_gt (Nat.lt_trans (by decide) h)
  have hthree : ¬ c.val.toNat ≤ 0xFFFF := Nat.not_le_of_gt h
  unfold String.utf8EncodeChar
  simp only [hone, htwo, hthree, if_false]
  rfl

end Bytes

/-! ## The decoder -/

/-- Between the bytes of a character: its bits so far, the bytes still needed, and the bounds of the next. -/
structure Utf8Decoder where
  codePoint : ℕ
  needed : ℕ
  lower : ℕ
  upper : ℕ

namespace Utf8Decoder

def start : Utf8Decoder := ⟨0, 0, 0x80, 0xBF⟩

def replacement : Char := Char.ofNat 0xFFFD

def firstByte (b : ℕ) : Utf8Decoder × List Char :=
  if b ≤ 0x7F then (start, [Char.ofNat b])
  else if 0xC2 ≤ b ∧ b ≤ 0xDF then (⟨b % 32, 1, 0x80, 0xBF⟩, [])
  else if 0xE0 ≤ b ∧ b ≤ 0xEF then
    (⟨b % 16, 2, if b = 0xE0 then 0xA0 else 0x80, if b = 0xED then 0x9F else 0xBF⟩, [])
  else if 0xF0 ≤ b ∧ b ≤ 0xF4 then
    (⟨b % 8, 3, if b = 0xF0 then 0x90 else 0x80, if b = 0xF4 then 0x8F else 0xBF⟩, [])
  else (start, [replacement])

def nextByte (d : Utf8Decoder) (b : ℕ) : Utf8Decoder × List Char :=
  if d.needed = 0 then firstByte b
  else if b < d.lower ∨ d.upper < b then ((firstByte b).1, replacement :: (firstByte b).2)
  else if d.needed = 1 then (start, [Char.ofNat (d.codePoint * 64 + b % 64)])
  else (⟨d.codePoint * 64 + b % 64, d.needed - 1, 0x80, 0xBF⟩, [])

def run : Utf8Decoder → List UInt8 → List Char
  | d, [] => if d.needed = 0 then [] else [replacement]
  | d, b :: rest => (d.nextByte b.toNat).2 ++ run (d.nextByte b.toNat).1 rest

/-! ## A character at a time -/

section Characters

variable {d : Utf8Decoder} {b n : ℕ} {rest : List UInt8}

theorem run_ofNat (hb : b < 256) :
    run d (UInt8.ofNat b :: rest) = (d.nextByte b).2 ++ run (d.nextByte b).1 rest := by
  have htoNat : (UInt8.ofNat b).toNat = b := by
    rw [UInt8.toNat_ofNat']
    exact Nat.mod_eq_of_lt hb
  rw [run, htoNat]

theorem start_nextByte : start.nextByte b = firstByte b := if_pos rfl

/-- A byte that the character goes on with. -/
theorem nextByte_of_needed {codePoint needed lower upper : ℕ} (hlower : lower ≤ b) (hupper : b ≤ upper) :
    nextByte ⟨codePoint, needed + 2, lower, upper⟩ b =
      (⟨codePoint * 64 + b % 64, needed + 1, 0x80, 0xBF⟩, []) := by
  have hbounds : ¬ (b < lower ∨ upper < b) := by omega
  have hone : ¬ needed + 2 = 1 := by omega
  rw [nextByte, if_neg (Nat.succ_ne_zero _), if_neg hbounds, if_neg hone]
  rfl

/-- The last byte of a character. -/
theorem nextByte_of_one {codePoint lower upper : ℕ} (hlower : lower ≤ b) (hupper : b ≤ upper) :
    nextByte ⟨codePoint, 1, lower, upper⟩ b = (start, [Char.ofNat (codePoint * 64 + b % 64)]) := by
  have hbounds : ¬ (b < lower ∨ upper < b) := by omega
  rw [nextByte, if_neg Nat.one_ne_zero, if_neg hbounds, if_pos rfl]

theorem run_two (h : 0x7F < n) (h' : n ≤ 0x7FF) :
    run start (UInt8.ofNat (n / 64 % 32 + 0xC0) :: UInt8.ofNat (n % 64 + 0x80) :: rest) =
      Char.ofNat n :: run start rest := by
  have hfirst : start.nextByte (n / 64 % 32 + 0xC0) =
      (⟨(n / 64 % 32 + 0xC0) % 32, 1, 0x80, 0xBF⟩, []) := by
    have hlarge : ¬ n / 64 % 32 + 0xC0 ≤ 0x7F := by omega
    have hrange : 0xC2 ≤ n / 64 % 32 + 0xC0 ∧ n / 64 % 32 + 0xC0 ≤ 0xDF := by omega
    rw [start_nextByte, firstByte, if_neg hlarge, if_pos hrange]
  have hcode : (n / 64 % 32 + 0xC0) % 32 * 64 + (n % 64 + 0x80) % 64 = n := by omega
  rw [run_ofNat (by omega), hfirst, run_ofNat (by omega), nextByte_of_one (by omega) (by omega), hcode]
  rfl

theorem run_three (h : 0x7FF < n) (h' : n ≤ 0xFFFF) (hscalar : n < 0xD800 ∨ 0xDFFF < n) :
    run start (UInt8.ofNat (n / 4096 % 16 + 0xE0) :: UInt8.ofNat (n / 64 % 64 + 0x80) ::
      UInt8.ofNat (n % 64 + 0x80) :: rest) = Char.ofNat n :: run start rest := by
  have hfirst : start.nextByte (n / 4096 % 16 + 0xE0) =
      (⟨(n / 4096 % 16 + 0xE0) % 16, 2, if n / 4096 % 16 + 0xE0 = 0xE0 then 0xA0 else 0x80,
        if n / 4096 % 16 + 0xE0 = 0xED then 0x9F else 0xBF⟩, []) := by
    have hlarge : ¬ n / 4096 % 16 + 0xE0 ≤ 0x7F := by omega
    have htwo : ¬ (0xC2 ≤ n / 4096 % 16 + 0xE0 ∧ n / 4096 % 16 + 0xE0 ≤ 0xDF) := by omega
    have hrange : 0xE0 ≤ n / 4096 % 16 + 0xE0 ∧ n / 4096 % 16 + 0xE0 ≤ 0xEF := by omega
    rw [start_nextByte, firstByte, if_neg hlarge, if_neg htwo, if_pos hrange]
  have hlower : (if n / 4096 % 16 + 0xE0 = 0xE0 then 0xA0 else 0x80) ≤ n / 64 % 64 + 0x80 := by
    split <;> omega
  have hupper : n / 64 % 64 + 0x80 ≤ if n / 4096 % 16 + 0xE0 = 0xED then 0x9F else 0xBF := by
    split <;> omega
  have hcode : ((n / 4096 % 16 + 0xE0) % 16 * 64 + (n / 64 % 64 + 0x80) % 64) * 64 + (n % 64 + 0x80) % 64 = n := by
    omega
  rw [run_ofNat (by omega), hfirst, run_ofNat (by omega), nextByte_of_needed hlower hupper,
    run_ofNat (by omega), nextByte_of_one (by omega) (by omega), hcode]
  rfl

theorem run_four (h : 0xFFFF < n) (h' : n < 0x110000) :
    run start (UInt8.ofNat (n / 262144 % 8 + 0xF0) :: UInt8.ofNat (n / 4096 % 64 + 0x80) ::
      UInt8.ofNat (n / 64 % 64 + 0x80) :: UInt8.ofNat (n % 64 + 0x80) :: rest) =
        Char.ofNat n :: run start rest := by
  have hfirst : start.nextByte (n / 262144 % 8 + 0xF0) =
      (⟨(n / 262144 % 8 + 0xF0) % 8, 3, if n / 262144 % 8 + 0xF0 = 0xF0 then 0x90 else 0x80,
        if n / 262144 % 8 + 0xF0 = 0xF4 then 0x8F else 0xBF⟩, []) := by
    have hlarge : ¬ n / 262144 % 8 + 0xF0 ≤ 0x7F := by omega
    have htwo : ¬ (0xC2 ≤ n / 262144 % 8 + 0xF0 ∧ n / 262144 % 8 + 0xF0 ≤ 0xDF) := by omega
    have hthree : ¬ (0xE0 ≤ n / 262144 % 8 + 0xF0 ∧ n / 262144 % 8 + 0xF0 ≤ 0xEF) := by omega
    have hrange : 0xF0 ≤ n / 262144 % 8 + 0xF0 ∧ n / 262144 % 8 + 0xF0 ≤ 0xF4 := by omega
    rw [start_nextByte, firstByte, if_neg hlarge, if_neg htwo, if_neg hthree, if_pos hrange]
  have hlower : (if n / 262144 % 8 + 0xF0 = 0xF0 then 0x90 else 0x80) ≤ n / 4096 % 64 + 0x80 := by
    split <;> omega
  have hupper : n / 4096 % 64 + 0x80 ≤ if n / 262144 % 8 + 0xF0 = 0xF4 then 0x8F else 0xBF := by
    split <;> omega
  have hcode : (((n / 262144 % 8 + 0xF0) % 8 * 64 + (n / 4096 % 64 + 0x80) % 64) * 64 +
      (n / 64 % 64 + 0x80) % 64) * 64 + (n % 64 + 0x80) % 64 = n := by
    omega
  rw [run_ofNat (by omega), hfirst, run_ofNat (by omega), nextByte_of_needed hlower hupper,
    run_ofNat (by omega), nextByte_of_needed (by omega) (by omega), run_ofNat (by omega),
    nextByte_of_one (by omega) (by omega), hcode]
  rfl

theorem run_utf8EncodeChar (c : Char) (rest : List UInt8) :
    run start (String.utf8EncodeChar c ++ rest) = c :: run start rest := by
  have hvalid : c.toNat < 0xD800 ∨ 0xDFFF < c.toNat ∧ c.toNat < 0x110000 := c.valid
  have hc : Char.ofNat c.toNat = c := Char.ofNat_toNat c
  by_cases hone : c.toNat ≤ 0x7F
  · have hfirst : start.nextByte c.toNat = (start, [Char.ofNat c.toNat]) := if_pos hone
    rw [utf8EncodeChar_one hone, List.singleton_append, run_ofNat (by omega), hfirst, hc]
    rfl
  · by_cases htwo : c.toNat ≤ 0x7FF
    · have hlarge := Nat.lt_of_not_le hone
      have h := @run_two _ rest hlarge htwo
      rw [hc] at h
      rw [utf8EncodeChar_two hlarge htwo]
      exact h
    · by_cases hthree : c.toNat ≤ 0xFFFF
      · have hlarge := Nat.lt_of_not_le htwo
        have h := @run_three _ rest hlarge hthree (by omega)
        rw [hc] at h
        rw [utf8EncodeChar_three hlarge hthree]
        exact h
      · have hlarge := Nat.lt_of_not_le hthree
        have h := @run_four _ rest hlarge (by omega)
        rw [hc] at h
        rw [utf8EncodeChar_four hlarge]
        exact h

end Characters

/-- **Texts are decoded from their UTF-8.** -/
theorem run_utf8 (s : List Char) : run start (s.flatMap String.utf8EncodeChar) = s := by
  induction s with
  | nil => rfl
  | cons c s ih => rw [List.flatMap_cons, run_utf8EncodeChar, ih]

/-! ## In pieces -/

section Feed

variable {d : Utf8Decoder} {bytes part missing : List UInt8} {c : Char} {s u : List Char}

/-- The characters that are complete, and the decoder that waits for the others. -/
def feed : Utf8Decoder → List UInt8 → Utf8Decoder × List Char
  | d, [] => (d, [])
  | d, b :: rest =>
    ((feed (d.nextByte b.toNat).1 rest).1, (d.nextByte b.toNat).2 ++ (feed (d.nextByte b.toNat).1 rest).2)

theorem feed_append (d : Utf8Decoder) (xs ys : List UInt8) :
    d.feed (xs ++ ys) = (((d.feed xs).1.feed ys).1, (d.feed xs).2 ++ ((d.feed xs).1.feed ys).2) := by
  induction xs generalizing d with
  | nil => rfl
  | cons b xs ih => simp [feed, ih]

theorem run_append (d : Utf8Decoder) (xs ys : List UInt8) :
    d.run (xs ++ ys) = (d.feed xs).2 ++ (d.feed xs).1.run ys := by
  induction xs generalizing d with
  | nil => rfl
  | cons b xs ih => simp [feed, run, ih]

/-- Between two characters. -/
theorem feed_of_idle (h : d.needed = 0) (bytes : List UInt8) : (d.feed bytes).2 = (start.feed bytes).2 := by
  cases bytes with
  | nil => rfl
  | cons b rest =>
      have hfirst : d.nextByte b.toNat = firstByte b.toNat := if_pos h
      rw [feed, feed, hfirst, start_nextByte]

/-- A byte gives a character, or leaves the decoder inside one. -/
theorem needed_of_silent {b : ℕ} (h : (d.nextByte b).2 = []) : (d.nextByte b).1.needed ≠ 0 := by
  unfold nextByte firstByte at *
  grind

/-- No byte is passed over in silence. -/
theorem eq_nil_of_run (h : d.run bytes = []) : bytes = [] ∧ d.needed = 0 := by
  induction bytes generalizing d with
  | nil => simpa [run] using h
  | cons b rest ih =>
      rw [run, List.append_eq_nil_iff] at h
      exact absurd (ih h.2).2 (needed_of_silent h.1)

theorem feed_utf8EncodeChar (c : Char) :
    (start.feed (String.utf8EncodeChar c)).2 = [c] ∧ (start.feed (String.utf8EncodeChar c)).1.needed = 0 := by
  have hrun := run_utf8EncodeChar c []
  rw [run_append, show start.run [] = [] from rfl] at hrun
  by_cases hneeded : (start.feed (String.utf8EncodeChar c)).1.needed = 0
  · rw [run, if_pos hneeded, List.append_nil] at hrun
    exact ⟨hrun, hneeded⟩
  · -- only U+FFFD could have come from the end of the bytes, and it does not
    rw [run, if_neg hneeded, ← List.nil_append [c]] at hrun
    have hc : replacement = c := List.singleton_inj.mp (List.append_inj' hrun rfl).2
    rw [← hc] at hneeded
    exact absurd (by decide) hneeded

/-- The characters of a text that is there come first. -/
theorem feed_utf8 (s : List Char) (bytes : List UInt8) :
    (start.feed (s.flatMap String.utf8EncodeChar ++ bytes)).2 = s ++ (start.feed bytes).2 := by
  induction s with
  | nil => rfl
  | cons c s ih =>
      obtain ⟨hchar, hidle⟩ := feed_utf8EncodeChar c
      rw [List.flatMap_cons, List.append_assoc, feed_append, hchar, feed_of_idle hidle, ih]
      rfl

/-- A part of a character gives nothing. -/
theorem feed_part (h : part ++ missing = String.utf8EncodeChar c) (hmissing : missing ≠ []) :
    (start.feed part).2 = [] := by
  have hrun := run_utf8EncodeChar c []
  rw [List.append_nil, ← h, run_append, show start.run [] = [] from rfl] at hrun
  rcases List.append_eq_singleton_iff.mp hrun with ⟨hpart, -⟩ | ⟨-, hrest⟩
  · exact hpart
  · exact absurd (eq_nil_of_run hrest).1 hmissing

theorem utf8_feed_front (h : bytes <+: s.flatMap String.utf8EncodeChar) :
    (start.feed bytes).2.flatMap String.utf8EncodeChar <+: bytes := by
  induction s generalizing bytes with
  | nil =>
      obtain rfl := List.prefix_nil.mp h
      exact List.nil_prefix
  | cons c s ih =>
      rw [List.flatMap_cons] at h
      obtain ⟨hchar, hidle⟩ := feed_utf8EncodeChar c
      rcases List.prefix_or_prefix_of_prefix h (List.prefix_append (String.utf8EncodeChar c) _) with
        ⟨missing, hpart⟩ | ⟨rest, rfl⟩
      · by_cases hmissing : missing = []
        · obtain rfl : bytes = String.utf8EncodeChar c := by rw [← hpart, hmissing, List.append_nil]
          rw [hchar]
          simp
        · rw [feed_part hpart hmissing]
          exact List.nil_prefix
      · rw [feed_append, hchar, feed_of_idle hidle]
        exact (List.prefix_append_right_inj _).mpr (ih ((List.prefix_append_right_inj _).mp h))

/-- Of the UTF-8 of a text, every part gives the front of the text. -/
theorem feed_prefix (h : bytes <+: s.flatMap String.utf8EncodeChar) : (start.feed bytes).2 <+: s := by
  obtain ⟨missing, hmissing⟩ := h
  have hrun := run_utf8 s
  rw [← hmissing, run_append] at hrun
  exact ⟨_, hrun⟩

/-- **A character is there as soon as all its bytes are, and not before.** -/
theorem prefix_feed_iff (h : bytes <+: s.flatMap String.utf8EncodeChar) :
    u <+: (start.feed bytes).2 ↔ u.flatMap String.utf8EncodeChar <+: bytes := by
  constructor
  · rintro ⟨more, hmore⟩
    refine List.IsPrefix.trans ⟨more.flatMap String.utf8EncodeChar, ?_⟩ (utf8_feed_front h)
    rw [← List.flatMap_append, hmore]
  · rintro ⟨rest, rfl⟩
    rw [feed_utf8]
    exact List.prefix_append _ _

end Feed

end Utf8Decoder

/-- `TextDecoder` on a stream: a byte order mark at the front is left out. -/
structure TextDecoder where
  decoder : Utf8Decoder := .start
  bomSeen : Bool := false

namespace TextDecoder

variable {t : TextDecoder}

/-- `decode(chunk, { stream: true })` -/
def decode (t : TextDecoder) (chunk : List UInt8) : TextDecoder × List Char :=
  let fed := t.decoder.feed chunk
  if t.bomSeen || fed.2.isEmpty then (⟨fed.1, t.bomSeen⟩, fed.2)
  else (⟨fed.1, true⟩, if fed.2.head? = some (Char.ofNat 0xFEFF) then fed.2.tail else fed.2)

theorem decode_append (t : TextDecoder) (xs ys : List UInt8) :
    t.decode (xs ++ ys) =
      (((t.decode xs).1.decode ys).1, (t.decode xs).2 ++ ((t.decode xs).1.decode ys).2) := by
  have happend := Utf8Decoder.feed_append t.decoder xs ys
  rcases hseen : t.bomSeen with - | -
  · rcases hfirst : (t.decoder.feed xs).2 with - | ⟨c, text⟩
    · simp [decode, happend, hseen, hfirst]
    · by_cases hmark : c = Char.ofNat 0xFEFF <;> simp [decode, happend, hseen, hfirst, hmark]
  · simp [decode, happend, hseen]

theorem decode_start {bytes : List UInt8}
    (h : (Utf8Decoder.start.feed bytes).2.head? ≠ some (Char.ofNat 0xFEFF)) :
    (({} : TextDecoder).decode bytes).2 = (Utf8Decoder.start.feed bytes).2 := by
  by_cases hempty : (Utf8Decoder.start.feed bytes).2 = []
  · simp [decode, hempty]
  · simp [decode, hempty, h]

end TextDecoder

/-- A byte order mark at the front is left out. -/
def utf8Decode (bytes : List UInt8) : List Char :=
  match bytes with
  | 0xEF :: 0xBB :: 0xBF :: rest => Utf8Decoder.start.run rest
  | _ => Utf8Decoder.start.run bytes

/-- Encoding again gives the bytes back where they are the UTF-8 of a text without such a mark. -/
theorem utf8_utf8Decode_iff {bytes : List UInt8} :
    (utf8Decode bytes).flatMap String.utf8EncodeChar = bytes ↔
      ∃ s : List Char, s.flatMap String.utf8EncodeChar = bytes ∧ s.head? ≠ some (Char.ofNat 0xFEFF) := by
  have hmark : String.utf8EncodeChar (Char.ofNat 0xFEFF) = [0xEF, 0xBB, 0xBF] := by decide
  unfold utf8Decode
  split
  next rest =>
    have hrun : Utf8Decoder.start.run (0xEF :: 0xBB :: 0xBF :: rest) =
        Char.ofNat 0xFEFF :: Utf8Decoder.start.run rest := by
      have h := Utf8Decoder.run_utf8EncodeChar (Char.ofNat 0xFEFF) rest
      rwa [hmark] at h
    constructor
    · intro h
      -- decoding what was encoded would find the mark again, and leave it out again
      have hagain := Utf8Decoder.run_utf8 (Utf8Decoder.start.run rest)
      rw [h, hrun] at hagain
      exact absurd (congrArg List.length hagain) (Nat.succ_ne_self _)
    · rintro ⟨s, hs, hhead⟩
      have hagain := Utf8Decoder.run_utf8 s
      rw [hs, hrun] at hagain
      rw [← hagain] at hhead
      exact absurd rfl hhead
  next hno =>
    constructor
    · intro h
      refine ⟨_, h, ?_⟩
      intro hhead
      obtain ⟨rest, hrest⟩ := List.head?_eq_some_iff.mp hhead
      rw [hrest, List.flatMap_cons, hmark] at h
      exact hno _ h.symm
    · rintro ⟨s, rfl, -⟩
      rw [Utf8Decoder.run_utf8]

end OpaqueStellar.Lib
