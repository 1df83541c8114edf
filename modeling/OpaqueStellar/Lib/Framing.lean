import Mathlib.Data.List.Infix

/-! # Frames that end with a separator

A reader that gets its input in pieces keeps what it has not used, and takes a frame off the front as long as
a separator is there. The separator is `first :: more`, so it is never empty.

The frames do not depend on the pieces (`drain_append`). Where frames were written in which `first` does not
stand, those are read of which every element is there (`prefix_frames_iff`). -/

namespace OpaqueStellar.Lib.Framing

variable {α : Type}

/-! ## Frames with their separators -/

def write (first : α) (more : List α) (frames : List (List α)) : List α :=
  frames.flatMap fun frame => frame ++ first :: more

section Write

variable {first : α} {more : List α}

theorem write_cons (frame : List α) (frames : List (List α)) :
    write first more (frame :: frames) = frame ++ first :: more ++ write first more frames := rfl

theorem write_append (frames frames' : List (List α)) :
    write first more (frames ++ frames') = write first more frames ++ write first more frames' :=
  List.flatMap_append

theorem write_mono {frames frames' : List (List α)} (h : frames <+: frames') :
    write first more frames <+: write first more frames' := by
  obtain ⟨tail, rfl⟩ := h
  exact ⟨write first more tail, (write_append frames tail).symm⟩

end Write

/-! ## Cutting the first frame off -/

section Separator

variable [DecidableEq α] (first : α) (more : List α)

/-- What stands before the first separator, and what follows it. -/
def cut : List α → Option (List α × List α)
  | [] => none
  | c :: s =>
    if first :: more <+: c :: s then some ([], s.drop more.length)
    else (cut s).map fun found => (c :: found.1, found.2)

variable {first more}

theorem eq_append_of_cut {s frame rest : List α} (h : cut first more s = some (frame, rest)) :
    s = frame ++ first :: more ++ rest := by
  induction s generalizing frame with
  | nil => cases h
  | cons c s ih =>
      rw [cut] at h
      split at h
      next hprefix =>
        obtain ⟨tail, htail⟩ := hprefix
        obtain ⟨rfl, rfl⟩ : [] = frame ∧ s.drop more.length = rest := by simpa using h
        rw [List.cons_append, List.cons.injEq] at htail
        rw [← htail.2, List.drop_left, htail.1]
        rfl
      next =>
        obtain ⟨found, hfound, heq⟩ := Option.map_eq_some_iff.mp h
        obtain ⟨rfl, rfl⟩ : c :: found.1 = frame ∧ found.2 = rest := by simpa using heq
        rw [ih hfound]
        rfl

theorem length_lt_of_cut {s frame rest : List α} (h : cut first more s = some (frame, rest)) :
    rest.length < s.length := by
  have hlength := congrArg List.length (eq_append_of_cut h)
  simp at hlength
  omega

/-- The first separator stays the first when more comes. -/
theorem cut_append {s frame rest : List α} (h : cut first more s = some (frame, rest)) (after : List α) :
    cut first more (s ++ after) = some (frame, rest ++ after) := by
  induction s generalizing frame with
  | nil => cases h
  | cons c s ih =>
      rw [cut] at h
      rw [List.cons_append, cut]
      split at h
      next hprefix =>
        obtain ⟨rfl, rfl⟩ : [] = frame ∧ s.drop more.length = rest := by simpa using h
        have hlength : more.length ≤ s.length := by simpa using hprefix.length_le
        have hlonger : first :: more <+: c :: (s ++ after) :=
          hprefix.trans (List.prefix_append (c :: s) after)
        rw [if_pos hlonger, List.drop_append_of_le_length hlength]
      next hprefix =>
        obtain ⟨found, hfound, heq⟩ := Option.map_eq_some_iff.mp h
        obtain ⟨rfl, rfl⟩ : c :: found.1 = frame ∧ found.2 = rest := by simpa using heq
        -- there is room for a separator in what was there before
        have hroom : (first :: more).length ≤ (c :: s).length := by
          have hlength := congrArg List.length (eq_append_of_cut hfound)
          simp at hlength ⊢
          omega
        have hnot : ¬ first :: more <+: c :: (s ++ after) := by
          intro hlonger
          exact hprefix (List.prefix_of_prefix_length_le hlonger (List.prefix_append (c :: s) after) hroom)
        rw [if_neg hnot, ih hfound]
        rfl

/-- A frame in which the separator cannot begin. -/
theorem cut_frame {frame : List α} (h : first ∉ frame) (rest : List α) :
    cut first more (frame ++ first :: more ++ rest) = some (frame, rest) := by
  induction frame with
  | nil =>
      have hprefix : first :: more <+: first :: (more ++ rest) := List.prefix_append (first :: more) rest
      show cut first more (first :: (more ++ rest)) = _
      rw [cut, if_pos hprefix, List.drop_left]
  | cons c frame ih =>
      rw [List.mem_cons, not_or] at h
      have hnot : ¬ first :: more <+: c :: (frame ++ first :: more ++ rest) := by
        intro hprefix
        exact h.1 (List.cons_prefix_cons.mp hprefix).1
      rw [List.cons_append, List.cons_append, cut, if_neg hnot, ih h.2]
      rfl

/-! ## All complete frames -/

variable (first more)

/-- The frames that are complete, and what is left. -/
def drain (s : List α) : List (List α) × List α :=
  match _h : cut first more s with
  | none => ([], s)
  | some found => (found.1 :: (drain found.2).1, (drain found.2).2)
termination_by s.length
decreasing_by all_goals exact length_lt_of_cut _h

variable {first more}

theorem drain_of_none {s : List α} (h : cut first more s = none) : drain first more s = ([], s) := by
  rw [drain]
  split
  · rfl
  · simp_all

theorem drain_of_some {s frame rest : List α} (h : cut first more s = some (frame, rest)) :
    drain first more s = (frame :: (drain first more rest).1, (drain first more rest).2) := by
  rw [drain]
  split <;> simp_all

/-- **The pieces do not matter.** What is left waits for what comes. -/
theorem drain_append (s after : List α) : drain first more (s ++ after) =
    ((drain first more s).1 ++ (drain first more ((drain first more s).2 ++ after)).1,
      (drain first more ((drain first more s).2 ++ after)).2) := by
  fun_induction drain first more s with
  | case1 s h => rfl
  | case2 s found h ih => rw [drain_of_some (cut_append h after), ih]; rfl

/-- What is left has no separator. -/
theorem drain_rest (s : List α) : drain first more (drain first more s).2 = ([], (drain first more s).2) := by
  fun_induction drain first more s with
  | case1 s h => exact drain_of_none h
  | case2 s found h ih => exact ih

/-! ## Reading what was written -/

/-- Nothing is lost. -/
theorem write_drain (s : List α) :
    write first more (drain first more s).1 ++ (drain first more s).2 = s := by
  fun_induction drain first more s with
  | case1 s h => rfl
  | case2 s found h ih => rw [write_cons, List.append_assoc, ih, ← eq_append_of_cut h]

variable {frames : List (List α)}

theorem drain_write (h : ∀ frame ∈ frames, first ∉ frame) (rest : List α) :
    drain first more (write first more frames ++ rest) =
      (frames ++ (drain first more rest).1, (drain first more rest).2) := by
  induction frames with
  | nil => rfl
  | cons frame frames ih =>
      rw [List.forall_mem_cons] at h
      rw [write_cons, List.append_assoc, drain_of_some (cut_frame h.1 _), ih h.2]
      rfl

/-- A part of a frame has no separator. -/
theorem cut_of_part {frame part missing : List α} (h : first ∉ frame)
    (hpart : part ++ missing = frame ++ first :: more) (hmissing : missing ≠ []) :
    cut first more part = none := by
  rcases hcut : cut first more part with - | ⟨frame', rest⟩
  · rfl
  · have hwhole := cut_append hcut missing
    have hframe : cut first more (frame ++ first :: more ++ []) = some (frame, []) := cut_frame h []
    rw [hpart] at hwhole
    rw [List.append_nil, hwhole] at hframe
    simp_all

/-- Only frames that were written are read. -/
theorem drain_front {s : List α} (h : ∀ frame ∈ frames, first ∉ frame) (hs : s <+: write first more frames) :
    (drain first more s).1 <+: frames := by
  induction frames generalizing s with
  | nil =>
      obtain rfl := List.prefix_nil.mp hs
      rw [drain_of_none rfl]
  | cons frame frames ih =>
      rw [List.forall_mem_cons] at h
      rw [write_cons] at hs
      rcases List.prefix_or_prefix_of_prefix hs (List.prefix_append (frame ++ first :: more) _) with
        ⟨missing, hmissing⟩ | ⟨s', rfl⟩
      · by_cases hnil : missing = []
        · have hs : s = frame ++ first :: more ++ [] := by rw [hnil] at hmissing; simpa using hmissing
          rw [hs, drain_of_some (cut_frame h.1 []), drain_of_none rfl]
          exact List.cons_prefix_cons.mpr ⟨rfl, List.nil_prefix⟩
        · rw [drain_of_none (cut_of_part h.1 hmissing hnil)]
          exact List.nil_prefix
      · rw [drain_of_some (cut_frame h.1 s')]
        exact List.cons_prefix_cons.mpr ⟨rfl, ih h.2 ((List.prefix_append_right_inj _).mp hs)⟩

/-- **Frames are read as soon as all of them is there, and not before.** -/
theorem prefix_frames_iff {s : List α} {written : List (List α)} (h : ∀ frame ∈ written, first ∉ frame) :
    written <+: (drain first more s).1 ↔ write first more written <+: s := by
  constructor
  · intro hprefix
    have hs : write first more (drain first more s).1 ++ (drain first more s).2 = s := write_drain s
    exact (write_mono hprefix).trans ⟨_, hs⟩
  · rintro ⟨rest, rfl⟩
    rw [drain_write h]
    exact List.prefix_append _ _

end Separator

end OpaqueStellar.Lib.Framing
