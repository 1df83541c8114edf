import Mathlib.Data.List.Basic

/-! # Maps that remember the order of insertion

A `Dict` lists its entries in the order in which their keys were first set. Setting a key again
keeps its place, and deleting it gives the place up.

`Distinct` says that no key stands twice, which all operations keep; what is true of a map's entries
is then what is true of its values. -/

namespace OpaqueStellar.Lib

abbrev Dict (K V : Type) := List (K × V)

namespace Dict

variable {K V : Type} [DecidableEq K]

def find (d : Dict K V) (k : K) : Option V := (d.find? fun e => e.1 = k).map (·.2)

def set (d : Dict K V) (k : K) (v : V) : Dict K V :=
  if k ∈ d.map (·.1) then d.map fun e => if e.1 = k then (k, v) else e else d ++ [(k, v)]

def delete (d : Dict K V) (k : K) : Dict K V := d.filter fun e => e.1 ≠ k

theorem mem_of_find {d : Dict K V} {k : K} {v : V} (h : d.find k = some v) : (k, v) ∈ d := by
  unfold find at h
  obtain ⟨e, he, rfl⟩ := Option.map_eq_some_iff.mp h
  have hk : e.1 = k := by simpa using List.find?_some he
  exact hk ▸ List.mem_of_find?_eq_some he

theorem find_eq_none {d : Dict K V} {k : K} : d.find k = none ↔ k ∉ d.map (·.1) := by
  unfold find
  rw [Option.map_eq_none_iff, List.find?_eq_none, List.mem_map]
  constructor
  · rintro h ⟨e, he, rfl⟩
    exact h e he (by simp)
  · intro h e he
    simpa using fun hk => h ⟨e, he, hk⟩

theorem mem_delete {d : Dict K V} {k : K} {e : K × V} : e ∈ d.delete k ↔ e ∈ d ∧ e.1 ≠ k := by
  simp [delete]

theorem mem_set {d : Dict K V} {k : K} {v : V} {e : K × V} (h : e ∈ d.set k v) :
    e = (k, v) ∨ e ∈ d ∧ e.1 ≠ k := by
  unfold set at h
  split_ifs at h with hk
  · obtain ⟨e', he', rfl⟩ := List.mem_map.mp h
    split_ifs with hek
    · exact .inl rfl
    · exact .inr ⟨he', hek⟩
  · rcases List.mem_append.mp h with he | he
    · refine .inr ⟨he, ?_⟩
      rintro rfl
      exact hk (List.mem_map_of_mem he)
    · exact .inl (List.mem_singleton.mp he)

theorem mem_set_self (d : Dict K V) (k : K) (v : V) : (k, v) ∈ d.set k v := by
  unfold set
  split_ifs with hk
  · obtain ⟨e, he, rfl⟩ := List.mem_map.mp hk
    exact List.mem_map.mpr ⟨e, he, by simp⟩
  · exact List.mem_append_right _ (List.mem_singleton.mpr rfl)

theorem mem_set_of_ne {d : Dict K V} {k : K} {v : V} {e : K × V} (he : e ∈ d) (hk : e.1 ≠ k) :
    e ∈ d.set k v := by
  unfold set
  split_ifs
  · exact List.mem_map.mpr ⟨e, he, by simp [hk]⟩
  · exact List.mem_append_left _ he

/-- The keys after setting one. -/
theorem mem_keys_set {d : Dict K V} {k k' : K} {v : V} :
    k' ∈ (d.set k v).map (·.1) ↔ k' = k ∨ k' ∈ d.map (·.1) := by
  constructor
  · intro h
    obtain ⟨e, he, rfl⟩ := List.mem_map.mp h
    rcases mem_set he with rfl | ⟨he, -⟩
    · exact .inl rfl
    · exact .inr (List.mem_map_of_mem he)
  · intro h
    by_cases hk : k' = k
    · subst hk
      exact List.mem_map.mpr ⟨_, mem_set_self d k' v, rfl⟩
    · obtain ⟨e, he, rfl⟩ := List.mem_map.mp (h.resolve_left hk)
      exact List.mem_map_of_mem (mem_set_of_ne he hk)

/-! ## Reading back -/

theorem find_cons_self (k : K) (v : V) (d : Dict K V) : find ((k, v) :: d) k = some v := by
  simp [find]

theorem find_cons_of_ne {k k' : K} {v : V} {d : Dict K V} (h : k ≠ k') :
    find ((k, v) :: d) k' = find d k' := by
  simp [find, h]

theorem find_append_of_none {d d' : Dict K V} {k : K} (h : d.find k = none) :
    find (d ++ d') k = find d' k := by
  unfold find at h ⊢
  rw [Option.map_eq_none_iff] at h
  rw [List.find?_append, h, Option.none_or]

theorem find_append_of_some {d d' : Dict K V} {k : K} {v : V} (h : d.find k = some v) :
    find (d ++ d') k = some v := by
  unfold find at h ⊢
  obtain ⟨e, he, rfl⟩ := Option.map_eq_some_iff.mp h
  rw [List.find?_append, he, Option.some_or, Option.map_some]

/-- Changing the value at a key. -/
theorem find_map (d : Dict K V) (k k' : K) (v : V) :
    find (d.map fun e => if e.1 = k then (k, v) else e) k' =
      if k' = k then (d.find k').map fun _ => v else d.find k' := by
  induction d with
  | nil => simp [find]
  | cons e d ih =>
    obtain ⟨k₀, v₀⟩ := e
    rw [List.map_cons]
    by_cases hk : k₀ = k
    · subst hk
      simp only [if_true]
      by_cases hk' : k' = k₀
      · subst hk'
        simp [find_cons_self]
      · rw [find_cons_of_ne (Ne.symm hk'), find_cons_of_ne (Ne.symm hk'), ih]
    · simp only [if_neg hk]
      by_cases hk' : k₀ = k'
      · subst hk'
        simp [find_cons_self, hk]
      · rw [find_cons_of_ne hk', find_cons_of_ne hk', ih]

@[simp] theorem find_set_self (d : Dict K V) (k : K) (v : V) : (d.set k v).find k = some v := by
  unfold set
  split_ifs with hk
  · rw [find_map, if_pos rfl]
    rcases hfind : d.find k with - | v'
    · exact absurd hk (find_eq_none.mp hfind)
    · rfl
  · rw [find_append_of_none (find_eq_none.mpr hk), find_cons_self]

theorem find_set_of_ne (d : Dict K V) {k k' : K} (v : V) (h : k' ≠ k) :
    (d.set k v).find k' = d.find k' := by
  unfold set
  split_ifs with hk
  · rw [find_map, if_neg h]
  · rcases hfind : d.find k' with - | v'
    · rw [find_append_of_none hfind, find_cons_of_ne (Ne.symm h)]
      rfl
    · exact find_append_of_some hfind

@[simp] theorem find_delete_self (d : Dict K V) (k : K) : (d.delete k).find k = none := by
  rw [find_eq_none]
  intro hk
  obtain ⟨e, he, rfl⟩ := List.mem_map.mp hk
  exact (mem_delete.mp he).2 rfl

theorem find_delete_of_ne (d : Dict K V) {k k' : K} (h : k' ≠ k) :
    (d.delete k).find k' = d.find k' := by
  unfold delete
  induction d with
  | nil => rfl
  | cons e d ih =>
    obtain ⟨k₀, v₀⟩ := e
    by_cases hk : k₀ = k
    · subst hk
      rw [List.filter_cons_of_neg (by simp), find_cons_of_ne (Ne.symm h), ih]
    · rw [List.filter_cons_of_pos (by simpa using hk)]
      by_cases hk' : k₀ = k'
      · subst hk'
        rw [find_cons_self, find_cons_self]
      · rw [find_cons_of_ne hk', find_cons_of_ne hk', ih]

/-! ## Keys that stand once -/

def Distinct (d : Dict K V) : Prop := (d.map (·.1)).Nodup

theorem find_of_mem {d : Dict K V} (h : d.Distinct) {k : K} {v : V} (he : (k, v) ∈ d) :
    d.find k = some v := by
  induction d with
  | nil => cases he
  | cons e d ih =>
    obtain ⟨hnew, hd⟩ := List.nodup_cons.mp h
    rcases List.mem_cons.mp he with rfl | he
    · exact find_cons_self k v d
    · rw [find_cons_of_ne]
      · exact ih hd he
      · intro hk
        subst hk
        exact hnew (List.mem_map.mpr ⟨_, he, rfl⟩)

theorem set_of_find {d : Dict K V} (h : d.Distinct) {k : K} {v : V} (hv : d.find k = some v) :
    d.set k v = d := by
  have hkey : k ∈ d.map (·.1) := List.mem_map_of_mem (mem_of_find hv)
  rw [set, if_pos hkey]
  conv_rhs => rw [← List.map_id d]
  refine List.map_congr_left ?_
  intro e he
  split_ifs with hk
  · -- the one entry with the key
    subst hk
    have hfound := find_of_mem h he
    rw [hv] at hfound
    rw [Option.some.inj hfound]
    rfl
  · rfl

/-- Setting the key of an entry, with what stands before and after it. -/
theorem set_middle {d d' : Dict K V} {k : K} {v : V} (h : k ∉ d.map (·.1)) (h' : k ∉ d'.map (·.1))
    (v' : V) : (d ++ (k, v) :: d').set k v' = d ++ (k, v') :: d' := by
  have hsame : ∀ l : Dict K V, k ∉ l.map (·.1) → l.map (fun e => if e.1 = k then (k, v') else e) = l := by
    intro l hl
    refine (List.map_congr_left fun e he => ?_).trans (List.map_id l)
    rw [if_neg]
    · rfl
    · rintro rfl
      exact hl (List.mem_map_of_mem he)
  have hmem : k ∈ (d ++ (k, v) :: d').map (·.1) := by simp
  rw [set, if_pos hmem, List.map_append, List.map_cons, hsame d h, hsame d' h', if_pos rfl]

omit [DecidableEq K] in
/-- Values may change where they stand. -/
theorem distinct_map {d : Dict K V} (h : d.Distinct) {f : K × V → K × V} (hf : ∀ e, (f e).1 = e.1) :
    Distinct (d.map f) := by
  have hkeys : (d.map f).map (·.1) = d.map (·.1) := by
    rw [List.map_map]
    exact List.map_congr_left fun e _ => hf e
  unfold Distinct
  rw [hkeys]
  exact h

theorem distinct_set {d : Dict K V} (h : d.Distinct) (k : K) (v : V) : (d.set k v).Distinct := by
  unfold set
  split_ifs with hk
  · refine distinct_map h fun e => ?_
    split_ifs with he
    · exact he.symm
    · rfl
  · unfold Distinct
    rw [List.map_append, List.nodup_append]
    refine ⟨h, by simp, ?_⟩
    intro a ha b hb
    rw [List.map_singleton, List.mem_singleton] at hb
    intro hab
    rw [hab, hb] at ha
    exact hk ha

theorem distinct_delete {d : Dict K V} (h : d.Distinct) (k : K) : (d.delete k).Distinct :=
  h.sublist (List.filter_sublist.map _)

/-- Each value becomes another or goes. -/
def filterValues (f : V → Option V) (d : Dict K V) : Dict K V :=
  d.filterMap fun e => (f e.2).map fun v => (e.1, v)

omit [DecidableEq K] in
theorem filterValues_cons (f : V → Option V) (k : K) (v : V) (d : Dict K V) :
    filterValues f ((k, v) :: d) =
      match f v with
      | some v' => (k, v') :: filterValues f d
      | none => filterValues f d := by
  unfold filterValues
  rw [List.filterMap_cons]
  rcases f v with - | v' <;> rfl

omit [DecidableEq K] in
theorem keys_filterValues_sublist (f : V → Option V) (d : Dict K V) :
    ((filterValues f d).map (·.1)).Sublist (d.map (·.1)) := by
  induction d with
  | nil => exact .slnil
  | cons e d ih =>
    obtain ⟨k, v⟩ := e
    rw [filterValues_cons, List.map_cons]
    split
    · exact ih.cons_cons k
    · exact ih.cons k

omit [DecidableEq K] in
theorem distinct_filterValues {d : Dict K V} (h : d.Distinct) (f : V → Option V) :
    (filterValues f d).Distinct := h.sublist (keys_filterValues_sublist f d)

theorem find_filterValues {d : Dict K V} (h : d.Distinct) (f : V → Option V) (k : K) :
    (filterValues f d).find k = (d.find k).bind f := by
  induction d with
  | nil => rfl
  | cons e d ih =>
    obtain ⟨k₀, v₀⟩ := e
    obtain ⟨hk₀, hd⟩ := List.nodup_cons.mp h
    rw [filterValues_cons]
    by_cases hk : k₀ = k
    · subst hk
      rw [find_cons_self, Option.bind_some]
      split
      next v' hv' => rw [find_cons_self, hv']
      next hv' =>
        -- the key does not come again
        rw [ih hd, find_eq_none.mpr hk₀, hv']
        rfl
    · rw [find_cons_of_ne hk]
      split
      · rw [find_cons_of_ne hk]
        exact ih hd
      · exact ih hd

/-! ## Other values at the same keys -/

section MapValues

variable {W : Type} (f : V → W) (d : Dict K V) (k : K)

def mapValues : Dict K W := d.map fun e => (e.1, f e.2)

omit [DecidableEq K] in
theorem keys_mapValues : (mapValues f d).map (·.1) = d.map (·.1) := by
  unfold mapValues
  rw [List.map_map]
  rfl

theorem find_mapValues : (mapValues f d).find k = (d.find k).map f := by
  induction d with
  | nil => rfl
  | cons e d ih =>
    obtain ⟨k₀, v₀⟩ := e
    show find ((k₀, f v₀) :: mapValues f d) k = _
    by_cases hk : k₀ = k
    · subst hk
      rw [find_cons_self, find_cons_self, Option.map_some]
    · rw [find_cons_of_ne hk, find_cons_of_ne hk, ih]

theorem mapValues_set (v : V) : mapValues f (d.set k v) = (mapValues f d).set k (f v) := by
  unfold set
  rw [keys_mapValues]
  split_ifs
  · unfold mapValues
    rw [List.map_map, List.map_map]
    apply List.map_congr_left
    intro e _
    by_cases hk : e.1 = k
    · simp [hk]
    · simp [hk]
  · simp [mapValues]

theorem mapValues_delete : mapValues f (d.delete k) = (mapValues f d).delete k := by
  unfold mapValues delete
  rw [List.filter_map]
  rfl

end MapValues

/-- Entries that are set one after the other into a map that has none of their keys. -/
theorem foldl_set (d acc : Dict K V) (h : Distinct (acc ++ d)) :
    d.foldl (fun acc e => acc.set e.1 e.2) acc = acc ++ d := by
  induction d generalizing acc with
  | nil => rw [List.foldl_nil, List.append_nil]
  | cons e d ih =>
    have hnew : e.1 ∉ acc.map (·.1) := by
      unfold Distinct at h
      rw [List.map_append, List.map_cons, List.nodup_append] at h
      intro hmem
      exact h.2.2 e.1 hmem e.1 List.mem_cons_self rfl
    have hset : acc.set e.1 e.2 = acc ++ [e] := by rw [set, if_neg hnew]
    rw [List.foldl_cons, hset, ih (acc ++ [e]) (by rwa [List.append_assoc]), List.append_assoc]
    rfl

end Dict

end OpaqueStellar.Lib
