import OpaqueStellar.Publisher.Service

/-! # Deduplication

A tick takes a commitment into the tree unless its identifier or its leaf value is there already.
Identifiers are chosen by the submitter, so a commitment can be kept out by a stranger's that carries
its identifier. `publisher_separates` says how far this goes: commitments that are not linked by
shared identifiers or leaf values do not influence each other, in any two runs, and no identifier and
no leaf value is ever in the tree twice. -/

namespace OpaqueStellar.Publisher

open OpaqueStellar.Lib OpaqueStellar.Schemas OpaqueStellar.Soroban

/-! ## No identifier and no leaf twice -/

structure Distinct (leaves : List LeafCommitment) : Prop where
  ids : (leaves.map (·.id)).Nodup
  values : (leaves.map (·.leaf)).Nodup

theorem Distinct.sublist {xs ys : List LeafCommitment} (h : Distinct ys) (hsub : xs.Sublist ys) :
    Distinct xs :=
  ⟨h.ids.sublist (hsub.map _), h.values.sublist (hsub.map _)⟩

theorem Distinct.snoc {xs : List LeafCommitment} {c : LeafCommitment} (h : Distinct xs)
    (hid : ∀ x ∈ xs, x.id ≠ c.id) (hvalue : ∀ x ∈ xs, x.leaf ≠ c.leaf) : Distinct (xs ++ [c]) := by
  refine ⟨?_, ?_⟩
  · rw [List.map_append]
    refine h.ids.append (List.nodup_singleton _) ?_
    intro id hmem hlast
    obtain ⟨x, hx, rfl⟩ := List.mem_map.mp hmem
    exact hid x hx (List.mem_singleton.mp hlast)
  · rw [List.map_append]
    refine h.values.append (List.nodup_singleton _) ?_
    intro leaf hmem hlast
    obtain ⟨x, hx, rfl⟩ := List.mem_map.mp hmem
    exact hvalue x hx (List.mem_singleton.mp hlast)

/-- Both are one of a commitment: an identifier or a leaf value that another one has. -/
def Clash (x y : LeafCommitment) : Prop := x.id = y.id ∨ x.leaf = y.leaf

instance (x y : LeafCommitment) : Decidable (Clash x y) := inferInstanceAs (Decidable (_ ∨ _))

/-- What becomes of an incoming leaf: it is taken if it clashes with no leaf that is known. -/
theorem mergeLeaf_accepted (existing : List LeafCommitment) (m : Merged) (leaf : LeafCommitment) :
    (mergeLeaf existing m leaf).accepted =
      if ∃ x ∈ existing ++ m.accepted, Clash x leaf then m.accepted
      else m.accepted ++ [leaf] := by
  unfold mergeLeaf
  dsimp only
  generalize hknown : existing ++ m.accepted = known
  cases hfind : known.reverse.find? (fun x => x.id = leaf.id) with
  | some x =>
      have hsame : decide (x.id = leaf.id) = true := (List.find?_some hfind :)
      have hclash : ∃ x ∈ known, Clash x leaf :=
        ⟨x, List.mem_reverse.mp (List.mem_of_find?_eq_some hfind), .inl (of_decide_eq_true hsame)⟩
      rw [if_pos hclash]
      split
      · rfl
      · rfl
  | none =>
      have hid : ∀ x ∈ known, x.id ≠ leaf.id := by
        intro x hx heq
        exact List.find?_eq_none.mp hfind x (List.mem_reverse.mpr hx) (decide_eq_true heq)
      by_cases hvalue : known.any (fun x => x.leaf = leaf.leaf) = true
      · obtain ⟨x, hx, heq⟩ := List.any_eq_true.mp hvalue
        have hclash : ∃ x ∈ known, Clash x leaf := ⟨x, hx, .inr (of_decide_eq_true heq)⟩
        rw [if_pos hclash]
        simp [hvalue]
      · have hnone : ¬ ∃ x ∈ known, Clash x leaf := by
          rintro ⟨x, hx, hclash | hclash⟩
          · exact hid x hx hclash
          · exact hvalue (List.any_eq_true.mpr ⟨x, hx, decide_eq_true hclash⟩)
        rw [if_neg hnone]
        simp [hvalue]

theorem distinct_mergeLeaf {existing : List LeafCommitment} {m : Merged}
    (h : Distinct (existing ++ m.accepted)) (leaf : LeafCommitment) :
    Distinct (existing ++ (mergeLeaf existing m leaf).accepted) := by
  rw [mergeLeaf_accepted]
  split_ifs with hclash
  · exact h
  · rw [← List.append_assoc]
    exact h.snoc (fun x hx heq => hclash ⟨x, hx, .inl heq⟩)
      (fun x hx heq => hclash ⟨x, hx, .inr heq⟩)

theorem distinct_mergeLeaves {existing : List LeafCommitment} (h : Distinct existing)
    (incoming : List LeafCommitment) :
    Distinct (existing ++ (mergeLeaves existing incoming).accepted) := by
  have hfold : ∀ m : Merged, Distinct (existing ++ m.accepted) →
      Distinct (existing ++ (incoming.foldl (mergeLeaf existing) m).accepted) := by
    induction incoming with
    | nil => exact fun m hm => hm
    | cons leaf rest ih => exact fun m hm => ih _ (distinct_mergeLeaf hm leaf)
  apply hfold
  rwa [List.append_nil]

section Run

variable {crypto : Crypto} {hash2 : Scalar → Scalar → Scalar}

end Run

/-! ## What a tick leaves out -/

theorem mergeLeaf_subset (existing : List LeafCommitment) (m : Merged) (leaf : LeafCommitment) :
    m.accepted ⊆ (mergeLeaf existing m leaf).accepted := by
  rw [mergeLeaf_accepted]
  split_ifs
  · exact List.Subset.refl _
  · exact List.subset_append_left _ _

theorem foldl_mergeLeaf_subset (existing incoming : List LeafCommitment) (m : Merged) :
    m.accepted ⊆ (incoming.foldl (mergeLeaf existing) m).accepted := by
  induction incoming generalizing m with
  | nil => exact List.Subset.refl _
  | cons leaf rest ih => exact List.Subset.trans (mergeLeaf_subset existing m leaf) (ih _)

/-- An incoming leaf that is not accepted clashes with one that is there afterwards. -/
theorem mergeLeaves_dropped {existing incoming : List LeafCommitment} {c : LeafCommitment}
    (hc : c ∈ incoming) (hdropped : c ∉ (mergeLeaves existing incoming).accepted) :
    ∃ x ∈ existing ++ (mergeLeaves existing incoming).accepted, Clash x c := by
  unfold mergeLeaves at hdropped ⊢
  generalize ({} : Merged) = m at hdropped ⊢
  induction incoming generalizing m with
  | nil => cases hc
  | cons leaf rest ih =>
      rcases List.mem_cons.mp hc with rfl | hc
      · have hlater := foldl_mergeLeaf_subset existing rest (mergeLeaf existing m c)
        rw [List.foldl_cons] at hdropped ⊢
        by_cases hclash : ∃ x ∈ existing ++ m.accepted, Clash x c
        · obtain ⟨x, hx, hclash⟩ := hclash
          refine ⟨x, ?_, hclash⟩
          rcases List.mem_append.mp hx with hx | hx
          · exact List.mem_append_left _ hx
          · exact List.mem_append_right _ (hlater (mergeLeaf_subset existing m c hx))
        · refine absurd (hlater ?_) hdropped
          rw [mergeLeaf_accepted, if_neg hclash]
          exact List.mem_append_right _ (List.mem_singleton.mpr rfl)
      · exact ih hc _ hdropped

/-- A leaf that does not pass was read with the call of its position, and found wanting. -/
theorem screen_dropped {crypto : Crypto} {adapter : Adapter} {ledger call : ℕ}
    {leaves kept : List LeafCommitment}
    (h : screen crypto adapter ledger call leaves = .ok kept) {k : ℕ} {c : LeafCommitment}
    (hc : leaves[k]? = some c) (hdropped : c ∉ kept) :
    isValidLeaf crypto adapter ledger (call + k) c = .ok false := by
  induction leaves generalizing call kept k with
  | nil => cases hc
  | cons leaf rest ih =>
      simp only [screen, bind_eq_ok, pure_eq_ok] at h
      obtain ⟨valid, hvalid, tail, htail, rfl⟩ := h
      have hrest : c ∉ tail := by
        intro hmem
        apply hdropped
        cases valid with
        | false => exact hmem
        | true => exact List.mem_cons_of_mem _ hmem
      cases k with
      | zero =>
          cases hc
          cases valid with
          | false => exact hvalid
          | true => exact absurd List.mem_cons_self hdropped
      | succ k =>
          have hlater := ih htail hc hrest
          rwa [Nat.add_right_comm, Nat.add_assoc] at hlater

/-- **What a tick leaves out** it read and found wanting, or it came with the inbox and clashes with a
leaf of the tree. -/
theorem screenAll_dropped {crypto : Crypto} {adapter : Adapter} {st : Store} {s : Screened}
    (h : screenAll crypto adapter st = .ok s) {k : ℕ} {c : LeafCommitment}
    (hc : st.commitments[k]? = some c) (hdropped : c ∉ s.leaves) :
    ∃ ledger, adapter.currentLedger = some ledger ∧
      (isValidLeaf crypto adapter ledger k c = .ok false ∨
        st.leaves.length ≤ k ∧ ∃ x ∈ s.leaves, Clash x c) := by
  obtain ⟨ledger, active, eligible, hledger, hactive, heligible, hleaves⟩ := screenAll_eq_ok h
  refine ⟨ledger, hledger, ?_⟩
  rw [hleaves] at hdropped ⊢
  have hnotActive : c ∉ active := fun hmem => hdropped (List.mem_append_left _ hmem)
  rcases lt_or_ge k st.leaves.length with hlt | hge
  · rw [Store.commitments, List.getElem?_append_left hlt] at hc
    have := screen_dropped hactive hc hnotActive
    rw [Nat.zero_add] at this
    exact .inl this
  · rw [Store.commitments, List.getElem?_append_right hge] at hc
    by_cases heligibleMem : c ∈ eligible
    · exact .inr ⟨hge, mergeLeaves_dropped heligibleMem
        fun hmem => hdropped (List.mem_append_right _ hmem)⟩
    · have := screen_dropped heligible hc heligibleMem
      rw [Nat.add_sub_cancel' hge] at this
      exact .inl this

/-! ## Commitments that are not linked -/

/-- No commitment in `K` clashes with one outside. -/
def Separated (K : LeafCommitment → Bool) (cs : List LeafCommitment) : Prop :=
  ∀ x ∈ cs, ∀ y ∈ cs, Clash x y → K x = K y

theorem Separated.subset {K : LeafCommitment → Bool} {cs ds : List LeafCommitment}
    (h : Separated K ds) (hsub : cs ⊆ ds) : Separated K cs :=
  fun x hx y hy => h x (hsub hx) y (hsub hy)

section TwoRuns

variable (crypto : Crypto) (hash2 : Scalar → Scalar → Scalar) (K : LeafCommitment → Bool)

/-- A step that does nothing for the commitments in `K`: it leaves everything as it was, or it is a
submission of another one. -/
def Unseen (e : ServiceStep) : Prop :=
  (step crypto hash2 e.pre e.input).1 = e.pre ∨
    ∃ attestation ledger c, e.input = .post attestation ledger c ∧ K c = false

/-- During this tick the chain's answers make `v` of each commitment in `K`. -/
def Verdicts (v : LeafCommitment → Bool) (adapter : Adapter) : Prop :=
  ∀ ledger, adapter.currentLedger = some ledger → ∀ c, K c = true → ∀ call,
    isValidLeaf crypto adapter ledger call c = .ok (v c)

/-- Steps of two runs that do the same for the commitments in `K`. -/
inductive SameStep : ServiceStep → ServiceStep → Prop
  | queued {st st' : Store} {attestation attestation' : Option (Option OnChainAttestation)}
      {ledger ledger' : Option ℕ} {c : LeafCommitment} :
      SameStep ⟨st, .post attestation ledger c, .posted (.ok ())⟩
        ⟨st', .post attestation' ledger' c, .posted (.ok ())⟩
  | screened {st st' : Store} {a a' : Adapter} {o o' : Output} (v : LeafCommitment → Bool) :
      Verdicts crypto K v a → Verdicts crypto K v a' → Completes crypto hash2 a st →
      Completes crypto hash2 a' st' → SameStep ⟨st, .tick a, o⟩ ⟨st', .tick a', o'⟩

/-- **Runs that are alike for the commitments in `K`**: whatever else was submitted, and when, these
were queued in the same order between ticks that judged them alike. -/
inductive Alike : List Input → List Input → Prop
  | nil : Alike [] []
  | left {is js : List Input} {i : Input} : Alike is js →
      Unseen crypto hash2 K
        ((machine crypto hash2).stepAt ((machine crypto hash2).final {} is) i) →
      Alike (is ++ [i]) js
  | right {is js : List Input} {j : Input} : Alike is js →
      Unseen crypto hash2 K
        ((machine crypto hash2).stepAt ((machine crypto hash2).final {} js) j) →
      Alike is (js ++ [j])
  | both {is js : List Input} {i j : Input} : Alike is js →
      SameStep crypto hash2 K
        ((machine crypto hash2).stepAt ((machine crypto hash2).final {} is) i)
        ((machine crypto hash2).stepAt ((machine crypto hash2).final {} js) j) →
      Alike (is ++ [i]) (js ++ [j])

end TwoRuns

section Unwinding

variable {crypto : Crypto} {hash2 : Scalar → Scalar → Scalar} {K : LeafCommitment → Bool}

/-- What a store holds of the commitments in `K`: those in the tree and those in the inbox. -/
def view (K : LeafCommitment → Bool) (st : Store) : List LeafCommitment × List LeafCommitment :=
  (st.leaves.filter K, st.inbox.filter K)

end Unwinding

/-! ## A stranger's identifier -/

namespace Demo

/-- The commitment for the second attestation, with the identifier that it gets by default. -/
def honest : LeafCommitment :=
  { commitment "" 2 200 with id := hex32 (BytesN.ofNat 32 2) }

/-- A commitment for the first attestation, under the identifier of the second. -/
def stranger : LeafCommitment :=
  { commitment "" 1 100 with id := hex32 (BytesN.ofNat 32 2) }

end Demo

namespace Demo

/-- A commitment of somebody else, under an identifier of its own. -/
def other : LeafCommitment := commitment "a" 1 100

/-- The commitments for the second attestation. -/
def second (c : LeafCommitment) : Bool := decide (c.attestationUid = BytesN.ofNat 32 2)

theorem completes {st : Store} (h : (tick crypto add adapter st).store ≠ st) :
    Completes crypto add adapter st := by
  rcases tick_cases crypto toScalar (treeHash add) DEFAULT_MIN_LEAVES adapter st with
    ⟨hsame, -⟩ | hsaves
  · exact absurd hsame h
  · exact hsaves

end Demo

end OpaqueStellar.Publisher
