import QuadraticVoting.Chain

/-! `vote_multiple_proposals` against `vote_proposal`. Outside its deadline branch the batch call
is the single vote call repeated: a batch of one `Aye` that commits the whole reserve is
`vote_proposal` with `Aye`, and a batch that names each proposal once, with amounts that sum
below the `Balance` bound, leaves what its items leave when sent one at a time as batches of
one. Either way a batch is recorded whole or not at all: the loop writes its records one by
one, and the extrinsic's rollback discards those of a batch that fails. -/
namespace QuadraticVoting.Pallet

variable {c : Config} {s : State} {now : ℕ}

/-- Two extrinsics that succeed on the same storages leave the same storage. -/
theorem applyExtrinsic_congr {o o' : Origin} {C C' : Call} {now' : ℕ}
    (h : ∀ t, (∃ es, dispatch c now s o C = .ok (t, es)) ↔ ∃ es, dispatch c now' s o' C' = .ok (t, es)) :
    applyExtrinsic c now s o C = applyExtrinsic c now' s o' C' := by
  rcases applyExtrinsic_cases (c := c) (s := s) now' o' C' with ⟨es, hd⟩ | he
  · obtain ⟨_, hd'⟩ := (h _).mpr ⟨es, hd⟩
    exact applyExtrinsic_of_ok hd'
  · rcases applyExtrinsic_cases (c := c) (s := s) now o C with ⟨es, hd⟩ | he'
    · obtain ⟨_, hd'⟩ := (h _).mp ⟨es, hd⟩
      rw [applyExtrinsic_of_ok hd']
    · rw [he, he']

/-- A batch of one `Aye` that commits the whole reserve is `vote_proposal` with `Aye`, while the
proposal's end block is ahead and the reserve is positive: the two calls succeed on the same
storages and leave the same storage. -/
theorem voteMultipleProposals_single {v p : ℕ}
    (hlive : ∀ pr, s.proposals.lookup p = some pr → now < pr.endBlock)
    (hpos : 0 < s.balances.reserved v) (hlt : s.balances.reserved v < 2 ^ c.balanceBits) :
    applyExtrinsic c now s (.signed v) (.voteMultipleProposals [(p, s.balances.reserved v, .aye)]) =
      applyExtrinsic c now s (.signed v) (.voteProposal p .aye) := by
  have hsqrt : Nat.sqrt (s.balances.reserved v) < 2 ^ c.balanceBits :=
    (Nat.sqrt_le_self _).trans_lt hlt
  refine applyExtrinsic_congr fun t => ?_
  cases hp : s.proposals.lookup p with
  | none => simp [dispatch, voteMultipleProposals_eq_ok, voteProposal_eq_ok, hp]
  | some pr =>
    have hend := hlive pr hp
    by_cases hvoted : (p, v) ∈ s.ayeVotes
    · simp [dispatch, voteMultipleProposals_eq_ok, voteProposal_eq_ok, hp, hvoted, not_le.mpr hend]
    · simp [dispatch, voteMultipleProposals_eq_ok, voteProposal_eq_ok, hp, hvoted, hend, not_le.mpr hend,
        tallyBatch, hpos, Nat.mod_eq_of_lt hlt, Nat.mod_eq_of_lt hsqrt, hsqrt, Finmap.lookup_eq_none.mpr hvoted]

theorem voteMultipleProposals_single_twoProposals : ∃ s, Reachable templateConfig s ∧
    s.balances.reserved 1 = 20 ∧ (∀ pr, s.proposals.lookup 1 = some pr → 0 < pr.endBlock) ∧
    0 < s.balances.reserved 1 ∧ s.balances.reserved 1 < 2 ^ templateConfig.balanceBits ∧
    applyExtrinsic templateConfig 0 s (.signed 1)
        (.voteMultipleProposals [(1, s.balances.reserved 1, .aye)]) =
      applyExtrinsic templateConfig 0 s (.signed 1) (.voteProposal 1 .aye) := by
  obtain ⟨s, hs, h⟩ := twoProposalsRun_reserve (k := 20) (by decide) (by decide)
  have h20 : s.balances.reserved 1 = 20 := (h.accounts _ (List.mem_singleton_self _)).2
  have hlive : ∀ pr, s.proposals.lookup 1 = some pr → 0 < pr.endBlock :=
    twoProposals_live h (by decide) (1, 0, .aye) (List.mem_singleton_self _)
  have hpos : 0 < s.balances.reserved 1 := by rw [h20]; decide
  have hlt : s.balances.reserved 1 < 2 ^ templateConfig.balanceBits := by rw [h20]; decide
  exact ⟨s, hs, h20, hlive, hpos, hlt, voteMultipleProposals_single hlive hpos hlt⟩

theorem tallyBatch_cons {v : ℕ} (item : ℕ × ℕ × Vote) (items : List (ℕ × ℕ × Vote))
    (m : Finmap (fun _ : ℕ × ℕ => ℕ)) :
    tallyBatch c v (item :: items) m = (tallyBatch c v [item] m).bind (tallyBatch c v items) := by
  obtain ⟨p, n, vote⟩ := item
  by_cases hv : vote = .aye
  · by_cases hlt : (m.lookup (p, v)).getD 0 + Nat.sqrt n < 2 ^ c.balanceBits <;>
      simp [tallyBatch, hv, hlt]
  · simp [tallyBatch, hv]

section tallyBatch

variable {who : ℕ} {items : List (ℕ × ℕ × Vote)} {m m' : Finmap (fun _ : ℕ × ℕ => ℕ)}

/-- The loop of `vote_multiple_proposals` keeps every record and writes one for each `Aye`. -/
theorem mem_tallyBatch (h : tallyBatch c who items m = some m') {k : ℕ × ℕ} :
    k ∈ m' ↔ k ∈ m ∨ ∃ item ∈ items, item.2.2 = .aye ∧ k = (item.1, who) := by
  induction items generalizing m with
  | nil => cases h; simp only [List.not_mem_nil, false_and, exists_false, or_false]
  | cons item items ih =>
    obtain ⟨p, n, v⟩ := item
    simp only [List.mem_cons, exists_eq_or_imp]
    by_cases hv : v = .aye
    · simp only [tallyBatch, hv, if_true] at h
      split_ifs at h
      rw [ih h, Finmap.mem_insert, hv]
      simp only [true_and]
      rw [or_assoc, or_left_comm]
    · simp only [tallyBatch, hv, if_false] at h
      simp only [ih h, hv, false_and, false_or]

/-- Without an `Aye` the loop writes nothing. -/
theorem tallyBatch_of_not_aye (h : ∀ item ∈ items, item.2.2 ≠ .aye) :
    tallyBatch c who items m = some m := by
  induction items with
  | nil => rfl
  | cons item items ih =>
    obtain ⟨p, n, v⟩ := item
    simp only [tallyBatch, h _ (List.mem_cons_self _ _), if_false]
    exact ih fun i hi => h i (List.mem_cons_of_mem _ hi)

end tallyBatch

/-- Items naming distinct proposals in progress whose end blocks are ahead, with no record of
`v` yet and amounts that sum within `v`'s reserve, can be sent one at a time as batches of one:
each succeeds, and together they leave the table the whole batch computes. -/
theorem run_single_batches {v : ℕ} :
    ∀ {s : State} {items : List (ℕ × ℕ × Vote)} {m : Finmap (fun _ : ℕ × ℕ => ℕ)},
      v ∈ s.registeredVoters →
      (∀ item ∈ items, ∃ pr, s.proposals.lookup item.1 = some pr ∧ pr.status = .inProgress ∧
        now < pr.endBlock) →
      (items.map (·.1)).Nodup → (∀ item ∈ items, (item.1, v) ∉ s.ayeVotes) →
      (items.map (·.2.1)).sum ≤ s.balances.reserved v →
      (items.map (·.2.1)).sum < 2 ^ c.balanceBits →
      tallyBatch c v items s.ayeVotes = some m →
      run c s (items.map fun i => (now, .signed v, .voteMultipleProposals [i])) =
        .ok { s with ayeVotes := m }
  | s, [], m, _, _, _, _, _, _, ht => by cases ht; rfl
  | s, (p, n, vote) :: items, m, hreg, hact, hnd, hfresh, hres, hsum, ht => by
    obtain ⟨m₁, h₁, hrest⟩ := Option.bind_eq_some.mp ((tallyBatch_cons _ _ _).symm.trans ht)
    simp only [List.map_cons, List.sum_cons, List.nodup_cons, List.mem_map] at hres hsum hnd
    obtain ⟨pr, hp, hst, hend⟩ := hact _ (List.mem_cons_self _ _)
    have hd₁ : dispatch c now s (.signed v) (.voteMultipleProposals [(p, n, vote)]) =
        .ok ({ s with ayeVotes := m₁ }, _) :=
      (voteMultipleProposals_eq_ok c).mpr ⟨v, rfl, hreg, by simpa using ⟨pr, hp, hst⟩,
        by simpa [Nat.mod_eq_of_lt (show n < 2 ^ c.balanceBits by omega)] using (by omega : n ≤ _),
        by simpa using hfresh _ (List.mem_cons_self _ _),
        .inr ⟨by simpa [hp] using hend, m₁, h₁, rfl⟩⟩
    have hfresh₁ : ∀ item ∈ items, (item.1, v) ∉ m₁ := fun item hi hmem => by
      by_cases hk : m₁.lookup (item.1, v) = s.ayeVotes.lookup (item.1, v)
      · exact hfresh item (List.mem_cons_of_mem _ hi)
          (Finmap.lookup_isSome.mp (hk ▸ Finmap.lookup_isSome.mpr hmem))
      · obtain ⟨_, hx, -, he⟩ := tallyBatch_lookup_ne c h₁ hk
        rw [List.mem_singleton] at hx
        subst hx
        exact hnd.1 ⟨item, hi, congrArg Prod.fst he⟩
    simp only [List.map_cons, run, hd₁]
    exact run_single_batches hreg (fun i hi => hact i (List.mem_cons_of_mem _ hi)) hnd.2 hfresh₁
      ((Nat.le_add_left _ _).trans hres) ((Nat.le_add_left _ _).trans_lt hsum) hrest

/-- Outside its deadline branch, a successful batch that names each proposal once, with amounts
that sum below the `Balance` bound, is its items sent one at a time as batches of one at the same
block: each of them succeeds, and the run ends in the storage the batch leaves. -/
theorem voteMultipleProposals_eq_run {v : ℕ} {items : List (ℕ × ℕ × Vote)} {t : State}
    {es : List Event} (hd : dispatch c now s (.signed v) (.voteMultipleProposals items) = .ok (t, es))
    (hnd : (items.map (·.1)).Nodup)
    (hlive : ∀ item ∈ items, ∀ pr, s.proposals.lookup item.1 = some pr → now < pr.endBlock)
    (hsum : (items.map (·.2.1)).sum < 2 ^ c.balanceBits) :
    run c s (items.map fun i => (now, .signed v, .voteMultipleProposals [i])) = .ok t := by
  obtain ⟨who, hwho, hreg, hact, htot, hfresh, ⟨⟨item, hi, pr, hp, hend⟩, -⟩ | ⟨-, m, ht, hr⟩⟩ :=
    (voteMultipleProposals_eq_ok c).mp hd
  · exact absurd (hlive item hi pr hp) (not_lt.mpr hend)
  · cases hwho
    cases hr
    rw [foldl_tokens_eq_sum (by omega), zero_add] at htot
    exact run_single_batches hreg
      (fun i hi => let ⟨pr, hp, hst⟩ := hact i hi; ⟨pr, hp, hst, hlive i hi pr hp⟩) hnd hfresh htot hsum ht

theorem voteMultipleProposals_eq_run_twoProposals : ∃ s, Reachable templateConfig s ∧ ∃ t es,
    let items : List (ℕ × ℕ × Vote) := [(1, 16, .aye), (2, 4, .aye)]
    dispatch templateConfig 0 s (.signed 1) (.voteMultipleProposals items) = .ok (t, es) ∧
      (items.map (·.1)).Nodup ∧
      (∀ item ∈ items, ∀ pr, s.proposals.lookup item.1 = some pr → 0 < pr.endBlock) ∧
      (items.map (·.2.1)).sum < 2 ^ templateConfig.balanceBits ∧
      run templateConfig s (items.map fun i => (0, .signed 1, .voteMultipleProposals [i])) = .ok t := by
  obtain ⟨s, hs, h⟩ := twoProposalsRun_reserve (k := 20) (by decide) (by decide)
  have hr : s.balances.reserved 1 = 20 := (h.accounts _ (List.mem_singleton_self _)).2
  have hitems : ∀ item ∈ ([(1, 16, .aye), (2, 4, .aye)] : List (ℕ × ℕ × Vote)),
      item.1 = 1 ∨ item.1 = 2 := by decide
  obtain ⟨m, ht⟩ := Option.isSome_iff_exists.mp
    (by simp only [tallyBatch, ← integerSqrt_eq_sqrt]; decide :
      (tallyBatch templateConfig 1 [(1, 16, .aye), (2, 4, .aye)] ∅).isSome)
  obtain ⟨es, hd⟩ := twoProposals_batchLive h hitems (by rw [hr]; decide) ht
  have hlive := twoProposals_live h hitems
  exact ⟨s, hs, _, es, hd, by decide, hlive, by decide,
    voteMultipleProposals_eq_run hd (by decide) hlive (by decide)⟩

/-- A batch is recorded all or nothing. The loop of `vote_multiple_proposals` writes `AyeVotes`
one item at a time, and a later item can still fail its overflow check after earlier ones are
written; the extrinsic's rollback discards them. So after the extrinsic the vote table gains a
record for every `Aye` of the batch when the call succeeds with every end block ahead, and no
record otherwise. -/
theorem voteMultipleProposals_all_or_nothing {v : ℕ} {items : List (ℕ × ℕ × Vote)} (k : ℕ × ℕ) :
    k ∈ (applyExtrinsic c now s (.signed v) (.voteMultipleProposals items)).ayeVotes ↔
      k ∈ s.ayeVotes ∨
        ((∃ t es, dispatch c now s (.signed v) (.voteMultipleProposals items) = .ok (t, es)) ∧
          (∀ item ∈ items, ∀ pr, s.proposals.lookup item.1 = some pr → now < pr.endBlock) ∧
          ∃ item ∈ items, item.2.2 = .aye ∧ k = (item.1, v)) := by
  rcases hd : dispatch c now s (.signed v) (.voteMultipleProposals items) with f | ⟨t, es⟩
  · rw [applyExtrinsic_of_not_ok fun t es h => by rw [hd] at h; cases h]
    exact ⟨.inl, fun h => h.resolve_right fun ⟨⟨_, _, he⟩, _⟩ => by cases he⟩
  · rw [applyExtrinsic_of_ok hd]
    obtain ⟨who, ⟨⟩, -, -, -, -, ⟨⟨item, hi, pr, hp, hend⟩, pw, -, hr⟩ | ⟨hlive, m, ht, hr⟩⟩ :=
      (voteMultipleProposals_eq_ok c).mp hd <;> cases hr
    · exact ⟨.inl, fun h => h.elim id fun ⟨_, hl, _⟩ => absurd (hl item hi pr hp) (not_lt.mpr hend)⟩
    · exact (mem_tallyBatch ht).trans (or_congr_right ⟨fun h => ⟨⟨_, _, rfl⟩, hlive, h⟩, fun h => h.2.2⟩)

end QuadraticVoting.Pallet
