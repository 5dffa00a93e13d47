import QuadraticVoting.Balances

/-! The voter registry and the records about voters over runs. Only a root `register_voter`
adds a voter and no call removes one. Every proposer and every holder of a record of `AyeVotes`
is registered, and every weight fits in `BalanceOf<T>`, since `vote_proposal` wraps its sum and
the batch loop checks its own. So a proposal in progress is never stuck: once its end block is
reached, its proposer can complete it. -/
namespace QuadraticVoting.Pallet

variable {c : Config} {s s' : State} {now : ℕ} {origin : Origin} {call : Call} {es : List Event}

/-- A voter is registered after a call exactly when it was before, or the call is a root
`register_voter` of it. -/
theorem mem_registeredVoters_step (hd : dispatch c now s origin call = .ok (s', es)) (v : ℕ) :
    v ∈ s'.registeredVoters ↔
      v ∈ s.registeredVoters ∨ ∃ fee, origin = .root ∧ call = .registerVoter v fee := by
  cases dispatch_eq_ok_iff.mp hd with
  | registerVoter => simp [or_comm, eq_comm]
  | createProposal | startProposal | reserveTokens | voteExpired | voteAye | voteOther
    | unreserveTokens | batchDeadline | batchLive => simp

/-- Along a successful run, a voter is registered at the end exactly when it was registered at
the start or a root call of the run registered it: registration is never undone. -/
theorem registered_iff_of_run {calls : List (ℕ × Origin × Call)} (h : run c s calls = .ok s')
    (v : ℕ) : v ∈ s'.registeredVoters ↔
      v ∈ s.registeredVoters ∨ ∃ now fee, (now, .root, .registerVoter v fee) ∈ calls := by
  induction calls generalizing s with
  | nil => cases h; simp
  | cons call calls ih =>
    obtain ⟨now, origin, call⟩ := call
    simp only [run, bind_eq_ok] at h
    obtain ⟨⟨t, es⟩, hd, h⟩ := h
    rw [ih h, mem_registeredVoters_step hd]
    simp only [List.mem_cons, Prod.mk.injEq]
    constructor
    · rintro ((hv | ⟨fee, rfl, rfl⟩) | ⟨n, fee, hn⟩)
      exacts [.inl hv, .inr ⟨now, fee, .inl ⟨rfl, rfl, rfl⟩⟩, .inr ⟨n, fee, .inr hn⟩]
    · rintro (hv | ⟨n, fee, ⟨rfl, rfl, rfl⟩ | hn⟩)
      exacts [.inl (.inl hv), .inl (.inr ⟨fee, rfl, rfl⟩), .inr ⟨n, fee, hn⟩]

theorem registered_iff_of_run_tieRun : ∃ s, run templateConfig
    (.genesis ⟨fun _ => 0, fun _ => 0⟩) tieRun = .ok s ∧
    (2 ∈ s.registeredVoters ↔ 2 ∈ (State.genesis ⟨fun _ => 0, fun _ => 0⟩).registeredVoters ∨
      ∃ now fee, (now, .root, .registerVoter 2 fee) ∈ tieRun) := by
  obtain ⟨s, h, -⟩ := tieRun_matches
  exact ⟨s, h, registered_iff_of_run h 2⟩

/-- Along a successful run, a registered voter's reserved and total balances move exactly by the
deltas of the calls it signs: no call of another account, and no root call, touches them, since
`register_voter` refuses a voter already registered. -/
theorem registered_balances_of_run {calls : List (ℕ × Origin × Call)} (h : run c s calls = .ok s')
    {a : ℕ} (ha : a ∈ s.registeredVoters) :
    (s'.balances.reserved a : ℤ) = s.balances.reserved a +
        (calls.map fun x => if x.2.1 = .signed a then reservedDelta x.2.2 else 0).sum ∧
      (s'.balances.totalBalance a : ℤ) = s.balances.totalBalance a +
        (calls.map fun x => if x.2.1 = .signed a then totalDelta x.2.2 else 0).sum := by
  induction calls generalizing s with
  | nil => cases h; simp
  | cons call calls ih =>
    obtain ⟨now, origin, call⟩ := call
    simp only [run, bind_eq_ok] at h
    obtain ⟨⟨t, es⟩, hd, h⟩ := h
    have hnreg (fee : ℕ) : call ≠ .registerVoter a fee := by
      rintro rfl
      exact (registerVoter_eq_ok.mp hd).2.1 ha
    obtain ⟨hr, ht⟩ := account_step hd hnreg
    obtain ⟨hr', ht'⟩ := ih (s := t) h ((mem_registeredVoters_step hd a).mpr (.inl ha))
    simp only [List.map_cons, List.sum_cons]
    constructor <;> omega

theorem registered_balances_of_run_tieRun : ∃ s s', Reachable templateConfig s ∧
    1 ∈ s.registeredVoters ∧
    let calls : List (ℕ × Origin × Call) := [(0, .signed 1, .reserveTokens 10),
      (0, .signed 2, .unreserveTokens 9), (0, .signed 1, .unreserveTokens 5)]
    run templateConfig s calls = .ok s' ∧
    (s'.balances.reserved 1 : ℤ) = s.balances.reserved 1 +
        (calls.map fun x => if x.2.1 = .signed 1 then reservedDelta x.2.2 else 0).sum ∧
      (s'.balances.totalBalance 1 : ℤ) = s.balances.totalBalance 1 +
        (calls.map fun x => if x.2.1 = .signed 1 then totalDelta x.2.2 else 0).sum := by
  obtain ⟨s, hs, h⟩ := RunsTo.reachable _ (.genesis _) tieRun_matches
  have hreg : ∀ a ∈ [1, 2], a ∈ s.registeredVoters := by rw [h.registeredVoters]; decide
  obtain ⟨hf₁, hr₁⟩ : s.balances.free 1 = 44 ∧ s.balances.reserved 1 = 49 :=
    h.accounts (1, 44, 49) (by simp)
  have hr₂ : s.balances.reserved 2 = 49 := (h.accounts (2, 46, 49) (by simp)).2
  have hrun : run templateConfig s [(0, .signed 1, .reserveTokens 10),
      (0, .signed 2, .unreserveTokens 9), (0, .signed 1, .unreserveTokens 5)] = .ok _ :=
    run_cons _ (dispatch_eq_ok_iff.mpr (.reserveTokens (hreg 1 (by simp)) (by decide) (by rw [hf₁]; decide)))
      (run_cons _ (dispatch_eq_ok_iff.mpr (.unreserveTokens (hreg 2 (by simp)) (by decide) (by simp [hr₂])))
        (run_cons _ (dispatch_eq_ok_iff.mpr (.unreserveTokens (hreg 1 (by simp)) (by decide) (by simp [hr₁])))
          rfl))
  exact ⟨s, _, hs, hreg 1 (by simp), hrun, registered_balances_of_run hrun (hreg 1 (by simp))⟩

/-- No call changes a vote record that is already written. -/
theorem lookup_ayeVotes_step (hd : dispatch c now s origin call = .ok (s', es)) {k : ℕ × ℕ}
    {x : ℕ} (hk : s.ayeVotes.lookup k = some x) : s'.ayeVotes.lookup k = some x := by
  have hmem := Finmap.mem_of_lookup_eq_some hk
  rcases ayeVotes_step hd with ha | ⟨v, -, -, ⟨p, vote, pr, -, -, -, -, hfresh, ha⟩ |
    ⟨items, -, -, hfresh, ht⟩⟩
  · rwa [ha]
  · rwa [ha, Finmap.lookup_insert_of_ne _ fun e : k = (p, v) => hfresh (e ▸ hmem)]
  · by_contra hne
    obtain ⟨item, hi, -, rfl⟩ := tallyBatch_lookup_ne c ht (by rwa [hk])
    exact hfresh item hi hmem

/-- Along a successful run, a vote record once written never changes: weights are neither
added to nor taken from an existing record. -/
theorem vote_record_persists {calls : List (ℕ × Origin × Call)} (h : run c s calls = .ok s')
    {k : ℕ × ℕ} {x : ℕ} (hk : s.ayeVotes.lookup k = some x) : s'.ayeVotes.lookup k = some x := by
  induction calls generalizing s with
  | nil => cases h; exact hk
  | cons call calls ih =>
    obtain ⟨now, origin, call⟩ := call
    simp only [run, bind_eq_ok] at h
    obtain ⟨⟨t, es⟩, hd, h⟩ := h
    exact ih h (lookup_ayeVotes_step hd hk)

theorem vote_record_persists_tieRun : ∃ s s', Reachable templateConfig s ∧
    s.ayeVotes.lookup (1, 1) = some 7 ∧
    run templateConfig s [(0, .signed 2, .voteProposal 1 .aye), (0, .signed 1, .unreserveTokens 9),
      (0, .signed 1, .voteMultipleProposals [(2, 1, .aye)])] = .ok s' ∧
    s'.ayeVotes.lookup (1, 1) = some 7 := by
  obtain ⟨s, hs, h⟩ := RunsTo.reachable _ (.genesis _) tieRun_matches
  have hreg : ∀ a ∈ [1, 2], a ∈ s.registeredVoters := by rw [h.registeredVoters]; decide
  have hr₁ : s.balances.reserved 1 = 49 := (h.accounts (1, 44, 49) (by simp)).2
  have hr₂ : s.balances.reserved 2 = 49 := (h.accounts (2, 46, 49) (by simp)).2
  have hp₂ : s.proposals.lookup 2 = some ⟨2, 0, 1, 10, .inProgress⟩ := by rw [h.proposals]; rfl
  have hfresh : (2, 1) ∉ s.ayeVotes := by rw [h.ayeVotes]; decide
  have hrun : run templateConfig s [(0, .signed 2, .voteProposal 1 .aye),
      (0, .signed 1, .unreserveTokens 9), (0, .signed 1, .voteMultipleProposals [(2, 1, .aye)])] =
      .ok _ :=
    run_cons _ (dispatch_eq_ok_iff.mpr (.voteAye (hreg 2 (by simp)) (by rw [h.proposals]; rfl) rfl
      (by decide) (by rw [hr₂]; decide) (by rw [h.ayeVotes]; decide)))
      (run_cons _ (dispatch_eq_ok_iff.mpr (.unreserveTokens (hreg 1 (by simp)) (by decide) (by simp [hr₁])))
        (run_cons _ (dispatch_eq_ok_iff.mpr (.batchLive (hreg 1 (by simp)) (by simp [hp₂])
          (by simp [hr₁]; decide) (by simp [hfresh]) (by simp [hp₂])
          (by simp [tallyBatch, Finmap.lookup_eq_none.mpr hfresh, templateConfig]; rfl))) rfl))
  exact ⟨s, _, hs, by rw [h.ayeVotes]; rfl, hrun, vote_record_persists hrun (by rw [h.ayeVotes]; rfl)⟩

/-- Every proposer of a record after a call is the signer of that call, registered before it,
or a proposer of a record before it. -/
theorem proposer_step (hd : dispatch c now s origin call = .ok (s', es)) {k : ℕ} {pr : Proposal}
    (hk : s'.proposals.lookup k = some pr) : pr.proposer ∈ s.registeredVoters ∨
      ∃ k₀ pr₀, s.proposals.lookup k₀ = some pr₀ ∧ pr₀.proposer = pr.proposer := by
  rcases proposals_step hd with he | ⟨who, text, -, hwho, -, rfl⟩ | ⟨q, prq, st, hq, he, -⟩
  · exact .inr ⟨k, pr, he ▸ hk, rfl⟩
  · rw [State.insertProposal_eq] at hk
    rcases lookup_insert_eq_some hk with ⟨-, rfl⟩ | ⟨-, h⟩
    exacts [.inl hwho, .inr ⟨k, pr, h, rfl⟩]
  · rw [he] at hk
    rcases lookup_insert_eq_some hk with ⟨-, rfl⟩ | ⟨-, h⟩
    exacts [.inr ⟨q, prq, hq, rfl⟩, .inr ⟨k, pr, h, rfl⟩]

/-- The invariant of the records the pallet keeps about voters. -/
structure RecordInv (c : Config) (s : State) : Prop where
  /-- Every proposer of a stored proposal is registered. -/
  proposer_registered : ∀ k pr, s.proposals.lookup k = some pr → pr.proposer ∈ s.registeredVoters
  /-- Every vote record belongs to a registered voter. -/
  voter_registered : ∀ k ∈ s.ayeVotes, k.2 ∈ s.registeredVoters
  /-- Every weight fits in `BalanceOf<T>`. -/
  weight_lt : ∀ k x, s.ayeVotes.lookup k = some x → x < 2 ^ c.balanceBits

namespace RecordInv

theorem genesis (l : Ledger) : RecordInv c (State.genesis l) where
  proposer_registered := by simp [State.genesis]
  voter_registered := by simp [State.genesis, Finmap.not_mem_empty]
  weight_lt := by simp [State.genesis]

theorem step (h : RecordInv c s) (hd : dispatch c now s origin call = .ok (s', es)) :
    RecordInv c s' := by
  have hreg (v : ℕ) (hv : v ∈ s.registeredVoters) : v ∈ s'.registeredVoters :=
    (mem_registeredVoters_step hd v).mpr (.inl hv)
  have hprop (k : ℕ) (pr : Proposal) (hk : s'.proposals.lookup k = some pr) :
      pr.proposer ∈ s'.registeredVoters := by
    rcases proposer_step hd hk with hv | ⟨k₀, pr₀, hk₀, he⟩
    exacts [hreg _ hv, he ▸ hreg _ (h.proposer_registered k₀ pr₀ hk₀)]
  rcases ayeVotes_step hd with ha | ⟨v, rfl, hv, ⟨p, vote, pr, rfl, -, -, -, -, ha⟩ |
    ⟨items, rfl, -, -, ht⟩⟩
  · refine ⟨hprop, fun k hk => ?_, fun k x hk => ?_⟩ <;> rw [ha] at hk
    exacts [hreg _ (h.voter_registered k hk), h.weight_lt k x hk]
  · refine ⟨hprop, fun k hk => ?_, fun k x hk => ?_⟩ <;> rw [ha] at hk
    · rcases Finmap.mem_insert.mp hk with rfl | hk
      exacts [hreg _ hv, hreg _ (h.voter_registered k hk)]
    · by_cases hkp : k = (p, v)
      · subst hkp
        rw [Finmap.lookup_insert] at hk
        cases hk; exact Nat.mod_lt _ (Nat.two_pow_pos _)
      · rw [Finmap.lookup_insert_of_ne _ hkp] at hk; exact h.weight_lt k x hk
  · refine ⟨hprop, fun k hk => ?_, tallyBatch_lt ht h.weight_lt⟩
    by_cases hold : k ∈ s.ayeVotes
    · exact hreg _ (h.voter_registered k hold)
    · obtain ⟨x, hx⟩ := Finmap.mem_iff.mp hk
      obtain ⟨item, -, -, rfl⟩ := tallyBatch_lookup_ne c ht (k := k)
        (by rw [hx, Finmap.lookup_eq_none.mpr hold]; simp)
      exact hreg _ hv

theorem of_reachable (hs : Reachable c s) : RecordInv c s := by
  induction hs with
  | genesis l => exact genesis l
  | step now origin call _ hd ih => exact ih.step hd

end RecordInv

/-- In every reachable state each vote record belongs to a registered voter, and its weight is
below `2 ^ balanceBits`. -/
theorem vote_records_registered_bounded (hs : Reachable c s) {k : ℕ × ℕ} {x : ℕ}
    (hk : s.ayeVotes.lookup k = some x) : k.2 ∈ s.registeredVoters ∧ x < 2 ^ c.balanceBits :=
  let h := RecordInv.of_reachable hs
  ⟨h.voter_registered k (Finmap.mem_of_lookup_eq_some hk), h.weight_lt k x hk⟩

theorem vote_records_registered_bounded_tieRun : ∃ s, Reachable templateConfig s ∧
    s.ayeVotes.lookup (1, 1) = some 7 ∧
    1 ∈ s.registeredVoters ∧ 7 < 2 ^ templateConfig.balanceBits := by
  obtain ⟨s, hs, h⟩ := RunsTo.reachable _ (.genesis _) tieRun_matches
  have hk : s.ayeVotes.lookup (1, 1) = some 7 := by rw [h.ayeVotes]; rfl
  exact ⟨s, hs, hk, vote_records_registered_bounded hs hk⟩

/-- A proposal in progress can always be closed: from its end block on, a `vote_proposal` by its
proposer, who is still registered, completes it. -/
theorem in_progress_closable (hs : Reachable c s) {p : ℕ} {pr : Proposal}
    (hp : s.proposals.lookup p = some pr) (hst : pr.status = .inProgress) (hnow : pr.endBlock ≤ now)
    (vote : Vote) : ∃ s' es, dispatch c now s (.signed pr.proposer) (.voteProposal p vote) = .ok (s', es) ∧
      s'.proposals.lookup p = some ⟨p, pr.text, pr.proposer, pr.endBlock, .completed⟩ :=
  ⟨_, _, (voteProposal_eq_ok c).mpr ⟨pr.proposer, pr, rfl,
    (RecordInv.of_reachable hs).proposer_registered p pr hp, hp, hst, .inl ⟨hnow, rfl⟩⟩,
    Finmap.lookup_insert _⟩

theorem in_progress_closable_tieRun : ∃ s, Reachable templateConfig s ∧
    s.proposals.lookup 1 = some ⟨1, 0, 1, 10, .inProgress⟩ ∧
    ∃ s' es, dispatch templateConfig 10 s (.signed 1) (.voteProposal 1 .nay) = .ok (s', es) ∧
      s'.proposals.lookup 1 = some ⟨1, 0, 1, 10, .completed⟩ := by
  obtain ⟨s, hs, h⟩ := RunsTo.reachable _ (.genesis _) tieRun_matches
  have hp : s.proposals.lookup 1 = some ⟨1, 0, 1, 10, .inProgress⟩ := by rw [h.proposals]; rfl
  exact ⟨s, hs, hp, in_progress_closable hs hp rfl le_rfl .nay⟩

end QuadraticVoting.Pallet
