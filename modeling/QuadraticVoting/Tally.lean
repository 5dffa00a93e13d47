import QuadraticVoting.Lifecycle
import Mathlib.Algebra.Order.BigOperators.Group.Finset

/-! The vote table `AyeVotes`. Only the two vote calls write it, and only fresh records of
their signer on proposals that are in progress and not past their end block. The weight a call
adds is the integer square root of the tokens it commits, but the batch call checks freshness
against the table before the loop, so a batch that names one proposal twice adds the roots of
both amounts to one record; and it sums the amounts with wrapping addition. -/
namespace QuadraticVoting.Pallet

variable {c : Config} {s s' : State} {now : ℕ} {origin : Origin} {call : Call} {es : List Event}

/-- What a successful call does to the vote table: nothing, a fresh `Aye` record written by
`vote_proposal`, or the table of the batch loop over fresh keys. Either vote call is signed by
a registered voter and names only proposals in progress whose end block is ahead. -/
theorem ayeVotes_step (hd : dispatch c now s origin call = .ok (s', es)) :
    s'.ayeVotes = s.ayeVotes ∨ ∃ v, origin = .signed v ∧ v ∈ s.registeredVoters ∧
      ((∃ p vote pr, call = .voteProposal p vote ∧ s.proposals.lookup p = some pr ∧
          pr.status = .inProgress ∧ now < pr.endBlock ∧ (p, v) ∉ s.ayeVotes ∧
          s'.ayeVotes = s.ayeVotes.insert (p, v) (Nat.sqrt (s.balances.reserved v) % 2 ^ c.balanceBits)) ∨
        ∃ items, call = .voteMultipleProposals items ∧
          (∀ item ∈ items, ∃ pr, s.proposals.lookup item.1 = some pr ∧ pr.status = .inProgress ∧
            now < pr.endBlock) ∧
          (∀ item ∈ items, (item.1, v) ∉ s.ayeVotes) ∧ tallyBatch c v items s.ayeVotes = some s'.ayeVotes) := by
  cases dispatch_eq_ok_iff.mp hd with
  | registerVoter | reserveTokens | voteExpired | voteOther | unreserveTokens | batchDeadline =>
    exact .inl rfl
  | createProposal | startProposal => exact .inl (by simp)
  | @voteAye who p pr hreg hp hst hlive _ hfresh =>
    exact .inr ⟨who, rfl, hreg, .inl ⟨p, .aye, pr, rfl, hp, hst, hlive, hfresh, by
      rw [getAyeVotesBalance_of_not_mem hfresh, zero_add]⟩⟩
  | @batchLive who items m hreg hall _ hfresh hlive ht =>
    refine .inr ⟨who, rfl, hreg, .inr ⟨items, rfl, fun item hi => ?_, hfresh, ht⟩⟩
    obtain ⟨pr, hp, hst⟩ := hall item hi
    exact ⟨pr, hp, hst, hlive item hi pr hp⟩

/-- A call that changes the vote table is a vote call signed by a registered voter, and every
record it changes is a new record of that voter on a proposal that is in progress and whose
end block is ahead. -/
theorem ayeVotes_fresh_records (hd : dispatch c now s origin call = .ok (s', es)) :
    s'.ayeVotes = s.ayeVotes ∨ ∃ v, origin = .signed v ∧ v ∈ s.registeredVoters ∧
      ((∃ p vote, call = .voteProposal p vote) ∨ ∃ items, call = .voteMultipleProposals items) ∧
      ∀ k, s'.ayeVotes.lookup k ≠ s.ayeVotes.lookup k → k.2 = v ∧ k ∉ s.ayeVotes ∧
        ∃ pr, s.proposals.lookup k.1 = some pr ∧ pr.status = .inProgress ∧ now < pr.endBlock := by
  rcases ayeVotes_step hd with h | ⟨v, rfl, hreg, ⟨p, vote, pr, rfl, hp, hst, hlive, hfresh, h⟩ |
    ⟨items, rfl, hall, hfresh, ht⟩⟩
  · exact .inl h
  · refine .inr ⟨v, rfl, hreg, .inl ⟨p, vote, rfl⟩, fun k hk => ?_⟩
    rw [h] at hk
    by_cases hkp : k = (p, v)
    · subst hkp; exact ⟨rfl, hfresh, pr, hp, hst, hlive⟩
    · exact absurd (Finmap.lookup_insert_of_ne _ hkp) hk
  · refine .inr ⟨v, rfl, hreg, .inr ⟨items, rfl⟩, fun k hk => ?_⟩
    obtain ⟨item, hi, -, rfl⟩ := tallyBatch_lookup_ne c ht hk
    exact ⟨rfl, hfresh _ hi, hall _ hi⟩

theorem ayeVotes_fresh_records_tieRun : ∃ s, Reachable templateConfig s ∧ ∃ s' es,
    dispatch templateConfig 0 s (.signed 2) (.voteProposal 1 .aye) = .ok (s', es) ∧
    (s'.ayeVotes = s.ayeVotes ∨ ∃ v, Origin.signed 2 = .signed v ∧ v ∈ s.registeredVoters ∧
      ((∃ p vote, Call.voteProposal 1 .aye = .voteProposal p vote) ∨
        ∃ items, Call.voteProposal 1 .aye = .voteMultipleProposals items) ∧
      ∀ k, s'.ayeVotes.lookup k ≠ s.ayeVotes.lookup k → k.2 = v ∧ k ∉ s.ayeVotes ∧
        ∃ pr, s.proposals.lookup k.1 = some pr ∧ pr.status = .inProgress ∧ 0 < pr.endBlock) := by
  obtain ⟨s, hs, h⟩ := RunsTo.reachable _ (.genesis _) tieRun_matches
  have hd : dispatch templateConfig 0 s (.signed 2) (.voteProposal 1 .aye) = .ok _ :=
    dispatch_eq_ok_iff.mpr (.voteAye (by rw [h.registeredVoters]; decide) (by rw [h.proposals]; rfl) rfl
      (by decide) (by rw [(h.accounts (2, 46, 49) (by simp)).2]; decide) (by rw [h.ayeVotes]; decide))
  exact ⟨s, hs, _, _, hd, ayeVotes_fresh_records hd⟩

/-- Weight per token: the sum, over the records of voter `v` in the table `m'`, of the square
of how much each record grew from the table `m`. -/
def squaredGrowth (m m' : Finmap (fun _ : ℕ × ℕ => ℕ)) (v : ℕ) : ℕ :=
  ∑ k ∈ m'.keys.filter (·.2 = v), ((m'.lookup k).getD 0 - (m.lookup k).getD 0) ^ 2

theorem squaredGrowth_self (m : Finmap (fun _ : ℕ × ℕ => ℕ)) (v : ℕ) :
    squaredGrowth m m v = 0 := by
  simp [squaredGrowth]

/-- Growth measured from `m` is at most growth measured from `m` with a new record at `k₀`, plus
the square of the final record at `k₀`. -/
theorem squaredGrowth_le_insert {m m' : Finmap (fun _ : ℕ × ℕ => ℕ)} {k₀ : ℕ × ℕ} {x v : ℕ}
    (hk₀ : k₀ ∉ m) :
    squaredGrowth m m' v ≤ squaredGrowth (m.insert k₀ x) m' v + ((m'.lookup k₀).getD 0) ^ 2 := by
  unfold squaredGrowth
  calc _ ≤ ∑ k ∈ m'.keys.filter (·.2 = v), (((m'.lookup k).getD 0 -
          ((m.insert k₀ x).lookup k).getD 0) ^ 2 + if k = k₀ then ((m'.lookup k₀).getD 0) ^ 2 else 0) := by
        refine Finset.sum_le_sum fun k _ => ?_
        by_cases hk : k = k₀
        · subst hk; simp [Finmap.lookup_eq_none.mpr hk₀]
        · simp [Finmap.lookup_insert_of_ne _ hk, hk]
    _ ≤ _ := by
        rw [Finset.sum_add_distrib, Finset.sum_ite_eq']
        split_ifs <;> simp

/-- Over a batch naming distinct proposals that `who` has not voted on, the loop grows `who`'s
records by at most the sum of the amounts in squared weight. -/
theorem squaredGrowth_tallyBatch_le {who : ℕ} {items : List (ℕ × ℕ × Vote)}
    {m m' : Finmap (fun _ : ℕ × ℕ => ℕ)} (ht : tallyBatch c who items m = some m')
    (hnd : (items.map (·.1)).Nodup) (hfresh : ∀ item ∈ items, (item.1, who) ∉ m) :
    squaredGrowth m m' who ≤ (items.map (·.2.1)).sum := by
  induction items generalizing m with
  | nil => cases ht; simp [squaredGrowth_self]
  | cons item items ih =>
    obtain ⟨p, t, v⟩ := item
    simp only [List.map_cons, List.nodup_cons, List.mem_map, List.sum_cons] at hnd ⊢
    have hp : (p, who) ∉ m := hfresh _ (List.mem_cons_self _ _)
    have hrest := fun item hi => hfresh item (List.mem_cons_of_mem _ hi)
    by_cases hv : v = .aye
    · simp only [tallyBatch, hv, if_true, Finmap.lookup_eq_none.mpr hp, Option.getD_none,
        zero_add] at ht
      split_ifs at ht
      have hkeep : m'.lookup (p, who) = some (Nat.sqrt t) := by
        by_contra hne
        obtain ⟨item, hi, -, he⟩ := tallyBatch_lookup_ne c ht (by rwa [Finmap.lookup_insert])
        exact hnd.1 ⟨item, hi, (congrArg Prod.fst he).symm⟩
      have hih := ih ht hnd.2 fun item hi => by
        rw [Finmap.mem_insert, not_or]
        exact ⟨fun e => hnd.1 ⟨item, hi, congrArg Prod.fst e⟩, hrest item hi⟩
      have hins := @squaredGrowth_le_insert m m' (p, who) (Nat.sqrt t) who hp
      rw [hkeep, Option.getD_some] at hins
      have hsq := Nat.sqrt_le' t
      omega
    · simp only [tallyBatch, hv, if_false] at ht
      have := ih ht hnd.2 hrest
      omega

/-- The batch's total with wrapping addition is the plain sum while the plain sum fits. -/
theorem foldl_tokens_eq_sum {w acc : ℕ} {items : List (ℕ × ℕ × Vote)}
    (h : acc + (items.map (·.2.1)).sum < 2 ^ w) :
    items.foldl (fun acc i => (acc + i.2.1) % 2 ^ w) acc = acc + (items.map (·.2.1)).sum := by
  induction items generalizing acc with
  | nil => rfl
  | cons item items ih =>
    simp only [List.map_cons, List.sum_cons, List.foldl_cons] at h ⊢
    rw [Nat.mod_eq_of_lt (by omega), ih (by omega)]
    omega

/-- The quadratic law holds for `vote_proposal`, and for a batch that names each proposal once
and whose amounts sum below the `Balance` bound: the squares of the weight a call adds to its
signer's records sum to at most the signer's reserved tokens. -/
theorem quadratic_cost_of_distinct {v : ℕ} (hd : dispatch c now s (.signed v) call = .ok (s', es))
    (hcall : (∃ p vote, call = .voteProposal p vote) ∨ ∃ items, call = .voteMultipleProposals items ∧
      (items.map (·.1)).Nodup ∧ (items.map (·.2.1)).sum < 2 ^ c.balanceBits) :
    squaredGrowth s.ayeVotes s'.ayeVotes v ≤ s.balances.reserved v := by
  rcases hcall with ⟨p, vote, rfl⟩ | ⟨items, rfl, hnd, hsum⟩
  · obtain ⟨who, pr, hwho, -, -, -, ⟨-, hr⟩ | ⟨-, -, ⟨-, hfresh, hr⟩ | ⟨-, hr⟩⟩⟩ :=
      (voteProposal_eq_ok c).mp hd
    · cases hr; simp [squaredGrowth_self]
    · cases hr; cases hwho
      rw [getAyeVotesBalance_of_not_mem hfresh, zero_add]
      have hins := @squaredGrowth_le_insert s.ayeVotes
        (s.ayeVotes.insert (p, v) (Nat.sqrt (s.balances.reserved v) % 2 ^ c.balanceBits)) (p, v)
        (Nat.sqrt (s.balances.reserved v) % 2 ^ c.balanceBits) v hfresh
      rw [squaredGrowth_self, Finmap.lookup_insert, Option.getD_some, zero_add] at hins
      calc _ ≤ _ := hins
        _ ≤ Nat.sqrt (s.balances.reserved v) ^ 2 := Nat.pow_le_pow_left (Nat.mod_le _ _) 2
        _ ≤ s.balances.reserved v := Nat.sqrt_le' _
    · cases hr; simp [squaredGrowth_self]
  · obtain ⟨who, hwho, -, -, htot, hfresh, ⟨-, prw, -, hr⟩ | ⟨-, m, ht, hr⟩⟩ :=
      (voteMultipleProposals_eq_ok c).mp hd
    · cases hr; simp [squaredGrowth_self]
    · cases hr; cases hwho
      rw [foldl_tokens_eq_sum (by omega), zero_add] at htot
      exact (squaredGrowth_tallyBatch_le ht hnd hfresh).trans htot

/-- Voter `1` registers, creates proposals `1` and `2` and starts both, at block `0`. -/
def twoProposalsRun : List (ℕ × Origin × Call) :=
  [(0, .root, .registerVoter 1 5), (0, .signed 1, .createProposal 0),
   (0, .signed 1, .createProposal 0), (0, .signed 1, .startProposal 1 1),
   (0, .signed 1, .startProposal 2 1)]

/-- The tables `twoProposalsRun` leaves: proposals `1` and `2` started, ending at block `10`, and
no vote. -/
def twoProposalsTables : State :=
  { State.genesis ⟨fun _ => 0, fun _ => 0⟩ with
    registeredVoters := [⟨1, true⟩].toFinmap
    proposals := [⟨1, ⟨1, 0, 1, 10, .inProgress⟩⟩, ⟨2, ⟨2, 0, 1, 10, .inProgress⟩⟩].toFinmap
    proposalCount := 2 }

theorem twoProposalsRun_matches : RunsTo templateConfig (.genesis ⟨fun _ => 0, fun _ => 0⟩)
    twoProposalsRun (Matches · twoProposalsTables [(1, 93, 0)]) := by
  decide

/-- Voter `1` then reserves `k` of its `93` free tokens. -/
theorem twoProposalsRun_reserve {k : ℕ} (hk : 0 < k) (hle : k ≤ 93) :
    ∃ s, Reachable templateConfig s ∧ Matches s twoProposalsTables [(1, 93 - k, k)] := by
  obtain ⟨s, hs, h⟩ := RunsTo.reachable _ (.genesis _) twoProposalsRun_matches
  have hb : s.balances.free 1 = 93 ∧ s.balances.reserved 1 = 0 := h.accounts _ (List.mem_singleton_self _)
  have hd : dispatch templateConfig 0 s (.signed 1) (.reserveTokens k) = .ok _ :=
    dispatch_eq_ok_iff.mpr (.reserveTokens (by rw [h.registeredVoters]; decide) hk (hb.1 ▸ hle))
  exact ⟨_, .step 0 _ _ hs hd, ⟨h.registeredVoters, h.proposals, h.proposalCount, h.ayeVotes, by simp [hb]⟩⟩

section twoProposals

variable {s : State} {accounts : List (ℕ × ℕ × ℕ)} {items : List (ℕ × ℕ × Vote)}

theorem twoProposals_lookup (h : Matches s twoProposalsTables accounts) {p : ℕ} (hp : p = 1 ∨ p = 2) :
    s.proposals.lookup p = some ⟨p, 0, 1, 10, .inProgress⟩ := by
  rw [h.proposals]
  rcases hp with rfl | rfl <;> rfl

theorem twoProposals_live (h : Matches s twoProposalsTables accounts)
    (hitems : ∀ item ∈ items, item.1 = 1 ∨ item.1 = 2) :
    ∀ item ∈ items, ∀ pr, s.proposals.lookup item.1 = some pr → 0 < pr.endBlock := by
  intro item hi pr hpr
  rw [twoProposals_lookup h (hitems item hi)] at hpr
  cases hpr
  exact Nat.succ_pos _

/-- On these tables a batch of voter `1` at block `0` on proposals `1` and `2`, within its
reserved tokens, records its tally. -/
theorem twoProposals_batchLive (h : Matches s twoProposalsTables accounts)
    (hitems : ∀ item ∈ items, item.1 = 1 ∨ item.1 = 2)
    (htot : items.foldl (fun acc i => (acc + i.2.1) % 2 ^ templateConfig.balanceBits) 0 ≤
      s.balances.reserved 1)
    {m : Finmap (fun _ : ℕ × ℕ => ℕ)} (ht : tallyBatch templateConfig 1 items ∅ = some m) :
    ∃ es, dispatch templateConfig 0 s (.signed 1) (.voteMultipleProposals items) =
      .ok ({ s with ayeVotes := m }, es) :=
  ⟨_, dispatch_eq_ok_iff.mpr (.batchLive (by rw [h.registeredVoters]; decide)
    (fun item hi => ⟨_, twoProposals_lookup h (hitems item hi), rfl⟩) htot
    (fun _ _ => by rw [h.ayeVotes]; exact Finmap.not_mem_empty) (twoProposals_live h hitems)
    (by rw [h.ayeVotes]; exact ht))⟩

end twoProposals

theorem quadratic_cost_of_distinct_batch : ∃ s, Reachable templateConfig s ∧ ∃ s' es,
    dispatch templateConfig 0 s (.signed 1)
      (.voteMultipleProposals [(1, 16, .aye), (2, 4, .aye)]) = .ok (s', es) ∧
    ((∃ p vote, Call.voteMultipleProposals [(1, 16, .aye), (2, 4, .aye)] = .voteProposal p vote) ∨
      ∃ items, Call.voteMultipleProposals [(1, 16, .aye), (2, 4, .aye)] =
        .voteMultipleProposals items ∧
        (items.map (·.1)).Nodup ∧ (items.map (·.2.1)).sum < 2 ^ templateConfig.balanceBits) ∧
    squaredGrowth s.ayeVotes s'.ayeVotes 1 ≤ s.balances.reserved 1 := by
  obtain ⟨s, hs, h⟩ := twoProposalsRun_reserve (k := 20) (by decide) (by decide)
  have hr : s.balances.reserved 1 = 20 := (h.accounts _ (List.mem_singleton_self _)).2
  obtain ⟨m, ht⟩ := Option.isSome_iff_exists.mp
    (by simp only [tallyBatch, ← integerSqrt_eq_sqrt]; decide :
      (tallyBatch templateConfig 1 [(1, 16, .aye), (2, 4, .aye)] ∅).isSome)
  obtain ⟨es, hd⟩ := twoProposals_batchLive h (by decide) (by rw [hr]; decide) ht
  have hcall : (∃ p vote, Call.voteMultipleProposals [(1, 16, .aye), (2, 4, .aye)] =
      .voteProposal p vote) ∨ ∃ items, Call.voteMultipleProposals [(1, 16, .aye), (2, 4, .aye)] =
        .voteMultipleProposals items ∧
        (items.map (·.1)).Nodup ∧ (items.map (·.2.1)).sum < 2 ^ templateConfig.balanceBits :=
    .inr ⟨_, rfl, by decide, by decide⟩
  exact ⟨s, hs, _, es, hd, hcall, quadratic_cost_of_distinct hd hcall⟩

/-- A voter with two reserved tokens lists proposal `1` twice with one token each: the batch
passes, checking only that the voter has no record on `1` yet, and the record gets weight `2`,
whose square exceeds the two tokens. -/
theorem batch_duplicate_exceeds_quadratic_cost : ∃ s, Reachable templateConfig s ∧
    s.balances.reserved 1 = 2 ∧ ∃ s' es,
      dispatch templateConfig 0 s (.signed 1)
        (.voteMultipleProposals [(1, 1, .aye), (1, 1, .aye)]) = .ok (s', es) ∧
      s'.ayeVotes.lookup (1, 1) = some 2 ∧ squaredGrowth s.ayeVotes s'.ayeVotes 1 = 4 := by
  obtain ⟨s, hs, h⟩ := twoProposalsRun_reserve (k := 2) (by decide) (by decide)
  have hr : s.balances.reserved 1 = 2 := (h.accounts _ (List.mem_singleton_self _)).2
  obtain ⟨es, hd⟩ := twoProposals_batchLive h (by decide) (by rw [hr]; decide)
    (show tallyBatch templateConfig 1 [(1, 1, .aye), (1, 1, .aye)] ∅ = some [⟨(1, 1), 2⟩].toFinmap by
      simp only [tallyBatch, ← integerSqrt_eq_sqrt]; decide)
  have hv : s.ayeVotes = ∅ := h.ayeVotes
  exact ⟨s, hs, hr, _, es, hd, rfl,
    hv ▸ (by decide : squaredGrowth ∅ [⟨(1, 1), 2⟩].toFinmap 1 = 4)⟩

/-- The batch loop adds to each record of `who` the integer square roots of the amounts of the
batch's `Aye` items on that proposal, in order. -/
theorem tallyBatch_lookup_eq_sum {who p : ℕ} {items : List (ℕ × ℕ × Vote)}
    {m m' : Finmap (fun _ : ℕ × ℕ => ℕ)} (h : tallyBatch c who items m = some m') :
    (m'.lookup (p, who)).getD 0 = (m.lookup (p, who)).getD 0 +
      ((items.filter fun i => i.1 = p ∧ i.2.2 = .aye).map fun i => Nat.sqrt i.2.1).sum := by
  induction items generalizing m with
  | nil => cases h; simp
  | cons item items ih =>
    obtain ⟨q, t, v⟩ := item
    by_cases hv : v = .aye
    · simp only [tallyBatch, hv, if_true] at h
      split_ifs at h
      rw [ih h]
      by_cases hq : q = p
      · subst hq; simp [hv]; omega
      · have hne : (p, who) ≠ (q, who) := fun e => hq (congrArg Prod.fst e).symm
        simp [Finmap.lookup_insert_of_ne _ hne, hq]
    · simp only [tallyBatch, hv, if_false] at h
      simp [ih h, hv]

/-- The batch loop writes only weights that pass its checked addition. -/
theorem tallyBatch_lt {who : ℕ} {items : List (ℕ × ℕ × Vote)} {m m' : Finmap (fun _ : ℕ × ℕ => ℕ)}
    (h : tallyBatch c who items m = some m')
    (hm : ∀ k x, m.lookup k = some x → x < 2 ^ c.balanceBits) :
    ∀ k x, m'.lookup k = some x → x < 2 ^ c.balanceBits := by
  induction items generalizing m with
  | nil => cases h; exact hm
  | cons item items ih =>
    obtain ⟨q, t, v⟩ := item
    by_cases hv : v = .aye
    · simp only [tallyBatch, hv, if_true] at h
      split_ifs at h with hlt
      refine ih h fun k x hk => ?_
      by_cases hkq : k = (q, who)
      · subst hkq; rw [Finmap.lookup_insert] at hk; cases hk; exact hlt
      · rw [Finmap.lookup_insert_of_ne _ hkq] at hk; exact hm k x hk
    · simp only [tallyBatch, hv, if_false] at h
      exact ih h hm

/-- In its recording branch a batch leaves, on each proposal it lists, a record of its signer
whose weight is the sum of the integer square roots of the amounts of its `Aye` items on that
proposal. -/
theorem batch_records_sum_of_roots {v p : ℕ} {items : List (ℕ × ℕ × Vote)}
    (hd : dispatch c now s (.signed v) (.voteMultipleProposals items) = .ok (s', es))
    (hlive : ∀ item ∈ items, ∀ pr, s.proposals.lookup item.1 = some pr → now < pr.endBlock)
    (hp : p ∈ items.map (·.1)) :
    (s'.ayeVotes.lookup (p, v)).getD 0 =
      ((items.filter fun i => i.1 = p ∧ i.2.2 = .aye).map fun i => Nat.sqrt i.2.1).sum := by
  obtain ⟨who, hwho, -, -, -, hfresh, ⟨⟨item, hi, pr, hpr, hend⟩, -⟩ | ⟨-, m, ht, hr⟩⟩ :=
    (voteMultipleProposals_eq_ok c).mp hd
  · exact absurd (hlive item hi pr hpr) (not_lt.mpr hend)
  · cases hr; cases hwho
    obtain ⟨item, hi, rfl⟩ := List.mem_map.mp hp
    rw [tallyBatch_lookup_eq_sum ht, Finmap.lookup_eq_none.mpr (hfresh item hi), Option.getD_none,
      zero_add]

theorem batch_records_sum_of_roots_repeat : ∃ s, Reachable templateConfig s ∧ ∃ s' es,
    dispatch templateConfig 0 s (.signed 1)
      (.voteMultipleProposals [(1, 16, .aye), (2, 4, .aye), (1, 9, .aye)]) = .ok (s', es) ∧
    (∀ item ∈ [(1, 16, Vote.aye), (2, 4, Vote.aye), (1, 9, Vote.aye)],
      ∀ pr, s.proposals.lookup item.1 = some pr → 0 < pr.endBlock) ∧
    1 ∈ [(1, 16, Vote.aye), (2, 4, Vote.aye), (1, 9, Vote.aye)].map (·.1) ∧
    (s'.ayeVotes.lookup (1, 1)).getD 0 =
      (([(1, 16, Vote.aye), (2, 4, Vote.aye), (1, 9, Vote.aye)].filter
        fun i => i.1 = 1 ∧ i.2.2 = .aye).map fun i => Nat.sqrt i.2.1).sum := by
  obtain ⟨s, hs, h⟩ := twoProposalsRun_reserve (k := 30) (by decide) (by decide)
  have hr : s.balances.reserved 1 = 30 := (h.accounts _ (List.mem_singleton_self _)).2
  have hitems : ∀ item ∈ [(1, 16, Vote.aye), (2, 4, Vote.aye), (1, 9, Vote.aye)],
      item.1 = 1 ∨ item.1 = 2 := by decide
  obtain ⟨m, ht⟩ := Option.isSome_iff_exists.mp
    (by simp only [tallyBatch, ← integerSqrt_eq_sqrt]; decide :
      (tallyBatch templateConfig 1 [(1, 16, .aye), (2, 4, .aye), (1, 9, .aye)] ∅).isSome)
  obtain ⟨es, hd⟩ := twoProposals_batchLive h hitems (by rw [hr]; decide) ht
  have hlive := twoProposals_live h hitems
  exact ⟨s, hs, _, es, hd, hlive, by decide, batch_records_sum_of_roots hd hlive (by decide)⟩

/-- With no reserved tokens, a batch committing `u128::MAX` tokens to proposal `1` and one to
proposal `2` passes: the wrapping total is `0`. -/
theorem batch_total_wraps : ∃ s, Reachable templateConfig s ∧ s.balances.reserved 1 = 0 ∧
    ∃ s' es, dispatch templateConfig 0 s (.signed 1)
      (.voteMultipleProposals [(1, 2 ^ 128 - 1, .nay), (2, 1, .aye)]) = .ok (s', es) ∧
    s'.ayeVotes.lookup (2, 1) = some 1 ∧
    ([(1, 2 ^ 128 - 1, Vote.nay), (2, 1, Vote.aye)].map (·.2.1)).sum = 2 ^ 128 := by
  obtain ⟨s, hs, h⟩ := RunsTo.reachable _ (.genesis _) twoProposalsRun_matches
  have hr : s.balances.reserved 1 = 0 := (h.accounts _ (List.mem_singleton_self _)).2
  obtain ⟨es, hd⟩ := twoProposals_batchLive h (by decide) (by rw [hr]; decide)
    (show tallyBatch templateConfig 1 [(1, 2 ^ 128 - 1, .nay), (2, 1, .aye)] ∅ =
      some [⟨(2, 1), 1⟩].toFinmap by simp only [tallyBatch, ← integerSqrt_eq_sqrt]; decide)
  exact ⟨s, hs, hr, _, es, hd, rfl, by decide⟩

end QuadraticVoting.Pallet
