import QuadraticVoting.Tally

/-! What one call writes and deposits. The pallet owns three tables, `RegisteredVoters`,
`Proposals` with its counter, and `AyeVotes`, and a successful call writes at most one of them.
The events a call deposits are a function of the call and the storage before it: one event,
except where the vote calls record nothing or, in the batch loop, one event per `Aye` item. -/
namespace QuadraticVoting.Pallet

variable {c : Config} {s s' : State} {now : ℕ} {origin : Origin} {call : Call} {es : List Event}

/-- A successful call leaves at least two of the pallet's three tables as they were. -/
theorem writes_one_table (hd : dispatch c now s origin call = .ok (s', es)) :
    (s'.proposals = s.proposals ∧ s'.proposalCount = s.proposalCount ∧ s'.ayeVotes = s.ayeVotes) ∨
    (s'.registeredVoters = s.registeredVoters ∧ s'.ayeVotes = s.ayeVotes) ∨
    (s'.registeredVoters = s.registeredVoters ∧ s'.proposals = s.proposals ∧
      s'.proposalCount = s.proposalCount) := by
  cases dispatch_eq_ok_iff.mp hd with
  | registerVoter | reserveTokens | voteOther | unreserveTokens => exact .inl ⟨rfl, rfl, rfl⟩
  | createProposal | startProposal => exact .inr (.inl (by simp))
  | voteExpired | batchDeadline => exact .inr (.inl ⟨rfl, rfl⟩)
  | voteAye | batchLive => exact .inr (.inr ⟨rfl, rfl, rfl⟩)

theorem writes_one_table_tieRun : ∃ s, Reachable templateConfig s ∧ ∃ s' es,
    dispatch templateConfig 0 s (.signed 2) (.voteProposal 1 .aye) = .ok (s', es) ∧
    ((s'.proposals = s.proposals ∧ s'.proposalCount = s.proposalCount ∧
        s'.ayeVotes = s.ayeVotes) ∨
      (s'.registeredVoters = s.registeredVoters ∧ s'.ayeVotes = s.ayeVotes) ∨
      (s'.registeredVoters = s.registeredVoters ∧ s'.proposals = s.proposals ∧
        s'.proposalCount = s.proposalCount)) := by
  obtain ⟨s, hs, h⟩ := RunsTo.reachable _ (.genesis _) tieRun_matches
  have hd : dispatch templateConfig 0 s (.signed 2) (.voteProposal 1 .aye) = .ok _ :=
    dispatch_eq_ok_iff.mpr (.voteAye (by rw [h.registeredVoters]; decide) (by rw [h.proposals]; rfl) rfl
      (by decide) (by rw [(h.accounts (2, 46, 49) (by simp)).2]; decide) (by rw [h.ayeVotes]; decide))
  exact ⟨s, hs, _, _, hd, writes_one_table hd⟩

/-- Whether proposal `p` is before its end block at `now`; an index with no proposal counts as
live, as in the deadline test of `vote_multiple_proposals`. -/
def liveAt (now : ℕ) (s : State) (p : ℕ) : Bool :=
  (s.proposals.lookup p).all fun pr => decide (now < pr.endBlock)

variable (c) in
/-- The events a successful call deposits, read off the storage before it. A vote on a live
proposal records `ProposalVoted` for an `Aye` and nothing otherwise; a batch whose proposals are
all live records, for each `Aye` item, one `ProposalsVoted` naming the whole batch; a vote on an
expired proposal, and a batch naming one, announce the `get_winner` of the storage before. -/
def callEvents (now : ℕ) (s : State) : Origin → Call → List Event
  | _, .registerVoter v fee => [.voterRegistered v (100 - fee)]
  | _, .createProposal text =>
    [.newProposalCreated ((s.proposalCount + 1) % 2 ^ 32) text (now + c.votingPeriod)]
  | _, .startProposal p _ => [.proposalStarted p]
  | .signed who, .reserveTokens amount => [.tokensReserved who amount]
  | _, .voteProposal p vote =>
    if liveAt now s p then (if vote = .aye then [.proposalVoted p .aye] else [])
    else [.votingEnded (getWinner s)]
  | .signed who, .unreserveTokens amount =>
    [.tokensUnreserved who amount (((s.balances.unreserve who amount).1.slash who (amount / 2)).1.free who)]
  | _, .voteMultipleProposals items =>
    if items.all (liveAt now s ·.1) then
      List.replicate (items.countP (·.2.2 = .aye)) (.proposalsVoted (items.map (·.1)))
    else [.votingEnded (getWinner s)]
  | _, _ => []

/-- The events of a successful call are `callEvents` of the call and the storage before it. -/
theorem call_events (hd : dispatch c now s origin call = .ok (s', es)) :
    es = callEvents c now s origin call := by
  cases dispatch_eq_ok_iff.mp hd with
  | registerVoter | createProposal | startProposal | reserveTokens | unreserveTokens => rfl
  | voteExpired _ hp _ hend =>
    simp [callEvents, liveAt, hp, not_lt.mpr hend, getWinner_insert_of_mem (Finmap.mem_of_lookup_eq_some hp)]
  | voteAye _ hp _ hend => simp [callEvents, liveAt, hp, hend]
  | voteOther _ hp _ hend _ hvote => simp [callEvents, liveAt, hp, hend, hvote]
  | @batchDeadline _ items _ _ _ _ _ hexp =>
    obtain ⟨item, hi, pr, hp, hend⟩ := hexp
    have hall : items.all (liveAt now s ·.1) = false :=
      List.all_eq_false.mpr ⟨item, hi, by simp [liveAt, hp, not_lt.mpr hend]⟩
    simp [callEvents, hall]
  | @batchLive _ items _ _ hact _ _ hlive =>
    have hall : items.all (liveAt now s ·.1) = true := List.all_eq_true.mpr fun item hi => by
      obtain ⟨pr, hp, -⟩ := hact item hi
      simp [liveAt, hp, hlive item hi pr hp]
    simp [callEvents, hall]

theorem call_events_twoAye : ∃ s, Reachable templateConfig s ∧ ∃ s' es,
    dispatch templateConfig 0 s (.signed 1)
      (.voteMultipleProposals [(1, 16, .aye), (2, 4, .aye)]) = .ok (s', es) ∧
    es = callEvents templateConfig 0 s (.signed 1) (.voteMultipleProposals [(1, 16, .aye), (2, 4, .aye)]) := by
  obtain ⟨s, hs, h⟩ := twoProposalsRun_reserve (k := 20) (by decide) (by decide)
  have hr : s.balances.reserved 1 = 20 := (h.accounts _ (List.mem_singleton_self _)).2
  obtain ⟨m, ht⟩ := Option.isSome_iff_exists.mp
    (by simp only [tallyBatch, ← integerSqrt_eq_sqrt]; decide :
      (tallyBatch templateConfig 1 [(1, 16, .aye), (2, 4, .aye)] ∅).isSome)
  obtain ⟨es, hd⟩ := twoProposals_batchLive h (by decide) (by rw [hr]; decide) ht
  exact ⟨s, hs, _, es, hd, call_events hd⟩

end QuadraticVoting.Pallet
