import QuadraticVoting.Winner

/-! The proposal table over runs. Until `Proposals::count()` reaches `u32::MAX` the keys are
exactly `1..count`, every record sits under its own index and only started proposals hold
votes, so `create_proposal` writes a fresh key and a record only moves forward through its
lifecycle. At `u32::MAX` the counter saturates, `count() + 1` wraps to `0`, and every later
creation overwrites proposal `0`. No lifecycle is ever blocked: a registered voter with free
tokens can carry a new proposal through its creation, its start and its completion. -/
namespace QuadraticVoting.Pallet

variable {c : Config} {s s' : State} {now : ℕ} {origin : Origin} {call : Call} {es : List Event}

/-- The invariant of the proposal table. -/
structure Inv (s : State) : Prop where
  count_le : s.proposalCount ≤ u32Max
  index_eq : ∀ k pr, s.proposals.lookup k = some pr → pr.proposalIndex = k
  /-- Before the counter saturates the keys are `1..count`. -/
  keys_eq : s.proposalCount < u32Max → ∀ k, k ∈ s.proposals ↔ 1 ≤ k ∧ k ≤ s.proposalCount
  /-- Before the counter saturates every vote is on a stored proposal that has started. -/
  voted_started : s.proposalCount < u32Max → ∀ k ∈ s.ayeVotes,
    ∃ pr, s.proposals.lookup k.1 = some pr ∧ pr.status ≠ .notStarted

theorem index_eq_insert {m : Finmap (fun _ : ℕ => Proposal)} {k : ℕ} {v : Proposal}
    (hv : v.proposalIndex = k) (h : ∀ j pr, m.lookup j = some pr → pr.proposalIndex = j) :
    ∀ j pr, (m.insert k v).lookup j = some pr → pr.proposalIndex = j := by
  intro j pr hj
  by_cases hjk : j = k
  · subst hjk; rw [Finmap.lookup_insert] at hj; cases hj; exact hv
  · rw [Finmap.lookup_insert_of_ne _ hjk] at hj; exact h j pr hj

namespace Inv

theorem genesis (l : Ledger) : Inv (State.genesis l) where
  count_le := by simp [State.genesis, u32Max]
  index_eq := by simp [State.genesis]
  keys_eq _ k := by simp only [State.genesis, Finmap.not_mem_empty, false_iff]; omega
  voted_started := by simp [State.genesis, Finmap.not_mem_empty]

/-- The invariant reads only the proposals, the counter and the votes. -/
theorem congr (h : Inv s) (hp : s'.proposals = s.proposals)
    (hc : s'.proposalCount = s.proposalCount) (ha : s'.ayeVotes = s.ayeVotes) : Inv s' := by
  refine ⟨?_, ?_, ?_, ?_⟩ <;> simp only [hp, hc, ha]
  exacts [h.count_le, h.index_eq, h.keys_eq, h.voted_started]

/-- A stored record rewritten with a status other than `NotStarted`, as `start_proposal` and
`update_proposal_status_to_completed` do. -/
theorem rewrite (h : Inv s) {k : ℕ} {pr : Proposal} {st : ProposalStatus}
    (hk : s.proposals.lookup k = some pr) (hst : st ≠ .notStarted) :
    Inv { s with proposals := s.proposals.insert k ⟨k, pr.text, pr.proposer, pr.endBlock, st⟩ } where
  count_le := h.count_le
  index_eq := index_eq_insert rfl h.index_eq
  keys_eq hc j := by
    rw [Finmap.mem_insert, or_iff_right_of_imp fun e => e ▸ Finmap.mem_of_lookup_eq_some hk]
    exact h.keys_eq hc j
  voted_started hc v hv := by
    obtain ⟨pr', hpr', hst'⟩ := h.voted_started hc v hv
    by_cases hvk : v.1 = k
    · exact ⟨_, by rw [hvk, Finmap.lookup_insert], hst⟩
    · exact ⟨pr', by rw [Finmap.lookup_insert_of_ne _ hvk, hpr'], hst'⟩

/-- Before the counter saturates, `count() + 1` does not wrap and names a fresh key. -/
theorem fresh_key (h : Inv s) (hc : s.proposalCount < u32Max) :
    (s.proposalCount + 1) % 2 ^ 32 = s.proposalCount + 1 ∧ s.proposalCount + 1 ∉ s.proposals :=
  ⟨Nat.mod_eq_of_lt (by simp only [u32Max] at hc; omega), fun hm => by
    have := (h.keys_eq hc _).mp hm; omega⟩

/-- What `create_proposal` writes keeps the invariant, at every counter value. -/
theorem create (h : Inv s) (text who e : ℕ) :
    Inv (s.insertProposal ((s.proposalCount + 1) % 2 ^ 32)
      ⟨(s.proposalCount + 1) % 2 ^ 32, text, who, e, .notStarted⟩) := by
  rw [State.insertProposal_eq]
  have hle := h.count_le
  by_cases hc : s.proposalCount < u32Max
  · obtain ⟨hkey, hfresh⟩ := h.fresh_key hc
    rw [hkey, if_neg hfresh, min_eq_left (by omega)]
    refine ⟨by dsimp only; omega, index_eq_insert rfl h.index_eq, fun _ j => ?_, fun _ v hv => ?_⟩
    · dsimp only; rw [Finmap.mem_insert, h.keys_eq hc j]; omega
    · obtain ⟨pr, hpr, hst⟩ := h.voted_started hc v hv
      have hne : v.1 ≠ s.proposalCount + 1 := fun e =>
        hfresh (e ▸ Finmap.mem_of_lookup_eq_some hpr)
      exact ⟨pr, by rw [Finmap.lookup_insert_of_ne _ hne, hpr], hst⟩
  · have hcount : s.proposalCount = u32Max := by omega
    refine ⟨?_, index_eq_insert rfl h.index_eq, fun hc' => ?_, fun hc' => ?_⟩ <;>
      split_ifs at * <;> simp only [hcount, min_eq_right (Nat.le_succ _)] at * <;> omega

theorem vote (h : Inv s) {p who v : ℕ} {pr : Proposal} (hp : s.proposals.lookup p = some pr)
    (hst : pr.status = .inProgress) : Inv { s with ayeVotes := s.ayeVotes.insert (p, who) v } where
  count_le := h.count_le
  index_eq := h.index_eq
  keys_eq := h.keys_eq
  voted_started hc k hk := by
    rcases Finmap.mem_insert.mp hk with rfl | hk
    · exact ⟨pr, hp, by simp [hst]⟩
    · exact h.voted_started hc k hk

theorem tally (h : Inv s) {who : ℕ} {items : List (ℕ × ℕ × Vote)}
    {m : Finmap (fun _ : ℕ × ℕ => ℕ)} (ht : tallyBatch c who items s.ayeVotes = some m)
    (hall : ∀ item ∈ items, ∃ pr, s.proposals.lookup item.1 = some pr ∧ pr.status = .inProgress) :
    Inv { s with ayeVotes := m } where
  count_le := h.count_le
  index_eq := h.index_eq
  keys_eq := h.keys_eq
  voted_started hc k hk := by
    by_cases hold : k ∈ s.ayeVotes
    · exact h.voted_started hc k hold
    · obtain ⟨x, hx⟩ := Finmap.mem_iff.mp hk
      obtain ⟨item, hi, -, rfl⟩ := tallyBatch_lookup_ne c ht (k := k)
        (by rw [hx, Finmap.lookup_eq_none.mpr hold]; simp)
      obtain ⟨pr, hpr, hst⟩ := hall item hi
      exact ⟨pr, hpr, by simp [hst]⟩

theorem step (h : Inv s) (hd : dispatch c now s origin call = .ok (s', es)) : Inv s' := by
  cases dispatch_eq_ok_iff.mp hd with
  | registerVoter | reserveTokens | unreserveTokens => exact h.congr rfl rfl rfl
  | createProposal => exact h.create _ _ _
  | startProposal _ hp =>
    rw [State.insertProposal_of_mem _ (Finmap.mem_of_lookup_eq_some hp)]
    exact (h.rewrite hp (by simp)).congr rfl rfl rfl
  | voteExpired _ hp => exact h.rewrite hp (by simp)
  | voteAye _ hp hst => exact h.vote hp hst
  | voteOther => exact h
  | batchDeadline _ _ _ _ _ hpw => exact h.rewrite hpw (by simp)
  | batchLive _ hact _ _ _ ht => exact h.tally ht hact

theorem of_reachable (hs : Reachable c s) : Inv s := by
  induction hs with
  | genesis l => exact genesis l
  | step now origin call _ hd ih => exact ih.step hd

/-- Before the counter saturates, the proposal `get_winner` returns, when stored, has started:
a positive total needs a vote, and a zero total gives the unused key `0`. -/
theorem winner_started (h : Inv s) (hc : s.proposalCount < u32Max) {pr : Proposal}
    (hw : s.proposals.lookup (getWinner s) = some pr) : pr.status ≠ .notStarted := by
  rcases getWinner_cases (s := s) with ⟨h0, -⟩ | ⟨hpos, -⟩
  · have := (h.keys_eq hc _).mp (Finmap.mem_of_lookup_eq_some hw); omega
  · obtain ⟨k, hk, hk1⟩ := exists_vote_of_totalVotes_pos hpos
    obtain ⟨pr', hpr', hst⟩ := h.voted_started hc k hk
    rw [hk1, hw] at hpr'
    cases hpr'; exact hst

end Inv

/-- What a successful call does to the proposal table: nothing; the insert of `create_proposal`
by a registered signer under `count() + 1`; or a rewrite of a stored record with a new status,
`InProgress` by `start_proposal` of a proposal not started, `Completed` by `vote_proposal` of a
proposal in progress past its end block, or `Completed` by the deadline branch of
`vote_multiple_proposals` on `get_winner`'s choice. -/
theorem proposals_step (hd : dispatch c now s origin call = .ok (s', es)) :
    s'.proposals = s.proposals ∨
    (∃ who text, origin = .signed who ∧ who ∈ s.registeredVoters ∧ call = .createProposal text ∧
      s' = s.insertProposal ((s.proposalCount + 1) % 2 ^ 32)
        ⟨(s.proposalCount + 1) % 2 ^ 32, text, who, now + c.votingPeriod, .notStarted⟩) ∨
    ∃ q pr st, s.proposals.lookup q = some pr ∧
      s'.proposals = s.proposals.insert q ⟨q, pr.text, pr.proposer, pr.endBlock, st⟩ ∧
      ((∃ fee, call = .startProposal q fee) ∧ pr.status = .notStarted ∧ st = .inProgress ∨
        (∃ vote, call = .voteProposal q vote) ∧ pr.status = .inProgress ∧ pr.endBlock ≤ now ∧
          st = .completed ∨
        (∃ items, call = .voteMultipleProposals items ∧
          ∃ item ∈ items, ∃ pr', s.proposals.lookup item.1 = some pr' ∧ pr'.endBlock ≤ now) ∧
          q = getWinner s ∧ st = .completed) := by
  cases dispatch_eq_ok_iff.mp hd with
  | registerVoter | reserveTokens | voteAye | voteOther | unreserveTokens | batchLive => exact .inl rfl
  | @createProposal who text hwho => exact .inr (.inl ⟨who, text, rfl, hwho, rfl, rfl⟩)
  | @startProposal who q fee pr _ hq _ hst =>
    exact .inr (.inr ⟨q, pr, _, hq, by simp [Finmap.mem_of_lookup_eq_some hq],
      .inl ⟨⟨fee, rfl⟩, hst, rfl⟩⟩)
  | @voteExpired who q vote pr _ hq hst hend =>
    exact .inr (.inr ⟨q, pr, _, hq, rfl, .inr (.inl ⟨⟨vote, rfl⟩, hst, hend, rfl⟩)⟩)
  | @batchDeadline who items pw _ _ _ _ hexp hpw =>
    exact .inr (.inr ⟨_, pw, _, hpw, rfl, .inr (.inr ⟨⟨items, rfl, hexp⟩, rfl, rfl⟩)⟩)

/-- Whether a call is `create_proposal`. -/
def isCreateProposal : Call → Bool
  | .createProposal _ => true
  | _ => false

/-- Only `create_proposal` moves the counter: by one below `u32::MAX`, and not at all at it. -/
theorem Inv.count_step (h : Inv s) (hd : dispatch c now s origin call = .ok (s', es)) :
    s'.proposalCount =
      if isCreateProposal call then min (s.proposalCount + 1) u32Max else s.proposalCount := by
  cases dispatch_eq_ok_iff.mp hd with
  | createProposal =>
    have hle := h.count_le
    rw [State.insertProposal_eq]
    by_cases hc : s.proposalCount < u32Max
    · rw [(h.fresh_key hc).1, if_neg (h.fresh_key hc).2]; rfl
    · dsimp only [isCreateProposal]; split_ifs <;> omega
  | startProposal _ hq => simp [isCreateProposal, Finmap.mem_of_lookup_eq_some hq]
  | registerVoter | reserveTokens | voteExpired | voteAye | voteOther | unreserveTokens
    | batchDeadline | batchLive => rfl

/-- From a reachable state, the proposal counter after a successful run is the counter before it
plus the run's `create_proposal` calls, capped at `u32::MAX`: it counts creations, and at
`u32::MAX` it stops. -/
theorem proposalCount_of_run (hs : Reachable c s) {calls : List (ℕ × Origin × Call)}
    (h : run c s calls = .ok s') : s'.proposalCount =
      min (s.proposalCount + (calls.filter fun x => isCreateProposal x.2.2).length) u32Max := by
  induction calls generalizing s with
  | nil => cases h; simpa using (Inv.of_reachable hs).count_le
  | cons call calls ih =>
    obtain ⟨now, origin, call⟩ := call
    simp only [run, bind_eq_ok] at h
    obtain ⟨⟨t, es⟩, hd, h⟩ := h
    have hle := (Inv.of_reachable hs).count_le
    rw [ih (.step now origin call hs hd) h, (Inv.of_reachable hs).count_step hd, List.filter_cons]
    cases isCreateProposal call
    · simp
    · simp; omega

theorem proposalCount_of_run_tieRun : ∃ s, run templateConfig
    (.genesis ⟨fun _ => 0, fun _ => 0⟩) tieRun = .ok s ∧
    Reachable templateConfig (.genesis ⟨fun _ => 0, fun _ => 0⟩) ∧
    s.proposalCount = min ((State.genesis ⟨fun _ => 0, fun _ => 0⟩).proposalCount +
      (tieRun.filter fun x => isCreateProposal x.2.2).length) u32Max := by
  obtain ⟨s, h, -⟩ := tieRun_matches
  exact ⟨s, h, .genesis _, proposalCount_of_run (.genesis _) h⟩

/-- The set of proposals of a reachable state whose counter has not saturated: the keys are
`1..count`, each record is stored under its own index, and `create_proposal` writes the fresh
key `count + 1` and moves the counter to it. -/
theorem proposals_keys_range (hs : Reachable c s) (hc : s.proposalCount < u32Max) :
    (∀ k, k ∈ s.proposals ↔ 1 ≤ k ∧ k ≤ s.proposalCount) ∧
    (∀ k pr, s.proposals.lookup k = some pr → pr.proposalIndex = k) ∧
    ∀ now origin text s' es, createProposal c now s origin text = .ok (s', es) →
      s.proposalCount + 1 ∉ s.proposals ∧ s'.proposalCount = s.proposalCount + 1 ∧
      ∃ who, origin = .signed who ∧ s'.proposals = s.proposals.insert (s.proposalCount + 1)
        ⟨s.proposalCount + 1, text, who, now + c.votingPeriod, .notStarted⟩ := by
  have h := Inv.of_reachable hs
  obtain ⟨hkey, hfresh⟩ := h.fresh_key hc
  refine ⟨h.keys_eq hc, h.index_eq, fun now origin text s' es hd => ?_⟩
  obtain ⟨who, rfl, -, hr⟩ := (createProposal_eq_ok c).mp hd
  cases hr
  rw [hkey, State.insertProposal_eq, if_neg hfresh]
  exact ⟨hfresh, min_eq_left (by omega), who, rfl, rfl⟩

theorem proposals_keys_range_tieRun : ∃ s, Reachable templateConfig s ∧
    s.proposalCount = 2 ∧ s.proposalCount < u32Max ∧
    (∀ k, k ∈ s.proposals ↔ 1 ≤ k ∧ k ≤ s.proposalCount) ∧
    (∀ k pr, s.proposals.lookup k = some pr → pr.proposalIndex = k) ∧
    ∀ now origin text s' es, createProposal templateConfig now s origin text = .ok (s', es) →
      s.proposalCount + 1 ∉ s.proposals ∧ s'.proposalCount = s.proposalCount + 1 ∧
      ∃ who, origin = .signed who ∧ s'.proposals = s.proposals.insert (s.proposalCount + 1)
        ⟨s.proposalCount + 1, text, who, now + templateConfig.votingPeriod, .notStarted⟩ := by
  obtain ⟨s, hs, h⟩ := RunsTo.reachable _ (.genesis _) tieRun_matches
  have hc : s.proposalCount < u32Max := by rw [h.proposalCount]; decide
  exact ⟨s, hs, h.proposalCount, hc, proposals_keys_range hs hc⟩

/-- The moves of a proposal's lifecycle: staying, `NotStarted → InProgress` and
`InProgress → Completed`. -/
def StatusStep (a b : ProposalStatus) : Prop :=
  a = b ∨ a = .notStarted ∧ b = .inProgress ∨ a = .inProgress ∧ b = .completed

/-- A record changed only along its lifecycle: same text, proposer and end block. -/
def RecordStep (pr pr' : Proposal) : Prop :=
  pr'.text = pr.text ∧ pr'.proposer = pr.proposer ∧ pr'.endBlock = pr.endBlock ∧
    StatusStep pr.status pr'.status

theorem RecordStep.refl (pr : Proposal) : RecordStep pr pr := ⟨rfl, rfl, rfl, .inl rfl⟩

/-- Rewriting the record under `q` with a status its own can move to is a lifecycle step for
every stored proposal. -/
theorem recordStep_insert {m : Finmap (fun _ : ℕ => Proposal)} {p q : ℕ} {pr prq : Proposal}
    {st : ProposalStatus} (hq : m.lookup q = some prq) (hst : StatusStep prq.status st)
    (hp : m.lookup p = some pr) : ∃ pr',
      (m.insert q ⟨q, prq.text, prq.proposer, prq.endBlock, st⟩).lookup p = some pr' ∧
        RecordStep pr pr' := by
  by_cases hpq : p = q
  · subst hpq
    rw [hq] at hp
    cases hp
    exact ⟨_, Finmap.lookup_insert _, rfl, rfl, rfl, hst⟩
  · exact ⟨pr, by rw [Finmap.lookup_insert_of_ne _ hpq, hp], RecordStep.refl pr⟩

/-- Before the counter saturates, no call changes a stored proposal's text, proposer or end
block, and its status moves only forward, one step at a time. -/
theorem proposal_record_forward (hs : Reachable c s) (hc : s.proposalCount < u32Max)
    (hd : dispatch c now s origin call = .ok (s', es)) {p : ℕ} {pr : Proposal}
    (hp : s.proposals.lookup p = some pr) :
    ∃ pr', s'.proposals.lookup p = some pr' ∧ RecordStep pr pr' := by
  have h := Inv.of_reachable hs
  rcases proposals_step hd with he | ⟨who, text, -, -, -, rfl⟩ | ⟨q, prq, st, hq, he, hcase⟩
  · exact ⟨pr, he ▸ hp, RecordStep.refl pr⟩
  · obtain ⟨hkey, hfresh⟩ := h.fresh_key hc
    have hne : p ≠ s.proposalCount + 1 := fun e => hfresh (e ▸ Finmap.mem_of_lookup_eq_some hp)
    rw [hkey, State.insertProposal_eq]
    exact ⟨pr, by rw [Finmap.lookup_insert_of_ne _ hne, hp], RecordStep.refl pr⟩
  · rw [he]
    refine recordStep_insert hq ?_ hp
    rcases hcase with ⟨-, hst, rfl⟩ | ⟨-, hst, -, rfl⟩ | ⟨-, rfl, rfl⟩
    · exact .inr (.inl ⟨hst, rfl⟩)
    · exact .inr (.inr ⟨hst, rfl⟩)
    · have := h.winner_started hc hq
      cases hst : prq.status <;> simp_all [StatusStep]

theorem proposal_record_forward_tieRun : ∃ s, Reachable templateConfig s ∧
    s.proposalCount < u32Max ∧ ∃ s' es,
      dispatch templateConfig 10 s (.signed 1) (.voteProposal 1 .aye) = .ok (s', es) ∧
      s.proposals.lookup 1 = some ⟨1, 0, 1, 10, .inProgress⟩ ∧
      ∃ pr', s'.proposals.lookup 1 = some pr' ∧ RecordStep ⟨1, 0, 1, 10, .inProgress⟩ pr' := by
  obtain ⟨s, hs, h⟩ := RunsTo.reachable _ (.genesis _) tieRun_matches
  have hc : s.proposalCount < u32Max := by rw [h.proposalCount]; decide
  have hp : s.proposals.lookup 1 = some ⟨1, 0, 1, 10, .inProgress⟩ := by rw [h.proposals]; rfl
  have hd : dispatch templateConfig 10 s (.signed 1) (.voteProposal 1 .aye) = .ok _ :=
    dispatch_eq_ok_iff.mpr (.voteExpired (by rw [h.registeredVoters]; decide) hp rfl le_rfl)
  exact ⟨s, hs, hc, _, _, hd, hp, proposal_record_forward hs hc hd hp⟩

theorem Reachable.create (hs : Reachable c s) {who : ℕ} (hreg : who ∈ s.registeredVoters)
    (now text : ℕ) : Reachable c (s.insertProposal ((s.proposalCount + 1) % 2 ^ 32)
      ⟨(s.proposalCount + 1) % 2 ^ 32, text, who, now + c.votingPeriod, .notStarted⟩) :=
  .step now (.signed who) (.createProposal text) hs ((createProposal_eq_ok c).mpr ⟨who, rfl, hreg, rfl⟩)

/-- Voter `1` registered at genesis and `n` creations by it, for every `n` up to `u32::MAX`. -/
theorem exists_reachable_count (c : Config) {n : ℕ} (hn : n ≤ u32Max) : ∃ s, Reachable c s ∧
    1 ∈ s.registeredVoters ∧ s.balances.free 1 = 95 ∧ s.proposalCount = n ∧
    ∀ k, k ∈ s.proposals ↔ 1 ≤ k ∧ k ≤ n := by
  induction n with
  | zero =>
    refine ⟨_, .step 0 .root (.registerVoter 1 5) (.genesis ⟨fun _ => 0, fun _ => 0⟩)
      (registerVoter_eq_ok.mpr ⟨rfl, Finmap.not_mem_empty, by decide, by decide, rfl⟩), ?_⟩
    refine ⟨by simp, by simp [Ledger.makeFreeBalanceBe], rfl, fun k => ?_⟩
    simp only [State.genesis, Finmap.not_mem_empty, false_iff]
    omega
  | succ n ih =>
    obtain ⟨s, hs, hreg, hfree, rfl, hkeys⟩ := ih (by omega)
    have hkey : (s.proposalCount + 1) % 2 ^ 32 = s.proposalCount + 1 :=
      Nat.mod_eq_of_lt (by simp only [u32Max] at hn; omega)
    have hfresh : s.proposalCount + 1 ∉ s.proposals := fun hm => by
      have := (hkeys _).mp hm; omega
    refine ⟨_, hs.create hreg 0 0, ?_⟩
    simp only [hkey, State.insertProposal_eq, if_neg hfresh]
    simp only [Finmap.mem_insert, hkeys]
    exact ⟨hreg, hfree, min_eq_left hn, fun k => by omega⟩

/-- After `u32::MAX` creations the counter saturates; the next creation writes key `0`, and the
one after that overwrites it, here a started proposal, with a new `NotStarted` record. -/
theorem createProposal_overwrites_started (c : Config) : ∃ s s' es, Reachable c s ∧
    s.proposals.lookup 0 = some ⟨0, 0, 1, c.votingPeriod, .inProgress⟩ ∧
    dispatch c 1 s (.signed 1) (.createProposal 1) = .ok (s', es) ∧
    s'.proposals.lookup 0 = some ⟨0, 1, 1, 1 + c.votingPeriod, .notStarted⟩ := by
  obtain ⟨s, hs, hreg, hfree, hcount, hkeys⟩ := exists_reachable_count c (le_refl u32Max)
  have hwrap : (s.proposalCount + 1) % 2 ^ 32 = 0 := by rw [hcount]; decide
  have h0 : 0 ∉ s.proposals := fun hm => by have := (hkeys 0).mp hm; omega
  have hs₁ := hs.create hreg 0 0
  rw [hwrap, State.insertProposal_eq, if_neg h0, hcount, zero_add] at hs₁
  have hs₂ := Reachable.step 0 (.signed 1) (.startProposal 0 1) hs₁
    (startProposal_eq_ok.mpr ⟨1, _, rfl, hreg, Finmap.lookup_insert _, by simp [hfree], rfl,
      by decide, rfl⟩)
  refine ⟨_, _, _, hs₂, by simp, (createProposal_eq_ok c).mpr ⟨1, rfl, by simpa using hreg, rfl⟩,
    ?_⟩
  simp [hcount, min_eq_right, u32Max]

/-- No proposal's lifecycle is blocked: from every storage, a registered voter can create a
proposal, start it with a positive fee that its free balance covers, and close it at any block
from its end block on. The three calls succeed and leave the new proposal `Completed`, also once
the counter saturates and the new proposal replaces the one at index `0`. -/
theorem lifecycle_completes {v text fee now later : ℕ} (hv : v ∈ s.registeredVoters)
    (hfee : 0 < fee) (hfree : fee ≤ s.balances.free v) (hlater : now + c.votingPeriod ≤ later)
    (vote : Vote) :
    ∃ t, run c s [(now, .signed v, .createProposal text),
        (now, .signed v, .startProposal ((s.proposalCount + 1) % 2 ^ 32) fee),
        (later, .signed v, .voteProposal ((s.proposalCount + 1) % 2 ^ 32) vote)] = .ok t ∧
      t.proposals.lookup ((s.proposalCount + 1) % 2 ^ 32) =
        some ⟨(s.proposalCount + 1) % 2 ^ 32, text, v, now + c.votingPeriod, .completed⟩ := by
  set k := (s.proposalCount + 1) % 2 ^ 32
  set s₁ := s.insertProposal k ⟨k, text, v, now + c.votingPeriod, .notStarted⟩
  have h₁ : dispatch c now s (.signed v) (.createProposal text) =
      .ok (s₁, [.newProposalCreated k text (now + c.votingPeriod)]) :=
    (createProposal_eq_ok c).mpr ⟨v, rfl, hv, rfl⟩
  have hk₁ : s₁.proposals.lookup k = some ⟨k, text, v, now + c.votingPeriod, .notStarted⟩ := by
    simp [s₁, State.insertProposal_eq]
  set s₂ : State := { s₁.insertProposal k ⟨k, text, v, now + c.votingPeriod, .inProgress⟩ with
    balances := s₁.balances.makeFreeBalanceBe v (s₁.balances.free v - fee) }
  have h₂ : dispatch c now s₁ (.signed v) (.startProposal k fee) = .ok (s₂, [.proposalStarted k]) :=
    startProposal_eq_ok.mpr ⟨v, _, rfl, by simpa [s₁] using hv, hk₁, by simpa [s₁] using hfree, rfl,
      hfee, rfl⟩
  have hk₂ : s₂.proposals.lookup k = some ⟨k, text, v, now + c.votingPeriod, .inProgress⟩ := by
    simp [s₂, s₁, State.insertProposal_eq]
  have h₃ : dispatch c later s₂ (.signed v) (.voteProposal k vote) = .ok ({ s₂ with
      proposals := s₂.proposals.insert k ⟨k, text, v, now + c.votingPeriod, .completed⟩ }, _) :=
    (voteProposal_eq_ok c).mpr ⟨v, _, rfl, by simpa [s₂, s₁] using hv, hk₂, rfl, .inl ⟨hlater, rfl⟩⟩
  exact ⟨_, by simp only [run, bind, Except.bind, h₁, h₂, h₃]; rfl, Finmap.lookup_insert _⟩

theorem lifecycle_completes_registered : ∃ s, Reachable templateConfig s ∧
    1 ∈ s.registeredVoters ∧ 0 < 1 ∧ 1 ≤ s.balances.free 1 ∧ 0 + templateConfig.votingPeriod ≤ 10 ∧
    ∃ t, run templateConfig s [(0, .signed 1, .createProposal 7),
        (0, .signed 1, .startProposal ((s.proposalCount + 1) % 2 ^ 32) 1),
        (10, .signed 1, .voteProposal ((s.proposalCount + 1) % 2 ^ 32) .nay)] = .ok t ∧
      t.proposals.lookup ((s.proposalCount + 1) % 2 ^ 32) =
        some ⟨(s.proposalCount + 1) % 2 ^ 32, 7, 1, 0 + templateConfig.votingPeriod, .completed⟩ := by
  have hd : dispatch templateConfig 0 (.genesis ⟨fun _ => 0, fun _ => 0⟩) .root (.registerVoter 1 5) =
      .ok _ := dispatch_eq_ok_iff.mpr (.registerVoter (Finmap.not_mem_empty) (by decide) (by decide))
  have hv : 1 ∈ (State.genesis ⟨fun _ => 0, fun _ => 0⟩).registeredVoters.insert 1 true :=
    Finmap.mem_insert.mpr (.inl rfl)
  have hfree : 1 ≤ (Ledger.makeFreeBalanceBe ⟨fun _ => 0, fun _ => 0⟩ 1 (100 - 5)).free 1 := by simp
  exact ⟨_, .step 0 .root _ (.genesis _) hd, hv, by decide, hfree, by decide,
    lifecycle_completes hv (by decide) hfree (by decide) .nay⟩

theorem lookup_insert_eq_some {m : Finmap (fun _ : ℕ => Proposal)} {p q : ℕ} {v pr : Proposal}
    (h : (m.insert q v).lookup p = some pr) : p = q ∧ pr = v ∨ p ≠ q ∧ m.lookup p = some pr := by
  by_cases hpq : p = q
  · subst hpq; rw [Finmap.lookup_insert] at h; exact .inl ⟨rfl, (Option.some.inj h).symm⟩
  · rw [Finmap.lookup_insert_of_ne _ hpq] at h; exact .inr ⟨hpq, h⟩

/-- A call completes a proposal only once its end block is reached, except in the deadline
branch of `vote_multiple_proposals`, which completes whatever `get_winner` returns. -/
theorem completed_expired_or_winner (hd : dispatch c now s origin call = .ok (s', es)) {p : ℕ}
    {pr' : Proposal} (hp' : s'.proposals.lookup p = some pr') (hc' : pr'.status = .completed)
    (hnot : ∀ pr, s.proposals.lookup p = some pr → pr.status ≠ .completed) :
    pr'.endBlock ≤ now ∨ ∃ items, call = .voteMultipleProposals items ∧ p = getWinner s ∧
      ∃ item ∈ items, ∃ q, s.proposals.lookup item.1 = some q ∧ q.endBlock ≤ now := by
  rcases proposals_step hd with he | ⟨who, text, -, -, -, rfl⟩ | ⟨q, prq, st, hq, he, hcase⟩
  · exact (hnot pr' (he ▸ hp') hc').elim
  · rw [State.insertProposal_eq] at hp'
    rcases lookup_insert_eq_some hp' with ⟨-, rfl⟩ | ⟨-, hp⟩
    · cases hc'
    · exact (hnot _ hp hc').elim
  · rw [he] at hp'
    rcases lookup_insert_eq_some hp' with ⟨rfl, rfl⟩ | ⟨-, hp⟩
    · rcases hcase with ⟨-, -, rfl⟩ | ⟨-, -, hend, -⟩ | ⟨⟨items, rfl, hexp⟩, rfl, -⟩
      · cases hc'
      · exact .inl hend
      · exact .inr ⟨items, rfl, rfl, hexp⟩
    · exact (hnot _ hp hc').elim

theorem completed_expired_or_winner_tieRun : ∃ s, Reachable templateConfig s ∧ ∃ s' es,
    dispatch templateConfig 10 s (.signed 1) (.voteProposal 1 .aye) = .ok (s', es) ∧
    s'.proposals.lookup 1 = some ⟨1, 0, 1, 10, .completed⟩ ∧
    (∀ pr, s.proposals.lookup 1 = some pr → pr.status ≠ .completed) ∧
    ((⟨1, 0, 1, 10, .completed⟩ : Proposal).endBlock ≤ 10 ∨ ∃ items,
      Call.voteProposal 1 .aye = .voteMultipleProposals items ∧ 1 = getWinner s ∧
      ∃ item ∈ items, ∃ q, s.proposals.lookup item.1 = some q ∧ q.endBlock ≤ 10) := by
  obtain ⟨s, hs, h⟩ := RunsTo.reachable _ (.genesis _) tieRun_matches
  have hp : s.proposals.lookup 1 = some ⟨1, 0, 1, 10, .inProgress⟩ := by rw [h.proposals]; rfl
  have hd : dispatch templateConfig 10 s (.signed 1) (.voteProposal 1 .aye) = .ok _ :=
    dispatch_eq_ok_iff.mpr (.voteExpired (by rw [h.registeredVoters]; decide) hp rfl le_rfl)
  have h' : (s.proposals.insert 1 ⟨1, 0, 1, 10, .completed⟩).lookup 1 =
      some ⟨1, 0, 1, 10, .completed⟩ := Finmap.lookup_insert _
  have hnot : ∀ pr, s.proposals.lookup 1 = some pr → pr.status ≠ .completed := fun pr hpr => by
    rw [hp] at hpr; cases hpr; decide
  exact ⟨s, hs, _, _, hd, h', hnot, completed_expired_or_winner hd h' rfl hnot⟩

/-- Proposal `1` ends at block `10`; proposal `2`, created at block `5`, ends at `15` and holds
voter `1`'s weight `2`. -/
def staleRun : List (ℕ × Origin × Call) :=
  [(0, .root, .registerVoter 1 5), (0, .root, .registerVoter 2 5),
   (0, .signed 1, .createProposal 0), (5, .signed 1, .createProposal 0),
   (5, .signed 1, .startProposal 1 1), (5, .signed 1, .startProposal 2 1),
   (5, .signed 1, .reserveTokens 4), (5, .signed 1, .voteProposal 2 .aye)]

/-- The tables `staleRun` leaves. -/
def staleTables : State :=
  { State.genesis ⟨fun _ => 0, fun _ => 0⟩ with
    registeredVoters := [⟨1, true⟩, ⟨2, true⟩].toFinmap
    proposals := [⟨1, ⟨1, 0, 1, 10, .inProgress⟩⟩, ⟨2, ⟨2, 0, 1, 15, .inProgress⟩⟩].toFinmap
    proposalCount := 2
    ayeVotes := [⟨(2, 1), 2⟩].toFinmap }

theorem staleRun_matches : RunsTo templateConfig (.genesis ⟨fun _ => 0, fun _ => 0⟩) staleRun
    (Matches · staleTables [(1, 89, 4), (2, 95, 0)]) := by
  decide

set_option maxRecDepth 8000 in
/-- At block `12` a batch naming the expired proposal `1` completes proposal `2`, which ends at
block `15`. -/
theorem batch_completes_live_proposal : ∃ s, Reachable templateConfig s ∧ ∃ s' es,
    dispatch templateConfig 12 s (.signed 2) (.voteMultipleProposals [(1, 0, .aye)]) =
      .ok (s', es) ∧
    s.proposals.lookup 2 = some ⟨2, 0, 1, 15, .inProgress⟩ ∧
    s'.proposals.lookup 2 = some ⟨2, 0, 1, 15, .completed⟩ := by
  obtain ⟨s, hs, h⟩ := RunsTo.reachable _ (.genesis _) staleRun_matches
  have hw : getWinner s = 2 :=
    (getWinner_congr (t := staleTables) (by rw [h.proposals]) h.ayeVotes).trans (by decide)
  have hp₁ : s.proposals.lookup 1 = some ⟨1, 0, 1, 10, .inProgress⟩ := by rw [h.proposals]; rfl
  have hp₂ : s.proposals.lookup (getWinner s) = some ⟨2, 0, 1, 15, .inProgress⟩ := by
    rw [hw, h.proposals]; rfl
  have hd : dispatch templateConfig 12 s (.signed 2) (.voteMultipleProposals [(1, 0, .aye)]) =
      .ok _ := dispatch_eq_ok_iff.mpr (.batchDeadline (by rw [h.registeredVoters]; decide)
    (by simp [hp₁]) (by simp) (by rw [h.ayeVotes]; decide) ⟨_, List.mem_singleton_self _, _, hp₁, by decide⟩ hp₂)
  exact ⟨s, hs, _, _, hd, hw ▸ hp₂, by simp [hw]⟩

end QuadraticVoting.Pallet
