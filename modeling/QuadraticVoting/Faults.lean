import QuadraticVoting.Balances

/-! The panics of the pallet. Every `expect` of the pallet follows a check that makes it
succeed, except one: the deadline branch of `vote_multiple_proposals` completes the proposal
`get_winner` returns, and when no proposal has a vote `get_winner` returns `0`, which is not a
stored proposal, so `update_proposal_status_to_completed` panics. -/
namespace QuadraticVoting.Pallet

variable {c : Config} {s : State} {now : ℕ} {origin : Origin} {call : Call} {msg : String}
variable {α β : Type}

@[simp] theorem bind_eq_panic {x : Except Fault α} {f : α → Except Fault β} :
    x >>= f = .error (.panic msg) ↔
      x = .error (.panic msg) ∨ ∃ a, x = .ok a ∧ f a = .error (.panic msg) := by
  cases x <;> simp [bind, Except.bind]

@[simp] theorem pure_eq_error {a : α} {e : Fault} : (pure a : Except Fault α) = .error e ↔ False := by
  simp [pure, Except.pure]

@[simp] theorem map_eq_panic {x : Except Fault α} {f : α → β} :
    f <$> x = .error (.panic msg) ↔ x = .error (.panic msg) := by
  cases x <;> simp [Functor.map, Except.map]

@[simp] theorem ensure_eq_panic {b : Bool} {e : Error} : ensure b e = .error (.panic msg) ↔ False := by
  cases b <;> simp [ensure]

@[simp] theorem ensureSigned_eq_panic : ensureSigned origin = .error (.panic msg) ↔ False := by
  cases origin <;> simp [ensureSigned]

@[simp] theorem ensureRoot_eq_panic : ensureRoot origin = .error (.panic msg) ↔ False := by
  cases origin <;> simp [ensureRoot]

@[simp] theorem okOr_eq_panic {o : Option α} {e : DispatchError} :
    okOr o e = .error (.panic msg) ↔ False := by
  cases o <;> simp [okOr]

@[simp] theorem expectSome_eq_panic {o : Option α} {m : String} :
    expectSome o m = .error (.panic msg) ↔ o = none ∧ msg = m := by
  cases o <;> simp [expectSome, eq_comm]

@[simp] theorem expectOk_eq_panic {x : Except Fault α} {m : String} :
    expectOk x m = .error (.panic msg) ↔ (∀ a, x ≠ .ok a) ∧ msg = m := by
  cases x <;> simp [expectOk, eq_comm]

@[simp] theorem mapError_dispatch_eq_panic {x : Except DispatchError α} :
    x.mapError Fault.dispatch = .error (.panic msg) ↔ False := by
  cases x <;> simp [Except.mapError]

@[simp] theorem checkedSubBetweenBalances_eq_panic {a b : ℕ} :
    checkedSubBetweenBalances a b = .error (.panic msg) ↔ False := by
  unfold checkedSubBetweenBalances; split_ifs <;> simp

@[simp] theorem checkedAddBetweenBalances_eq_panic {a b : ℕ} :
    checkedAddBetweenBalances c a b = .error (.panic msg) ↔ False := by
  unfold checkedAddBetweenBalances; split_ifs <;> simp

@[simp] theorem checkedDivBetweenBalances_eq_panic {a b : ℕ} :
    checkedDivBetweenBalances a b = .error (.panic msg) ↔ False := by
  unfold checkedDivBetweenBalances; split_ifs <;> simp

@[simp] theorem getProposalStatus_eq_panic {p : ℕ} :
    getProposalStatus s p = .error (.panic msg) ↔
      p ∉ s.proposals ∧ msg = "Proposal already checked to be registered" := by
  simp [getProposalStatus, Finmap.lookup_eq_none]

@[simp] theorem getProposalEndBlock_eq_panic {p : ℕ} :
    getProposalEndBlock s p = .error (.panic msg) ↔
      p ∉ s.proposals ∧ msg = "Proposal already checked to be registered" := by
  simp [getProposalEndBlock, Finmap.lookup_eq_none]

@[simp] theorem updateProposalStatusToCompleted_eq_panic {p : ℕ} :
    updateProposalStatusToCompleted s p = .error (.panic msg) ↔
      p ∉ s.proposals ∧ msg = "Proposal already checked to be registered" := by
  simp [updateProposalStatusToCompleted, Finmap.lookup_eq_none]

theorem startProposal_ne_panic {p fee : ℕ} : startProposal s origin p fee ≠ .error (.panic msg) := by
  intro h
  cases hp : s.proposals.lookup p with
  | none => simp [startProposal, hp] at h
  | some pr => simp [startProposal, hp, Finmap.mem_of_lookup_eq_some hp] at h

theorem voteProposal_ne_panic {p : ℕ} {vote : Vote} :
    voteProposal c now s origin p vote ≠ .error (.panic msg) := by
  intro h
  cases hp : s.proposals.lookup p with
  | none => simp [voteProposal, Finmap.lookup_eq_none.mp hp] at h
  | some pr =>
    cases vote <;> simp [voteProposal, hp, Finmap.mem_of_lookup_eq_some hp] at h <;>
      obtain ⟨_, -, -, -, h⟩ := h <;> split_ifs at h <;> simp [Finmap.mem_of_lookup_eq_some hp] at h

theorem voteItem_ne_panic {who : ℕ} {ps : List (ℕ × ℕ × Vote)} {acc : State × List Event}
    {item : ℕ × ℕ × Vote} : voteItem c who ps acc item ≠ .error (.panic msg) := by
  obtain ⟨p, t, v⟩ := item
  cases v <;> simp [voteItem]
  omega

theorem foldlM_voteItem_ne_panic {who : ℕ} {ps items : List (ℕ × ℕ × Vote)}
    {acc : State × List Event} : items.foldlM (voteItem c who ps) acc ≠ .error (.panic msg) := by
  induction items generalizing acc with
  | nil => simp [List.foldlM]
  | cons item items ih => simp [List.foldlM, voteItem_ne_panic, ih]

/-- A call panics only in the deadline branch of `vote_multiple_proposals` when no stored
proposal has a vote: `get_winner` then returns `0`, which is not a stored proposal. -/
theorem panic_only_unvoted_deadline (hd : dispatch c now s origin call = .error (.panic msg)) :
    ∃ items, call = .voteMultipleProposals items ∧
      (∃ item ∈ items, ∃ pr, s.proposals.lookup item.1 = some pr ∧ pr.endBlock ≤ now) ∧
      (∀ p ∈ s.proposals, totalVotes s p = 0) ∧ getWinner s = 0 ∧ 0 ∉ s.proposals ∧
      msg = "Proposal already checked to be registered" := by
  cases call with
  | registerVoter => simp [dispatch, registerVoter] at hd
  | createProposal => simp [dispatch, createProposal] at hd
  | startProposal => exact absurd hd startProposal_ne_panic
  | reserveTokens => simp [dispatch, reserveTokens] at hd
  | voteProposal => exact absurd hd voteProposal_ne_panic
  | unreserveTokens =>
    simp [dispatch, unreserveTokens, -Ledger.slash_free, -Ledger.unreserve_free] at hd
  | voteMultipleProposals items =>
    refine ⟨items, rfl, ?_⟩
    by_cases hall : ∀ p t v, (p, t, v) ∈ items →
        ∃ pr, s.proposals.lookup p = some pr ∧ pr.status = .inProgress
    · have hM := allM_endBlock_eq_ok now fun p t v hi => (hall p t v hi).imp fun _ => And.left
      simp [dispatch, voteMultipleProposals, hM, eq_true hall] at hd
      obtain ⟨who, -, -, -, -, hd⟩ := hd
      split_ifs at hd with hdl
      swap; exact absurd hd foldlM_voteItem_ne_panic
      simp only [map_eq_panic, updateProposalStatusToCompleted_eq_panic, List.all_eq_false,
        decide_eq_true_eq, not_forall, Classical.not_imp, not_lt, Prod.exists, exists_and_right] at hd hdl
      obtain ⟨hw, rfl⟩ := hd
      obtain ⟨p, ⟨t, v, hi⟩, pr, hp, hend⟩ := hdl
      rcases getWinner_cases (s := s) with ⟨h0, hz⟩ | ⟨-, hmax⟩
      · exact ⟨⟨(p, t, v), hi, pr, hp, hend⟩, hz, h0, h0 ▸ hw, rfl⟩
      · exact absurd hmax.1 hw
    · simp [dispatch, voteMultipleProposals, eq_false hall] at hd

/-- The converse: a batch that passes its checks and lists a proposal at or after its end block
panics when `get_winner` names no stored proposal. -/
theorem dispatch_eq_panic_of_winner_not_mem {who : ℕ} {items : List (ℕ × ℕ × Vote)}
    (hwho : who ∈ s.registeredVoters)
    (hact : ∀ item ∈ items, ∃ pr, s.proposals.lookup item.1 = some pr ∧ pr.status = .inProgress)
    (htot : items.foldl (fun acc i => (acc + i.2.1) % 2 ^ c.balanceBits) 0 ≤ s.balances.reserved who)
    (hfresh : ∀ item ∈ items, (item.1, who) ∉ s.ayeVotes)
    (hexp : ∃ item ∈ items, ∃ pr, s.proposals.lookup item.1 = some pr ∧ pr.endBlock ≤ now)
    (hw : getWinner s ∉ s.proposals) :
    dispatch c now s (.signed who) (.voteMultipleProposals items) =
      .error (.panic "Proposal already checked to be registered") := by
  have hall : ∀ p t v, (p, t, v) ∈ items →
      ∃ pr, s.proposals.lookup p = some pr ∧ pr.status = .inProgress := fun _ _ _ hi => hact _ hi
  have hM := allM_endBlock_eq_ok now fun p t v hi => (hall p t v hi).imp fun _ => And.left
  obtain ⟨item, hi, pr, hp, hend⟩ := hexp
  have hdl : (items.all fun i =>
      decide (∀ pr, s.proposals.lookup i.1 = some pr → now < pr.endBlock)) = false :=
    List.all_eq_false.mpr ⟨item, hi, by simpa [hp] using hend⟩
  have hfresh' : ∀ p t v, (p, t, v) ∈ items → (p, who) ∉ s.ayeVotes := fun _ _ _ hi => hfresh _ hi
  simpa [dispatch, voteMultipleProposals, hM, eq_true hall, hdl, hwho, Ledger.reservedBalance, htot,
    updateProposalStatusToCompleted, Finmap.lookup_eq_none.mpr hw] using hfresh'

/-- Voter `1` creates proposal `1` at block `0` and starts it; nobody votes on it. -/
def unvotedRun : List (ℕ × Origin × Call) :=
  [(0, .root, .registerVoter 1 5), (0, .signed 1, .createProposal 0),
   (0, .signed 1, .startProposal 1 1)]

/-- The tables `unvotedRun` leaves: proposal `1` started, ending at block `10`, and no vote. -/
def unvotedTables : State :=
  { State.genesis ⟨fun _ => 0, fun _ => 0⟩ with
    registeredVoters := [⟨1, true⟩].toFinmap
    proposals := [⟨1, ⟨1, 0, 1, 10, .inProgress⟩⟩].toFinmap
    proposalCount := 1 }

theorem unvotedRun_matches : RunsTo templateConfig (.genesis ⟨fun _ => 0, fun _ => 0⟩) unvotedRun
    (Matches · unvotedTables [(1, 94, 0)]) := by
  decide

theorem panic_only_unvoted_deadline_unvoted : ∃ s, Reachable templateConfig s ∧
    dispatch templateConfig 10 s (.signed 1) (.voteMultipleProposals [(1, 0, .aye)]) =
      .error (.panic "Proposal already checked to be registered") ∧
    ∃ items, Call.voteMultipleProposals [(1, 0, .aye)] = .voteMultipleProposals items ∧
      (∃ item ∈ items, ∃ pr, s.proposals.lookup item.1 = some pr ∧ pr.endBlock ≤ 10) ∧
      (∀ p ∈ s.proposals, totalVotes s p = 0) ∧ getWinner s = 0 ∧ 0 ∉ s.proposals ∧
      "Proposal already checked to be registered" = "Proposal already checked to be registered" := by
  obtain ⟨s, hs, h⟩ := RunsTo.reachable _ (.genesis _) unvotedRun_matches
  have hp : s.proposals.lookup 1 = some ⟨1, 0, 1, 10, .inProgress⟩ := by rw [h.proposals]; rfl
  have hw : getWinner s = 0 :=
    (getWinner_congr (t := unvotedTables) (by rw [h.proposals]) h.ayeVotes).trans (by decide)
  have hd : dispatch templateConfig 10 s (.signed 1) (.voteMultipleProposals [(1, 0, .aye)]) =
      .error (.panic "Proposal already checked to be registered") :=
    dispatch_eq_panic_of_winner_not_mem (by rw [h.registeredVoters]; decide) (by simp [hp]) (by simp)
      (by rw [h.ayeVotes]; decide) ⟨_, List.mem_singleton_self _, _, hp, le_rfl⟩
      (by rw [hw, h.proposals]; decide)
  exact ⟨s, hs, hd, panic_only_unvoted_deadline hd⟩

/-- At the end block of the only proposal, which has no votes, a batch naming it panics in
`update_proposal_status_to_completed(0)`. -/
theorem batch_deadline_panics_without_votes : ∃ s, Reachable templateConfig s ∧
    dispatch templateConfig 10 s (.signed 1) (.voteMultipleProposals [(1, 0, .aye)]) =
      .error (.panic "Proposal already checked to be registered") := by
  obtain ⟨s, hs, h⟩ := RunsTo.reachable _ (.genesis _) unvotedRun_matches
  have hp : s.proposals.lookup 1 = some ⟨1, 0, 1, 10, .inProgress⟩ := by rw [h.proposals]; rfl
  have hw : getWinner s = 0 :=
    (getWinner_congr (t := unvotedTables) (by rw [h.proposals]) h.ayeVotes).trans (by decide)
  exact ⟨s, hs, dispatch_eq_panic_of_winner_not_mem (by rw [h.registeredVoters]; decide) (by simp [hp])
    (by simp) (by rw [h.ayeVotes]; decide) ⟨_, List.mem_singleton_self _, _, hp, le_rfl⟩
    (by rw [hw, h.proposals]; decide)⟩

end QuadraticVoting.Pallet
