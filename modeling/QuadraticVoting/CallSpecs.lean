import QuadraticVoting.Pallet

/-! What each call does when it succeeds: its guards and the storage it leaves. Later files
reason from these lemmas and never unfold a call. -/
namespace QuadraticVoting.Pallet

variable (c : Config)
variable {α β ε : Type}

@[simp] theorem bind_eq_ok {x : Except ε α} {f : α → Except ε β} {r : β} :
    x >>= f = .ok r ↔ ∃ a, x = .ok a ∧ f a = .ok r := by
  cases x <;> simp [bind, Except.bind]

@[simp] theorem pure_eq_ok {a b : α} : (pure a : Except ε α) = .ok b ↔ b = a := by
  simp [pure, Except.pure, eq_comm]

@[simp] theorem map_eq_ok {x : Except ε α} {f : α → β} {r : β} :
    f <$> x = .ok r ↔ ∃ a, x = .ok a ∧ r = f a := by
  cases x <;> simp [Functor.map, Except.map, eq_comm]

@[simp] theorem isOk_eq_true {x : Except ε α} : x.isOk = true ↔ ∃ a, x = .ok a := by
  cases x <;> simp [Except.isOk, Except.toBool]

@[simp] theorem mapError_eq_ok {x : Except ε α} {f : ε → β} {a : α} :
    x.mapError f = .ok a ↔ x = .ok a := by
  cases x <;> simp [Except.mapError]

@[simp] theorem ensure_eq_ok {b : Bool} {e : Error} {u : Unit} : ensure b e = .ok u ↔ b = true := by
  cases b <;> simp [ensure]

@[simp] theorem ensureSigned_eq_ok {o : Origin} {who : ℕ} :
    ensureSigned o = .ok who ↔ o = .signed who := by
  cases o <;> simp [ensureSigned, eq_comm]

@[simp] theorem ensureRoot_eq_ok {o : Origin} {u : Unit} : ensureRoot o = .ok u ↔ o = .root := by
  cases o <;> simp [ensureRoot]

@[simp] theorem expectSome_eq_ok {o : Option α} {m : String} {a : α} :
    expectSome o m = .ok a ↔ o = some a := by
  cases o <;> simp [expectSome]

@[simp] theorem okOr_eq_ok {o : Option α} {e : DispatchError} {a : α} :
    okOr o e = .ok a ↔ o = some a := by
  cases o <;> simp [okOr]

@[simp] theorem expectOk_eq_ok {x : Except Fault α} {m : String} {a : α} :
    expectOk x m = .ok a ↔ x = .ok a := by
  cases x <;> simp [expectOk]

@[simp] theorem checkedSubBetweenBalances_eq_ok {a b r : ℕ} :
    checkedSubBetweenBalances a b = .ok r ↔ b ≤ a ∧ r = a - b := by
  unfold checkedSubBetweenBalances; split_ifs <;> simp [*, eq_comm]

@[simp] theorem checkedAddBetweenBalances_eq_ok {a b r : ℕ} :
    checkedAddBetweenBalances c a b = .ok r ↔ a + b < 2 ^ c.balanceBits ∧ r = a + b := by
  unfold checkedAddBetweenBalances; split_ifs <;> simp [*, eq_comm]

@[simp] theorem checkedDivBetweenBalances_eq_ok {a b r : ℕ} :
    checkedDivBetweenBalances a b = .ok r ↔ b ≠ 0 ∧ r = a / b := by
  unfold checkedDivBetweenBalances; split_ifs <;> simp [*, eq_comm]

variable {s : State} {who p : ℕ}

@[simp] theorem isVoterRegistered_eq : isVoterRegistered s who = decide (who ∈ s.registeredVoters) :=
  rfl

@[simp] theorem isProposalRegistered_eq : isProposalRegistered s p = decide (p ∈ s.proposals) := rfl

@[simp] theorem voterHasVoted_eq : voterHasVoted s p who = decide ((p, who) ∈ s.ayeVotes) := rfl

@[simp] theorem isProposalActive_eq_true :
    isProposalActive s p = true ↔ ∃ pr, s.proposals.lookup p = some pr ∧ pr.status = .inProgress := by
  unfold isProposalActive
  split <;> simp_all [Finmap.mem_of_lookup_eq_some]

/-- An active proposal is registered, so the batch call's first test of the two is redundant. -/
@[simp] theorem registered_and_active_iff :
    (p ∈ s.proposals ∧ ∃ pr, s.proposals.lookup p = some pr ∧ pr.status = .inProgress) ↔
      ∃ pr, s.proposals.lookup p = some pr ∧ pr.status = .inProgress :=
  and_iff_right_of_imp fun ⟨_, h, _⟩ => Finmap.mem_of_lookup_eq_some h

@[simp] theorem getVoterBalance_eq : getVoterBalance s who = s.balances.free who := by
  simp [getVoterBalance, Ledger.totalBalance, Ledger.reservedBalance]

@[simp] theorem getProposal_eq : getProposal s p = s.proposals.lookup p := rfl

@[simp] theorem getProposalEndBlock_eq_ok {e : ℕ} :
    getProposalEndBlock s p = .ok e ↔ ∃ pr, s.proposals.lookup p = some pr ∧ pr.endBlock = e := by
  simp [getProposalEndBlock]

@[simp] theorem getProposalStatus_eq_ok {st : ProposalStatus} :
    getProposalStatus s p = .ok st ↔ ∃ pr, s.proposals.lookup p = some pr ∧ pr.status = st := by
  simp [getProposalStatus]


/-- `update_proposal_status_to_completed` succeeds exactly on a stored proposal, and rewrites
it with status `Completed`. -/
theorem updateProposalStatusToCompleted_eq_ok {s' : State} :
    updateProposalStatusToCompleted s p = .ok s' ↔ ∃ pr, s.proposals.lookup p = some pr ∧
      { s with proposals := s.proposals.insert p ⟨p, pr.text, pr.proposer, pr.endBlock, .completed⟩ }
        = s' := by
  simp only [updateProposalStatusToCompleted, bind_eq_ok, expectSome_eq_ok, getProposal_eq,
    pure_eq_ok]
  refine exists_congr fun pr => and_congr_right fun hpr => ?_
  rw [State.mutateProposal_of_lookup hpr rfl, eq_comm]

variable {origin : Origin} {r : State × List Event}

theorem registerVoter_eq_ok {voterId fee : ℕ} :
    registerVoter s origin voterId fee = .ok r ↔
      origin = .root ∧ voterId ∉ s.registeredVoters ∧ 0 < fee ∧ fee ≤ 100 ∧
      r = ({ s with balances := s.balances.makeFreeBalanceBe voterId (100 - fee),
                    registeredVoters := s.registeredVoters.insert voterId true },
           [.voterRegistered voterId (100 - fee)]) := by
  simp [registerVoter, and_assoc]

theorem createProposal_eq_ok {now text : ℕ} :
    createProposal c now s origin text = .ok r ↔ ∃ who, origin = .signed who ∧
      who ∈ s.registeredVoters ∧
      r = (s.insertProposal ((s.proposalCount + 1) % 2 ^ 32)
            ⟨(s.proposalCount + 1) % 2 ^ 32, text, who, now + c.votingPeriod, .notStarted⟩,
          [.newProposalCreated ((s.proposalCount + 1) % 2 ^ 32) text (now + c.votingPeriod)]) := by
  simp [createProposal, and_assoc]

theorem startProposal_eq_ok {fee : ℕ} :
    startProposal s origin p fee = .ok r ↔ ∃ who pr, origin = .signed who ∧
      who ∈ s.registeredVoters ∧ s.proposals.lookup p = some pr ∧ fee ≤ s.balances.free who ∧
      pr.status = .notStarted ∧ 0 < fee ∧
      r = ({ s.insertProposal p ⟨p, pr.text, pr.proposer, pr.endBlock, .inProgress⟩ with
              balances := s.balances.makeFreeBalanceBe who (s.balances.free who - fee) },
          [.proposalStarted p]) := by
  simp only [startProposal]
  simp [and_assoc]
  constructor
  · rintro ⟨who, rfl, hreg, -, hfee, pr, hpr, hst, hpos, pr', hpr', rfl⟩
    obtain rfl : pr = pr' := Option.some.inj (hpr.symm.trans hpr')
    exact ⟨who, rfl, hreg, pr, hpr, hfee, hst, hpos, rfl⟩
  · rintro ⟨who, rfl, hreg, pr, hpr, hfee, hst, hpos, rfl⟩
    exact ⟨who, rfl, hreg, by simp [hpr], hfee, pr, hpr, hst, hpos, pr, hpr, rfl⟩

theorem reserveTokens_eq_ok {amount : ℕ} :
    reserveTokens s origin amount = .ok r ↔ ∃ who, origin = .signed who ∧
      who ∈ s.registeredVoters ∧ 0 < amount ∧ amount ≤ s.balances.free who ∧
      r = ({ s with
              balances := ⟨Function.update s.balances.free who (s.balances.free who - amount),
                Function.update s.balances.reserved who (s.balances.reserved who + amount)⟩ },
          [.tokensReserved who amount]) := by
  simp [reserveTokens, Ledger.reserve_eq_ok, and_assoc]

theorem unreserveTokens_eq_ok {amount : ℕ} :
    unreserveTokens s origin amount = .ok r ↔ ∃ who, origin = .signed who ∧
      who ∈ s.registeredVoters ∧ 0 < amount ∧ amount ≤ s.balances.reserved who ∧
      r = ({ s with balances := ((s.balances.unreserve who amount).1.slash who (amount / 2)).1 },
          [.tokensUnreserved who amount
            (((s.balances.unreserve who amount).1.slash who (amount / 2)).1.free who)]) := by
  simp [unreserveTokens, Ledger.reservedBalance, -Ledger.slash_free, -Ledger.unreserve_free, and_assoc]

@[simp] theorem getAyeVotesBalance_of_not_mem (h : (p, who) ∉ s.ayeVotes) :
    getAyeVotesBalance s p who = 0 := by
  simp [getAyeVotesBalance, Finmap.lookup_eq_none.mpr h]

theorem voteProposal_eq_ok {now : ℕ} {vote : Vote} :
    voteProposal c now s origin p vote = .ok r ↔ ∃ who pr, origin = .signed who ∧
      who ∈ s.registeredVoters ∧ s.proposals.lookup p = some pr ∧ pr.status = .inProgress ∧
      (pr.endBlock ≤ now ∧
          r = ({ s with
                  proposals := s.proposals.insert p ⟨p, pr.text, pr.proposer, pr.endBlock, .completed⟩ },
            [.votingEnded (getWinner { s with
                  proposals := s.proposals.insert p ⟨p, pr.text, pr.proposer, pr.endBlock, .completed⟩ })]) ∨
        now < pr.endBlock ∧ 0 < s.balances.reserved who ∧
          (vote = .aye ∧ (p, who) ∉ s.ayeVotes ∧
              r = ({ s with
                      ayeVotes := s.ayeVotes.insert (p, who)
                        ((getAyeVotesBalance s p who + Nat.sqrt (s.balances.reserved who)) %
                          2 ^ c.balanceBits) },
                [.proposalVoted p .aye]) ∨
            vote ≠ .aye ∧ r = (s, []))) := by
  cases hpr : s.proposals.lookup p with
  | none => simp [voteProposal, hpr, Finmap.lookup_eq_none.mp hpr]
  | some pr =>
    cases vote <;> simp [voteProposal, hpr, Finmap.mem_of_lookup_eq_some hpr, and_assoc,
      ite_eq_iff, updateProposalStatusToCompleted_eq_ok, Ledger.reservedBalance]

/-- The vote table that `vote_multiple_proposals`' loop leaves for voter `who`, or `none` when
a checked addition overflows. -/
def tallyBatch (who : ℕ) :
    List (ℕ × ℕ × Vote) → Finmap (fun _ : ℕ × ℕ => ℕ) → Option (Finmap (fun _ : ℕ × ℕ => ℕ))
  | [], m => some m
  | (p, t, v) :: items, m =>
    if v = .aye then
      if (m.lookup (p, who)).getD 0 + Nat.sqrt t < 2 ^ c.balanceBits then
        tallyBatch who items (m.insert (p, who) ((m.lookup (p, who)).getD 0 + Nat.sqrt t))
      else none
    else tallyBatch who items m

section tallyBatch

variable {who : ℕ} {items : List (ℕ × ℕ × Vote)} {m m' : Finmap (fun _ : ℕ × ℕ => ℕ)}

/-- The loop writes only the keys `(p, who)` of the batch's `Aye` items. -/
theorem tallyBatch_lookup_ne (h : tallyBatch c who items m = some m') {k : ℕ × ℕ}
    (hk : m'.lookup k ≠ m.lookup k) : ∃ item ∈ items, item.2.2 = .aye ∧ k = (item.1, who) := by
  induction items generalizing m with
  | nil => cases h; exact absurd rfl hk
  | cons item items ih =>
    obtain ⟨p, t, v⟩ := item
    by_cases hv : v = .aye
    · simp only [tallyBatch, hv, if_true] at h
      split_ifs at h
      by_cases hkp : k = (p, who)
      · exact ⟨(p, t, v), List.mem_cons_self _ _, hv, hkp⟩
      · obtain ⟨item, hi, ha, rfl⟩ := ih h (by rwa [Finmap.lookup_insert_of_ne _ hkp])
        exact ⟨item, List.mem_cons_of_mem _ hi, ha, rfl⟩
    · simp only [tallyBatch, hv, if_false] at h
      obtain ⟨item, hi, ha, rfl⟩ := ih h hk
      exact ⟨item, List.mem_cons_of_mem _ hi, ha, rfl⟩

/-- A record of another voter passes through the loop untouched. -/
theorem tallyBatch_insert_of_ne {p q x : ℕ} (hq : q ≠ who) :
    tallyBatch c who items (m.insert (p, q) x) =
      (tallyBatch c who items m).map (·.insert (p, q) x) := by
  induction items generalizing m with
  | nil => rfl
  | cons item items ih =>
    obtain ⟨r, t, v⟩ := item
    have hne : (r, who) ≠ (p, q) := fun h => hq (congrArg Prod.snd h).symm
    by_cases hv : v = .aye
    · simp only [tallyBatch, hv, if_true, Finmap.lookup_insert_of_ne _ hne]
      split_ifs
      · rw [Finmap.insert_insert_of_ne _ hne.symm, ih]
      · rfl
    · simp only [tallyBatch, hv, if_false, ih]

end tallyBatch

theorem voteItem_eq_ok {who t : ℕ} {v : Vote} {ps : List (ℕ × ℕ × Vote)}
    {acc : State × List Event} :
    voteItem c who ps acc (p, t, v) = .ok r ↔
      v = .aye ∧ getAyeVotesBalance acc.1 p who + Nat.sqrt t < 2 ^ c.balanceBits ∧
        r = ({ acc.1 with
                ayeVotes := acc.1.ayeVotes.insert (p, who) (getAyeVotesBalance acc.1 p who + Nat.sqrt t) },
          acc.2 ++ [.proposalsVoted (ps.map (·.1))]) ∨
      v ≠ .aye ∧ r = acc := by
  cases v <;> simp [voteItem, and_assoc]

/-- The loop of `vote_multiple_proposals` writes the table `tallyBatch` computes, and deposits
one `ProposalsVoted` naming the whole batch for each `Aye` item. -/
theorem foldlM_voteItem_eq_ok {who : ℕ} {ps items : List (ℕ × ℕ × Vote)} {es : List Event} :
    items.foldlM (voteItem c who ps) (s, es) = .ok r ↔ ∃ m, tallyBatch c who items s.ayeVotes = some m ∧
      r = ({ s with ayeVotes := m },
        es ++ List.replicate (items.countP (·.2.2 = .aye)) (.proposalsVoted (ps.map (·.1)))) := by
  induction items generalizing s es with
  | nil => simp [tallyBatch]
  | cons item items ih =>
    obtain ⟨q, t, v⟩ := item
    cases v <;> simp [tallyBatch, voteItem_eq_ok, ih, getAyeVotesBalance, List.replicate_succ,
      List.countP_cons, and_assoc]

/-- A check that succeeds on every item makes `allM` succeed with the plain `all`. -/
theorem allM_eq_ok {l : List α} {f : α → Except ε Bool} {g : α → Bool}
    (h : ∀ a ∈ l, f a = .ok (g a)) : l.allM f = .ok (l.all g) := by
  induction l with
  | nil => rfl
  | cons a l ih =>
    simp only [List.allM, h a (List.mem_cons_self a l), List.all_cons]
    cases g a <;> simp [bind, Except.bind, ih fun b hb => h b (List.mem_cons_of_mem a hb)]

/-- Once every item names a stored proposal, the batch's deadline test cannot panic: it is the
plain test that every listed proposal's end block is ahead. -/
theorem allM_endBlock_eq_ok (now : ℕ) {items : List (ℕ × ℕ × Vote)}
    (hall : ∀ p t v, (p, t, v) ∈ items → ∃ pr, s.proposals.lookup p = some pr) :
    items.allM (fun i => (fun e => decide (now < e)) <$> getProposalEndBlock s i.1) =
      .ok (items.all fun i => decide (∀ pr ∈ s.proposals.lookup i.1, now < pr.endBlock)) := by
  refine allM_eq_ok fun ⟨p, t, v⟩ hi => ?_
  obtain ⟨pr, hpr⟩ := hall p t v hi
  simp [getProposalEndBlock, hpr]

theorem voteMultipleProposals_eq_ok {now : ℕ} {items : List (ℕ × ℕ × Vote)} :
    voteMultipleProposals c now s origin items = .ok r ↔ ∃ who, origin = .signed who ∧
      who ∈ s.registeredVoters ∧
      (∀ item ∈ items, ∃ pr, s.proposals.lookup item.1 = some pr ∧ pr.status = .inProgress) ∧
      items.foldl (fun acc i => (acc + i.2.1) % 2 ^ c.balanceBits) 0 ≤ s.balances.reserved who ∧
      (∀ item ∈ items, (item.1, who) ∉ s.ayeVotes) ∧
      ((∃ item ∈ items, ∃ pr, s.proposals.lookup item.1 = some pr ∧ pr.endBlock ≤ now) ∧
          (∃ pr, s.proposals.lookup (getWinner s) = some pr ∧
            r = ({ s with
                    proposals := s.proposals.insert (getWinner s)
                      ⟨getWinner s, pr.text, pr.proposer, pr.endBlock, .completed⟩ },
              [.votingEnded (getWinner s)])) ∨
        (∀ item ∈ items, ∀ pr, s.proposals.lookup item.1 = some pr → now < pr.endBlock) ∧
          ∃ m, tallyBatch c who items s.ayeVotes = some m ∧
            r = ({ s with ayeVotes := m },
              List.replicate (items.countP (·.2.2 = .aye)) (.proposalsVoted (items.map (·.1))))) := by
  by_cases hall : ∀ p t v, (p, t, v) ∈ items →
      ∃ pr, s.proposals.lookup p = some pr ∧ pr.status = .inProgress
  · have hM := allM_endBlock_eq_ok now fun p t v hi => (hall p t v hi).imp fun _ => And.left
    simp [voteMultipleProposals, hM, eq_true hall, foldlM_voteItem_eq_ok,
      updateProposalStatusToCompleted_eq_ok, ite_eq_iff, and_assoc, Ledger.reservedBalance,
      exists_exists_and_eq_and]
  · simp [voteMultipleProposals, eq_false hall]

/-- What a successful call does: one constructor for each branch of the seven calls that
succeeds, with the checks that branch passes, the storage it leaves and the events it
deposits. -/
inductive Effect (now : ℕ) (s : State) : Origin → Call → State → List Event → Prop
  | registerVoter {v fee : ℕ} (hv : v ∉ s.registeredVoters) (hfee : 0 < fee) (hle : fee ≤ 100) :
      Effect now s .root (.registerVoter v fee)
        { s with balances := s.balances.makeFreeBalanceBe v (100 - fee),
                 registeredVoters := s.registeredVoters.insert v true }
        [.voterRegistered v (100 - fee)]
  | createProposal {who text : ℕ} (hwho : who ∈ s.registeredVoters) :
      Effect now s (.signed who) (.createProposal text)
        (s.insertProposal ((s.proposalCount + 1) % 2 ^ 32)
          ⟨(s.proposalCount + 1) % 2 ^ 32, text, who, now + c.votingPeriod, .notStarted⟩)
        [.newProposalCreated ((s.proposalCount + 1) % 2 ^ 32) text (now + c.votingPeriod)]
  | startProposal {who p fee : ℕ} {pr : Proposal} (hwho : who ∈ s.registeredVoters)
      (hp : s.proposals.lookup p = some pr) (hfree : fee ≤ s.balances.free who)
      (hst : pr.status = .notStarted) (hfee : 0 < fee) :
      Effect now s (.signed who) (.startProposal p fee)
        { s.insertProposal p ⟨p, pr.text, pr.proposer, pr.endBlock, .inProgress⟩ with
          balances := s.balances.makeFreeBalanceBe who (s.balances.free who - fee) }
        [.proposalStarted p]
  | reserveTokens {who amount : ℕ} (hwho : who ∈ s.registeredVoters) (hamt : 0 < amount)
      (hfree : amount ≤ s.balances.free who) :
      Effect now s (.signed who) (.reserveTokens amount)
        { s with
          balances := ⟨Function.update s.balances.free who (s.balances.free who - amount),
            Function.update s.balances.reserved who (s.balances.reserved who + amount)⟩ }
        [.tokensReserved who amount]
  /-- `vote_proposal` at or after the end block completes the proposal it names. -/
  | voteExpired {who p : ℕ} {vote : Vote} {pr : Proposal} (hwho : who ∈ s.registeredVoters)
      (hp : s.proposals.lookup p = some pr) (hst : pr.status = .inProgress)
      (hend : pr.endBlock ≤ now) :
      Effect now s (.signed who) (.voteProposal p vote)
        { s with proposals := s.proposals.insert p ⟨p, pr.text, pr.proposer, pr.endBlock, .completed⟩ }
        [.votingEnded (getWinner { s with
          proposals := s.proposals.insert p ⟨p, pr.text, pr.proposer, pr.endBlock, .completed⟩ })]
  | voteAye {who p : ℕ} {pr : Proposal} (hwho : who ∈ s.registeredVoters)
      (hp : s.proposals.lookup p = some pr) (hst : pr.status = .inProgress)
      (hend : now < pr.endBlock) (hres : 0 < s.balances.reserved who)
      (hfresh : (p, who) ∉ s.ayeVotes) :
      Effect now s (.signed who) (.voteProposal p .aye)
        { s with
          ayeVotes := s.ayeVotes.insert (p, who)
            ((getAyeVotesBalance s p who + Nat.sqrt (s.balances.reserved who)) % 2 ^ c.balanceBits) }
        [.proposalVoted p .aye]
  /-- `Nay` and `Abstain` before the end block pass the checks and write nothing. -/
  | voteOther {who p : ℕ} {vote : Vote} {pr : Proposal} (hwho : who ∈ s.registeredVoters)
      (hp : s.proposals.lookup p = some pr) (hst : pr.status = .inProgress)
      (hend : now < pr.endBlock) (hres : 0 < s.balances.reserved who) (hvote : vote ≠ .aye) :
      Effect now s (.signed who) (.voteProposal p vote) s []
  | unreserveTokens {who amount : ℕ} (hwho : who ∈ s.registeredVoters) (hamt : 0 < amount)
      (hres : amount ≤ s.balances.reserved who) :
      Effect now s (.signed who) (.unreserveTokens amount)
        { s with balances := ((s.balances.unreserve who amount).1.slash who (amount / 2)).1 }
        [.tokensUnreserved who amount
          (((s.balances.unreserve who amount).1.slash who (amount / 2)).1.free who)]
  /-- A batch listing a proposal at or after its end block completes `get_winner`'s choice. -/
  | batchDeadline {who : ℕ} {items : List (ℕ × ℕ × Vote)} {pw : Proposal}
      (hwho : who ∈ s.registeredVoters)
      (hact : ∀ item ∈ items, ∃ pr, s.proposals.lookup item.1 = some pr ∧ pr.status = .inProgress)
      (htot : items.foldl (fun acc i => (acc + i.2.1) % 2 ^ c.balanceBits) 0 ≤ s.balances.reserved who)
      (hfresh : ∀ item ∈ items, (item.1, who) ∉ s.ayeVotes)
      (hexp : ∃ item ∈ items, ∃ pr, s.proposals.lookup item.1 = some pr ∧ pr.endBlock ≤ now)
      (hpw : s.proposals.lookup (getWinner s) = some pw) :
      Effect now s (.signed who) (.voteMultipleProposals items)
        { s with
          proposals := s.proposals.insert (getWinner s)
            ⟨getWinner s, pw.text, pw.proposer, pw.endBlock, .completed⟩ }
        [.votingEnded (getWinner s)]
  | batchLive {who : ℕ} {items : List (ℕ × ℕ × Vote)} {m : Finmap (fun _ : ℕ × ℕ => ℕ)}
      (hwho : who ∈ s.registeredVoters)
      (hact : ∀ item ∈ items, ∃ pr, s.proposals.lookup item.1 = some pr ∧ pr.status = .inProgress)
      (htot : items.foldl (fun acc i => (acc + i.2.1) % 2 ^ c.balanceBits) 0 ≤ s.balances.reserved who)
      (hfresh : ∀ item ∈ items, (item.1, who) ∉ s.ayeVotes)
      (hlive : ∀ item ∈ items, ∀ pr, s.proposals.lookup item.1 = some pr → now < pr.endBlock)
      (ht : tallyBatch c who items s.ayeVotes = some m) :
      Effect now s (.signed who) (.voteMultipleProposals items) { s with ayeVotes := m }
        (List.replicate (items.countP (·.2.2 = .aye)) (.proposalsVoted (items.map (·.1))))

variable {c} {now : ℕ} {call : Call} {s' : State} {es : List Event}

/-- The one inversion of `dispatch`: a call succeeds exactly as one branch of `Effect` says. -/
theorem dispatch_eq_ok_iff :
    dispatch c now s origin call = .ok (s', es) ↔ Effect c now s origin call s' es := by
  refine ⟨fun hd => ?_, fun h => ?_⟩
  · cases call with
    | registerVoter v fee =>
      obtain ⟨rfl, hv, hfee, hle, hr⟩ := registerVoter_eq_ok.mp hd
      cases hr; exact .registerVoter hv hfee hle
    | createProposal text =>
      obtain ⟨who, rfl, hwho, hr⟩ := (createProposal_eq_ok c).mp hd
      cases hr; exact .createProposal hwho
    | startProposal p fee =>
      obtain ⟨who, pr, rfl, hwho, hp, hfree, hst, hfee, hr⟩ := startProposal_eq_ok.mp hd
      cases hr; exact .startProposal hwho hp hfree hst hfee
    | reserveTokens amount =>
      obtain ⟨who, rfl, hwho, hamt, hfree, hr⟩ := reserveTokens_eq_ok.mp hd
      cases hr; exact .reserveTokens hwho hamt hfree
    | voteProposal p vote =>
      obtain ⟨who, pr, rfl, hwho, hp, hst, ⟨hend, hr⟩ | ⟨hend, hres, ⟨rfl, hfresh, hr⟩ | ⟨hvote, hr⟩⟩⟩ :=
        (voteProposal_eq_ok c).mp hd <;> cases hr
      exacts [.voteExpired hwho hp hst hend, .voteAye hwho hp hst hend hres hfresh,
        .voteOther hwho hp hst hend hres hvote]
    | unreserveTokens amount =>
      obtain ⟨who, rfl, hwho, hamt, hres, hr⟩ := unreserveTokens_eq_ok.mp hd
      cases hr; exact .unreserveTokens hwho hamt hres
    | voteMultipleProposals items =>
      obtain ⟨who, rfl, hwho, hact, htot, hfresh, ⟨hexp, pw, hpw, hr⟩ | ⟨hlive, m, ht, hr⟩⟩ :=
        (voteMultipleProposals_eq_ok c).mp hd <;> cases hr
      exacts [.batchDeadline hwho hact htot hfresh hexp hpw, .batchLive hwho hact htot hfresh hlive ht]
  · cases h <;> dsimp only [dispatch]
    case registerVoter hv hfee hle => exact registerVoter_eq_ok.mpr ⟨rfl, hv, hfee, hle, rfl⟩
    case createProposal hwho => exact (createProposal_eq_ok c).mpr ⟨_, rfl, hwho, rfl⟩
    case startProposal hwho hp hfree hst hfee =>
      exact startProposal_eq_ok.mpr ⟨_, _, rfl, hwho, hp, hfree, hst, hfee, rfl⟩
    case reserveTokens hwho hamt hfree => exact reserveTokens_eq_ok.mpr ⟨_, rfl, hwho, hamt, hfree, rfl⟩
    case voteExpired hwho hp hst hend =>
      exact (voteProposal_eq_ok c).mpr ⟨_, _, rfl, hwho, hp, hst, .inl ⟨hend, rfl⟩⟩
    case voteAye hwho hp hst hend hres hfresh =>
      exact (voteProposal_eq_ok c).mpr ⟨_, _, rfl, hwho, hp, hst, .inr ⟨hend, hres, .inl ⟨rfl, hfresh, rfl⟩⟩⟩
    case voteOther hwho hp hst hend hres hvote =>
      exact (voteProposal_eq_ok c).mpr ⟨_, _, rfl, hwho, hp, hst, .inr ⟨hend, hres, .inr ⟨hvote, rfl⟩⟩⟩
    case unreserveTokens hwho hamt hres => exact unreserveTokens_eq_ok.mpr ⟨_, rfl, hwho, hamt, hres, rfl⟩
    case batchDeadline hwho hact htot hfresh hexp hpw =>
      exact (voteMultipleProposals_eq_ok c).mpr ⟨_, rfl, hwho, hact, htot, hfresh, .inl ⟨hexp, _, hpw, rfl⟩⟩
    case batchLive hwho hact htot hfresh hlive ht =>
      exact (voteMultipleProposals_eq_ok c).mpr ⟨_, rfl, hwho, hact, htot, hfresh, .inr ⟨hlive, _, ht, rfl⟩⟩

end QuadraticVoting.Pallet
