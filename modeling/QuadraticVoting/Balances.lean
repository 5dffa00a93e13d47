import QuadraticVoting.Tally

/-! What the calls do to the balances pallet's ledger. A signed call moves only its signer's
tokens: `start_proposal` burns the fee, `reserve_tokens` and `unreserve_tokens` move tokens
between the free and the reserved balance, and `unreserve_tokens` then slashes half the amount
from the free balance, which the tokens just unreserved always cover. The vote calls rewrite the
free balance with its own value, so a vote consumes no tokens: the same reserved tokens back an
`Aye` of full weight on every proposal. -/
namespace QuadraticVoting.Pallet

variable {c : Config} {s s' : State} {now : ℕ} {call : Call} {es : List Event}

/-- What a successful call adds to its signer's reserved balance. -/
def reservedDelta : Call → ℤ
  | .reserveTokens amount => amount
  | .unreserveTokens amount => -amount
  | _ => 0

/-- What a successful call adds to its signer's total balance. -/
def totalDelta : Call → ℤ
  | .startProposal _ fee => -fee
  | .unreserveTokens amount => -(amount / 2 : ℕ)
  | _ => 0

variable {origin : Origin}

/-- What a successful call adds to account `a`'s reserved and total balances: the call's deltas
when `a` signs it and nothing otherwise, unless the call is a root `register_voter` of `a`, which
rewrites its free balance. -/
theorem account_step (hd : dispatch c now s origin call = .ok (s', es)) {a : ℕ}
    (ha : ∀ fee, call ≠ .registerVoter a fee) :
    (s'.balances.reserved a : ℤ) =
        s.balances.reserved a + (if origin = .signed a then reservedDelta call else 0) ∧
      (s'.balances.totalBalance a : ℤ) =
        s.balances.totalBalance a + (if origin = .signed a then totalDelta call else 0) := by
  cases dispatch_eq_ok_iff.mp hd with
  | @registerVoter v fee =>
    have hne : a ≠ v := fun e => ha fee (e ▸ rfl)
    simp [Ledger.totalBalance, hne]
  | createProposal | voteExpired | voteAye | voteOther | batchDeadline | batchLive =>
    simp [reservedDelta, totalDelta]
  | @startProposal who _ _ _ _ _ hfee =>
    by_cases haw : who = a
    · subst haw; simp [Ledger.totalBalance, reservedDelta, totalDelta]; omega
    · simp [Ledger.totalBalance, haw, Ne.symm haw]
  | @reserveTokens who _ _ _ hamt =>
    by_cases haw : who = a
    · subst haw; simp [Ledger.totalBalance, reservedDelta, totalDelta]; omega
    · simp [Ledger.totalBalance, haw, Function.update_noteq (Ne.symm haw)]
  | @unreserveTokens who _ _ _ hamt =>
    by_cases haw : who = a
    · subst haw
      simp only [Ledger.totalBalance, Ledger.slash_free, Ledger.slash_reserved, Ledger.unreserve_free,
        Ledger.unreserve_reserved, if_pos, reservedDelta, totalDelta]
      omega
    · simp [Ledger.totalBalance, haw, Ne.symm haw]

/-- A signed call is never a `register_voter`, which only a root origin may call. -/
theorem ne_registerVoter_of_signed {v : ℕ} (hd : dispatch c now s (.signed v) call = .ok (s', es))
    (a fee : ℕ) : call ≠ .registerVoter a fee := by
  rintro rfl
  cases (registerVoter_eq_ok.mp hd).1

/-- A successful call signed by `v` leaves every other account's balances alone and changes
`v`'s reserved and total balances by exactly `reservedDelta` and `totalDelta`. -/
theorem signed_call_balances {v : ℕ} (hd : dispatch c now s (.signed v) call = .ok (s', es)) :
    (∀ a ≠ v, s'.balances.free a = s.balances.free a ∧
      s'.balances.reserved a = s.balances.reserved a) ∧
    (s'.balances.reserved v : ℤ) = s.balances.reserved v + reservedDelta call ∧
    (s'.balances.totalBalance v : ℤ) = s.balances.totalBalance v + totalDelta call := by
  refine ⟨fun a ha => ?_, ?_⟩
  · obtain ⟨hr, ht⟩ := account_step hd (ne_registerVoter_of_signed hd a)
    simp only [Origin.signed.injEq, Ne.symm ha, if_false, add_zero, Nat.cast_inj,
      Ledger.totalBalance] at hr ht
    omega
  · simpa using account_step hd (ne_registerVoter_of_signed hd v)

theorem signed_call_balances_unreserve : ∃ s, Reachable templateConfig s ∧ ∃ s' es,
    dispatch templateConfig 0 s (.signed 1) (.unreserveTokens 10) = .ok (s', es) ∧
    (∀ a ≠ 1, s'.balances.free a = s.balances.free a ∧
      s'.balances.reserved a = s.balances.reserved a) ∧
    (s'.balances.reserved 1 : ℤ) = s.balances.reserved 1 + reservedDelta (.unreserveTokens 10) ∧
    (s'.balances.totalBalance 1 : ℤ) =
      s.balances.totalBalance 1 + totalDelta (.unreserveTokens 10) := by
  obtain ⟨s, hs, h⟩ := twoProposalsRun_reserve (k := 20) (by decide) (by decide)
  have hr : s.balances.reserved 1 = 20 := (h.accounts _ (List.mem_singleton_self _)).2
  have hd : dispatch templateConfig 0 s (.signed 1) (.unreserveTokens 10) = .ok _ :=
    dispatch_eq_ok_iff.mpr (.unreserveTokens (by rw [h.registeredVoters]; decide) (by decide)
      (by rw [hr]; decide))
  exact ⟨s, hs, _, _, hd, signed_call_balances hd⟩

/-- Votes consume no reserved tokens: at one block, a registered voter with reserved tokens votes
`Aye` on each listed proposal in turn, each in progress with its end block ahead and not yet voted
on by it, and every vote passes with the full weight `floor(sqrt(reserved))`; the balances and
every other record stay as they were. -/
theorem aye_votes_reuse_reserved {v now : ℕ} {ps : List ℕ} (hreg : v ∈ s.registeredVoters)
    (hr : 0 < s.balances.reserved v) (hnd : ps.Nodup)
    (hps : ∀ p ∈ ps, (p, v) ∉ s.ayeVotes ∧
      ∃ pr, s.proposals.lookup p = some pr ∧ pr.status = .inProgress ∧ now < pr.endBlock) :
    ∃ s', run c s (ps.map fun p => (now, .signed v, .voteProposal p .aye)) = .ok s' ∧
      s'.balances = s.balances ∧
      (∀ p ∈ ps, s'.ayeVotes.lookup (p, v) =
        some (Nat.sqrt (s.balances.reserved v) % 2 ^ c.balanceBits)) ∧
      ∀ k, (∀ p ∈ ps, k ≠ (p, v)) → s'.ayeVotes.lookup k = s.ayeVotes.lookup k := by
  induction ps generalizing s with
  | nil => exact ⟨s, rfl, rfl, by simp, fun _ _ => rfl⟩
  | cons p ps ih =>
    obtain ⟨⟨hfresh, pr, hp, hst, hlive⟩, hps⟩ := List.forall_mem_cons.mp hps
    obtain ⟨hpn, hnd⟩ := List.nodup_cons.mp hnd
    have hne (q : ℕ) (hq : q ∈ ps) : (p, v) ≠ (q, v) := fun e => hpn (by cases e; exact hq)
    let t : State := { s with
      ayeVotes := s.ayeVotes.insert (p, v) (Nat.sqrt (s.balances.reserved v) % 2 ^ c.balanceBits) }
    have hd : voteProposal c now s (.signed v) p .aye = .ok (t, [.proposalVoted p .aye]) :=
      (voteProposal_eq_ok c).mpr ⟨v, pr, rfl, hreg, hp, hst,
        .inr ⟨hlive, hr, .inl ⟨rfl, hfresh, by rw [getAyeVotesBalance_of_not_mem hfresh, zero_add]⟩⟩⟩
    obtain ⟨s', hrun, hbal, hrec, hframe⟩ := ih (s := t) hreg hr hnd fun q hq =>
      ⟨by rw [Finmap.mem_insert, not_or]; exact ⟨(hne q hq).symm, (hps q hq).1⟩, (hps q hq).2⟩
    refine ⟨s', by simpa [run, dispatch, hd] using hrun, hbal, fun q hq => ?_, fun k hk => ?_⟩
    · rcases List.mem_cons.mp hq with rfl | hq
      · rw [hframe _ (hne · ·), Finmap.lookup_insert]
      · exact hrec q hq
    · rw [hframe k fun q hq => hk q (List.mem_cons_of_mem p hq),
        Finmap.lookup_insert_of_ne _ (hk p (List.mem_cons_self p ps))]

theorem aye_votes_reuse_reserved_twoProposals : ∃ s, Reachable templateConfig s ∧
    1 ∈ s.registeredVoters ∧ 0 < s.balances.reserved 1 ∧ [1, 2].Nodup ∧
    (∀ p ∈ [1, 2], (p, 1) ∉ s.ayeVotes ∧
      ∃ pr, s.proposals.lookup p = some pr ∧ pr.status = .inProgress ∧ 0 < pr.endBlock) ∧
    ∃ s', run templateConfig s ([1, 2].map fun p => (0, .signed 1, .voteProposal p .aye)) = .ok s' ∧
      s'.balances = s.balances ∧
      (∀ p ∈ [1, 2], s'.ayeVotes.lookup (p, 1) =
        some (Nat.sqrt (s.balances.reserved 1) % 2 ^ templateConfig.balanceBits)) ∧
      ∀ k, (∀ p ∈ [1, 2], k ≠ (p, 1)) → s'.ayeVotes.lookup k = s.ayeVotes.lookup k := by
  obtain ⟨s, hs, h⟩ := twoProposalsRun_reserve (k := 16) (by decide) (by decide)
  have hreg : 1 ∈ s.registeredVoters := by rw [h.registeredVoters]; decide
  have hr : s.balances.reserved 1 = 16 := (h.accounts _ (List.mem_singleton_self _)).2
  have hps : ∀ p ∈ [1, 2], (p, 1) ∉ s.ayeVotes ∧
      ∃ pr, s.proposals.lookup p = some pr ∧ pr.status = .inProgress ∧ 0 < pr.endBlock := by
    intro p hp
    rw [h.ayeVotes, twoProposals_lookup h (by simpa using hp)]
    exact ⟨Finmap.not_mem_empty, _, rfl, rfl, Nat.succ_pos _⟩
  exact ⟨s, hs, hreg, by omega, by decide, hps,
    aye_votes_reuse_reserved hreg (by omega) (by decide) hps⟩

end QuadraticVoting.Pallet
