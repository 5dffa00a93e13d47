import QuadraticVoting.Chain

/-! The token budget. `register_voter` sets a voter's free balance to `100 - fee` with a positive
fee; from then on the voter's tokens only move between its free and reserved balances or are
burnt, by the fee of `start_proposal` and the half that `unreserve_tokens` slashes. An account
outside the registry never gains reserved tokens, since every signed call checks the signer's
registration first and only a signed call reserves. So from a genesis without reserved tokens no
registered voter ever holds more than 99 tokens, whatever the sequence of extrinsics. -/
namespace QuadraticVoting.Pallet

variable {c : Config} {s s' : State} {now : ℕ} {origin : Origin} {call : Call} {es : List Event}

/-- The signer of a successful call is registered. -/
theorem signer_registered {a : ℕ} (hd : dispatch c now s (.signed a) call = .ok (s', es)) :
    a ∈ s.registeredVoters := by
  cases dispatch_eq_ok_iff.mp hd with
  | createProposal h | startProposal h | reserveTokens h | voteExpired h | voteAye h | voteOther h
    | unreserveTokens h | batchDeadline h | batchLive h => exact h

/-- No call adds to its signer's total balance. -/
theorem totalDelta_nonpos (call : Call) : totalDelta call ≤ 0 := by
  cases call <;> simp only [totalDelta] <;> omega

/-- The token budget of the accounts. -/
structure Budget (s : State) : Prop where
  /-- An account outside the registry holds no reserved tokens. -/
  reserved_eq_zero : ∀ a ∉ s.registeredVoters, s.balances.reserved a = 0
  /-- A registered voter holds at most 99 tokens, free and reserved together. -/
  total_le : ∀ a ∈ s.registeredVoters, s.balances.totalBalance a ≤ 99

namespace Budget

theorem genesis {l : Ledger} (hl : ∀ a, l.reserved a = 0) : Budget (State.genesis l) where
  reserved_eq_zero a _ := hl a
  total_le _ ha := absurd ha (Finmap.not_mem_empty)

theorem step (h : Budget s) (hd : dispatch c now s origin call = .ok (s', es)) : Budget s' := by
  constructor
  · intro a ha'
    have ha : a ∉ s.registeredVoters := fun ha => ha' ((mem_registeredVoters_step hd a).mpr (.inl ha))
    have hcall (fee : ℕ) : call ≠ .registerVoter a fee := by
      rintro rfl
      exact ha' ((mem_registeredVoters_step hd a).mpr (.inr ⟨fee, (registerVoter_eq_ok.mp hd).1, rfl⟩))
    have hsig : origin ≠ .signed a := fun e => ha (signer_registered (e ▸ hd))
    have hr := (account_step hd hcall).1
    rw [if_neg hsig, h.reserved_eq_zero a ha] at hr
    omega
  · intro a ha'
    by_cases hcall : ∃ fee, call = .registerVoter a fee
    · obtain ⟨fee, rfl⟩ := hcall
      obtain ⟨rfl, hna, hfee, -, hr⟩ := registerVoter_eq_ok.mp hd
      cases hr
      simp only [Ledger.totalBalance, Ledger.makeFreeBalanceBe_free, Ledger.makeFreeBalanceBe_reserved,
        if_pos, h.reserved_eq_zero a hna]
      omega
    · push_neg at hcall
      have ha : a ∈ s.registeredVoters := by
        rcases (mem_registeredVoters_step hd a).mp ha' with ha | ⟨fee, -, hc⟩
        exacts [ha, absurd hc (hcall fee)]
      have ht := (account_step hd hcall).2
      have hdelta : (if origin = .signed a then totalDelta call else 0) ≤ 0 := by
        split
        exacts [totalDelta_nonpos call, le_rfl]
      have hle := h.total_le a ha
      omega

end Budget

/-- From a genesis without reserved tokens, along every sequence of extrinsics, each at its own
block and a failed one rolled back, no account outside the registry holds reserved tokens and no
registered voter holds more than 99 tokens. -/
theorem budget_of_applyExtrinsics {l : Ledger} (hl : ∀ a, l.reserved a = 0)
    (xs : List (ℕ × Origin × Call)) : Budget (applyExtrinsics c (State.genesis l) xs) :=
  (applyExtrinsics_induction xs Budget (fun _ _ h hd => h.step hd) (.genesis l) (.genesis hl)).2

theorem budget_of_applyExtrinsics_tieRun :
    (∀ a, (⟨fun _ => 0, fun _ => 0⟩ : Ledger).reserved a = 0) ∧
      Budget (applyExtrinsics templateConfig (State.genesis ⟨fun _ => 0, fun _ => 0⟩) tieRun) :=
  ⟨fun _ => rfl, budget_of_applyExtrinsics (fun _ => rfl) tieRun⟩

end QuadraticVoting.Pallet
