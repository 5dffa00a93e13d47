import QuadraticVoting.Batching

/-! Extrinsics submitted twice. `register_voter`, `start_proposal` and the two vote calls cannot
take effect twice at one block: after a success the same extrinsic fails on its own record (the
voter is registered, the proposal started or completed, the vote recorded), or, when it changed
nothing, changes nothing again. The deadline branch of `vote_multiple_proposals` completes the
same winner again, since completing a proposal moves neither the keys nor the votes that
`get_winner` reads. So a second submission of any of them leaves the storage the first left.
`create_proposal`, `reserve_tokens` and `unreserve_tokens` are not of this kind: each submission
creates another proposal or moves more tokens. -/
namespace QuadraticVoting.Pallet

variable {c : Config} {s t : State} {now : ℕ} {origin : Origin} {call : Call}

/-- The calls whose second submission at one block changes nothing. -/
def Replayable : Call → Prop
  | .registerVoter _ _ | .startProposal _ _ | .voteProposal _ _ | .voteMultipleProposals _ => True
  | _ => False

/-- An extrinsic whose success leaves a storage on which it changes nothing is applied twice as
once. -/
theorem applyExtrinsic_twice_of
    (h : ∀ t es, dispatch c now s origin call = .ok (t, es) → applyExtrinsic c now t origin call = t) :
    applyExtrinsic c now (applyExtrinsic c now s origin call) origin call =
      applyExtrinsic c now s origin call := by
  rcases applyExtrinsic_cases (c := c) (s := s) now origin call with ⟨es, hd⟩ | he
  · exact h _ _ hd
  · rw [he, he]

/-- After a success, a replayable call fails on the storage it left, or succeeds there without a
change. -/
theorem applyExtrinsic_after {es : List Event} (hC : Replayable call)
    (hd : dispatch c now s origin call = .ok (t, es)) : applyExtrinsic c now t origin call = t := by
  cases dispatch_eq_ok_iff.mp hd with
  | registerVoter =>
    refine applyExtrinsic_of_not_ok fun t' es' hd' => ?_
    cases dispatch_eq_ok_iff.mp hd' with
    | registerVoter hv => exact hv (Finmap.mem_insert.mpr (.inl rfl))
  | startProposal =>
    refine applyExtrinsic_of_not_ok fun t' es' hd' => ?_
    cases dispatch_eq_ok_iff.mp hd' with
    | startProposal _ hp' _ hst =>
      simp only [State.insertProposal_eq, Finmap.lookup_insert, Option.some.injEq] at hp'
      subst hp'
      cases hst
  | voteExpired =>
    refine applyExtrinsic_of_not_ok fun t' es' hd' => ?_
    cases dispatch_eq_ok_iff.mp hd' with
    | voteExpired _ hp' hst | voteAye _ hp' hst | voteOther _ hp' hst =>
      simp only [Finmap.lookup_insert, Option.some.injEq] at hp'
      subst hp'
      cases hst
  | voteAye _ hp _ hend =>
    refine applyExtrinsic_of_not_ok fun t' es' hd' => ?_
    cases dispatch_eq_ok_iff.mp hd' with
    | voteExpired _ hp' _ hend' => rw [hp] at hp'; cases hp'; omega
    | voteAye _ _ _ _ _ hfresh => exact hfresh (Finmap.mem_insert.mpr (.inl rfl))
    | voteOther _ _ _ _ _ hvote => exact hvote rfl
  | voteOther => exact applyExtrinsic_of_ok hd
  | @batchDeadline who items pw hreg hact htot hfresh hexp hpw =>
    obtain ⟨item, hi, pr, hp, hend⟩ := hexp
    have hwmem : getWinner s ∈ s.proposals := Finmap.mem_of_lookup_eq_some hpw
    by_cases hw : ∃ item ∈ items, item.1 = getWinner s
    · refine applyExtrinsic_of_not_ok fun t' es' hd' => ?_
      obtain ⟨item', hi', hw'⟩ := hw
      cases dispatch_eq_ok_iff.mp hd' with
      | batchDeadline _ hact' | batchLive _ hact' =>
        obtain ⟨pr', hp', hst'⟩ := hact' item' hi'
        rw [hw'] at hp'
        simp only [Finmap.lookup_insert, Option.some.injEq] at hp'
        subst hp'
        cases hst'
    · push_neg at hw
      have hlook : ∀ item ∈ items, (s.proposals.insert (getWinner s)
          ⟨getWinner s, pw.text, pw.proposer, pw.endBlock, .completed⟩).lookup item.1 =
            s.proposals.lookup item.1 := fun item hi => Finmap.lookup_insert_of_ne _ (hw item hi)
      refine applyExtrinsic_of_ok (show dispatch c now _ _ _ = .ok (_, [.votingEnded (getWinner s)]) from ?_)
      simp only [dispatch]
      refine (voteMultipleProposals_eq_ok c).mpr ⟨who, rfl, hreg, fun item hi => ?_, htot, hfresh,
        .inl ⟨⟨item, hi, pr, (hlook item hi).trans hp, hend⟩, ?_⟩⟩
      · rw [hlook item hi]; exact hact item hi
      · rw [getWinner_insert_of_mem hwmem]
        simp
  | @batchLive who items m _ _ _ _ _ ht =>
    by_cases haye : ∃ item ∈ items, item.2.2 = .aye
    · refine applyExtrinsic_of_not_ok fun t' es' hd' => ?_
      obtain ⟨item, hi, ha⟩ := haye
      cases dispatch_eq_ok_iff.mp hd' with
      | batchDeadline _ _ _ hfresh' | batchLive _ _ _ hfresh' =>
        exact hfresh' item hi ((mem_tallyBatch ht).mpr (.inr ⟨item, hi, ha, rfl⟩))
    · push_neg at haye
      rw [tallyBatch_of_not_aye haye, Option.some.injEq] at ht
      subst ht
      exact applyExtrinsic_of_ok hd
  | createProposal | reserveTokens | unreserveTokens => exact hC.elim

/-- A second submission of `register_voter`, `start_proposal`, `vote_proposal` or
`vote_multiple_proposals` at the block of the first leaves the storage the first left, from every
storage and whatever the origin. -/
theorem applyExtrinsic_replay (hC : Replayable call) :
    applyExtrinsic c now (applyExtrinsic c now s origin call) origin call =
      applyExtrinsic c now s origin call :=
  applyExtrinsic_twice_of fun _ _ hd => applyExtrinsic_after hC hd

/-- Voter `1`'s `Aye` on proposal `2`, sent twice after `tieRun`. -/
theorem applyExtrinsic_replay_tieRun : ∃ s, Reachable templateConfig s ∧
    Replayable (.voteProposal 2 .aye) ∧
    applyExtrinsic templateConfig 5 (applyExtrinsic templateConfig 5 s (.signed 1) (.voteProposal 2 .aye))
        (.signed 1) (.voteProposal 2 .aye) =
      applyExtrinsic templateConfig 5 s (.signed 1) (.voteProposal 2 .aye) := by
  obtain ⟨s, hs, -⟩ := RunsTo.reachable _ (.genesis _) tieRun_matches
  exact ⟨s, hs, trivial, applyExtrinsic_replay trivial⟩

end QuadraticVoting.Pallet
