import QuadraticVoting.Registry

/-! The chain as the node runs the pallet: extrinsics applied one after another, each at its own
block, a failed one rolled back. What such a history leaves is what the run of its successful
extrinsics leaves, so every result about runs holds of it. Away from the index `0` that a
saturated counter reuses, a stored proposal keeps its text, proposer and end block, and once it
is completed, or once the chain's clock has reached its end block, its vote records and its total
are final. -/
namespace QuadraticVoting.Pallet

variable {c : Config} {s s' : State} {now : ℕ} {origin : Origin} {call : Call} {es : List Event}

/-- The storage after a sequence of extrinsics, each at its own block: a failed one writes
nothing. -/
def applyExtrinsics (c : Config) (s : State) : List (ℕ × Origin × Call) → State
  | [] => s
  | (now, origin, call) :: xs => applyExtrinsics c (applyExtrinsic c now s origin call) xs

/-- An extrinsic either succeeds and leaves what its call leaves, or leaves the storage as it
was. -/
theorem applyExtrinsic_cases (now : ℕ) (origin : Origin) (call : Call) :
    (∃ es, dispatch c now s origin call = .ok (applyExtrinsic c now s origin call, es)) ∨
      applyExtrinsic c now s origin call = s := by
  unfold applyExtrinsic
  split
  · exact .inl ⟨_, ‹_›⟩
  · exact .inr rfl

theorem applyExtrinsic_of_ok (hd : dispatch c now s origin call = .ok (s', es)) :
    applyExtrinsic c now s origin call = s' := by
  simp [applyExtrinsic, hd]

theorem applyExtrinsic_of_not_ok (h : ∀ t es, dispatch c now s origin call ≠ .ok (t, es)) :
    applyExtrinsic c now s origin call = s := by
  unfold applyExtrinsic
  split
  · exact absurd ‹_› (h _ _)
  · rfl

/-- A property that every successful call of a sequence keeps, from a reachable state, holds
after the whole sequence. -/
theorem applyExtrinsics_induction (xs : List (ℕ × Origin × Call)) (P : State → Prop)
    (hstep : ∀ {t t' : State} {now origin call es}, (now, origin, call) ∈ xs → Reachable c t →
      P t → dispatch c now t origin call = .ok (t', es) → P t')
    (hs : Reachable c s) (h : P s) : Reachable c (applyExtrinsics c s xs) ∧ P (applyExtrinsics c s xs) := by
  induction xs generalizing s with
  | nil => exact ⟨hs, h⟩
  | cons x xs ih =>
    obtain ⟨now, origin, call⟩ := x
    refine ih (fun hx => hstep (List.mem_cons_of_mem _ hx)) ?_ ?_ <;>
      rcases applyExtrinsic_cases (c := c) (s := s) now origin call with ⟨es, hd⟩ | he
    · exact .step now origin call hs hd
    · rwa [he]
    · exact hstep (List.mem_cons_self _ _) hs h hd
    · rwa [he]

/-- `create_proposal` never writes a stored proposal other than `0`: below `u32::MAX` its key is
fresh, and at `u32::MAX` it is `0`. -/
theorem Inv.create_key_ne (h : Inv s) {p : ℕ} (hp : p ∈ s.proposals) (hp0 : p ≠ 0) :
    (s.proposalCount + 1) % 2 ^ 32 ≠ p := by
  rcases lt_or_eq_of_le h.count_le with hc | hc
  · obtain ⟨hkey, hfresh⟩ := h.fresh_key hc
    rw [hkey]
    exact fun e => hfresh (e ▸ hp)
  · rw [hc]
    exact fun e => hp0 (by rw [← e]; decide)

/-- What every call keeps of a stored record other than `0`: its text, proposer and end block,
and the whole record once it is completed. -/
def KeepsRecord (pr pr' : Proposal) : Prop :=
  pr'.text = pr.text ∧ pr'.proposer = pr.proposer ∧ pr'.endBlock = pr.endBlock ∧
    (pr.status = .completed → pr' = pr)

theorem KeepsRecord.refl (pr : Proposal) : KeepsRecord pr pr := ⟨rfl, rfl, rfl, fun _ => rfl⟩

/-- A stored proposal other than `0` stays stored across a call, as `KeepsRecord` says. The
deadline branch of `vote_multiple_proposals` may complete a proposal already completed; it then
writes the record it reads. -/
theorem lookup_proposal_step (h : Inv s) (hd : dispatch c now s origin call = .ok (s', es))
    {p : ℕ} (hp0 : p ≠ 0) {pr : Proposal} (hp : s.proposals.lookup p = some pr) :
    ∃ pr', s'.proposals.lookup p = some pr' ∧ KeepsRecord pr pr' := by
  rcases proposals_step hd with he | ⟨who, text, -, -, -, rfl⟩ | ⟨q, prq, st, hq, he, hcase⟩
  · exact ⟨pr, he ▸ hp, .refl pr⟩
  · rw [State.insertProposal_eq, Finmap.lookup_insert_of_ne _
      (h.create_key_ne (Finmap.mem_of_lookup_eq_some hp) hp0).symm]
    exact ⟨pr, hp, .refl pr⟩
  · rw [he]
    by_cases hpq : p = q
    · subst hpq
      rw [hp] at hq
      cases hq
      refine ⟨_, Finmap.lookup_insert _, rfl, rfl, rfl, fun hc => ?_⟩
      have hidx := h.index_eq p pr hp
      rcases hcase with ⟨-, hst, -⟩ | ⟨-, hst, -, -⟩ | ⟨-, -, rfl⟩
      · rw [hc] at hst; cases hst
      · rw [hc] at hst; cases hst
      · cases pr; simp_all
    · exact ⟨pr, by rw [Finmap.lookup_insert_of_ne _ hpq, hp], .refl pr⟩

/-- No call writes a vote record on a proposal that is completed, or whose end block the call's
block has reached. -/
theorem lookup_ayeVotes_step_of_closed (hd : dispatch c now s origin call = .ok (s', es))
    {p : ℕ} {pr : Proposal} (hp : s.proposals.lookup p = some pr)
    (hclosed : pr.status = .completed ∨ pr.endBlock ≤ now) (v : ℕ) :
    s'.ayeVotes.lookup (p, v) = s.ayeVotes.lookup (p, v) := by
  have hopen (pr' : Proposal) (hp' : s.proposals.lookup p = some pr')
      (hst : pr'.status = .inProgress) (hlt : now < pr'.endBlock) : False := by
    rw [hp] at hp'
    cases hp'
    rcases hclosed with hc | hle
    · rw [hc] at hst; cases hst
    · omega
  rcases ayeVotes_step hd with ha | ⟨w, -, -, ⟨q, vote, prq, -, hq, hst, hlt, -, ha⟩ |
    ⟨items, -, hlive, -, ht⟩⟩
  · rw [ha]
  · rw [ha, Finmap.lookup_insert_of_ne]
    rintro ⟨⟩
    exact hopen prq hq hst hlt
  · by_contra hne
    obtain ⟨item, hi, -, he⟩ := tallyBatch_lookup_ne c ht hne
    obtain ⟨pr', hp', hst, hlt⟩ := hlive item hi
    cases he
    exact hopen pr' hp' hst hlt

/-- The total of a proposal reads only the vote records on it. -/
theorem totalVotes_congr {p : ℕ} (h : ∀ v, s'.ayeVotes.lookup (p, v) = s.ayeVotes.lookup (p, v)) :
    totalVotes s' p = totalVotes s p := by
  have hkeys : s'.ayeVotes.keys.filter (·.1 = p) = s.ayeVotes.keys.filter (·.1 = p) := by
    ext ⟨q, v⟩
    simp only [Finset.mem_filter, Finmap.mem_keys, ← Finmap.lookup_isSome]
    constructor <;> rintro ⟨hm, rfl⟩
    exacts [⟨h v ▸ hm, rfl⟩, ⟨(h v).symm ▸ hm, rfl⟩]
  unfold totalVotes
  rw [hkeys]
  congr 1
  refine Finset.sum_congr rfl fun k hk => ?_
  obtain ⟨q, v⟩ := k
  obtain ⟨-, rfl⟩ := Finset.mem_filter.mp hk
  simp only [getAyeVotesBalance, h]

/-- A completed proposal other than `0` is final: along every sequence of extrinsics, failed ones
included, its record stays as it is, no vote record on it is written or changed, and so its total
stays as it is. -/
theorem completed_proposal_final (hs : Reachable c s) {p : ℕ} {pr : Proposal} (hp0 : p ≠ 0)
    (hp : s.proposals.lookup p = some pr) (hc : pr.status = .completed)
    (xs : List (ℕ × Origin × Call)) :
    (applyExtrinsics c s xs).proposals.lookup p = some pr ∧
      (∀ v, (applyExtrinsics c s xs).ayeVotes.lookup (p, v) = s.ayeVotes.lookup (p, v)) ∧
      totalVotes (applyExtrinsics c s xs) p = totalVotes s p := by
  obtain ⟨-, hpr, hv⟩ := applyExtrinsics_induction xs
    (fun t => t.proposals.lookup p = some pr ∧ ∀ v, t.ayeVotes.lookup (p, v) = s.ayeVotes.lookup (p, v))
    (fun _ ht ⟨htp, htv⟩ hd => by
      obtain ⟨pr', hpr', -, -, -, hkeep⟩ := lookup_proposal_step (Inv.of_reachable ht) hd hp0 htp
      exact ⟨hkeep hc ▸ hpr', fun v => (lookup_ayeVotes_step_of_closed hd htp (.inl hc) v).trans (htv v)⟩)
    hs ⟨hp, fun _ => rfl⟩
  exact ⟨hpr, hv, totalVotes_congr hv⟩

theorem completed_proposal_final_tieRun : ∃ s, Reachable templateConfig s ∧
    s.proposals.lookup 1 = some ⟨1, 0, 1, 10, .completed⟩ ∧
    let xs : List (ℕ × Origin × Call) :=
      [(11, .signed 2, .voteProposal 1 .aye), (11, .signed 2, .voteMultipleProposals [(1, 4, .aye)])]
    (applyExtrinsics templateConfig s xs).proposals.lookup 1 = some ⟨1, 0, 1, 10, .completed⟩ ∧
      (∀ v, (applyExtrinsics templateConfig s xs).ayeVotes.lookup (1, v) = s.ayeVotes.lookup (1, v)) ∧
      totalVotes (applyExtrinsics templateConfig s xs) 1 = totalVotes s 1 := by
  obtain ⟨s, hs, h⟩ := RunsTo.reachable _ (.genesis _) tieRun_matches
  have hd : dispatch templateConfig 10 s (.signed 1) (.voteProposal 1 .nay) = .ok _ :=
    dispatch_eq_ok_iff.mpr (.voteExpired (by rw [h.registeredVoters]; decide)
      (by rw [h.proposals]; rfl : s.proposals.lookup 1 = some ⟨1, 0, 1, 10, .inProgress⟩) rfl le_rfl)
  have hp : (s.proposals.insert 1 ⟨1, 0, 1, 10, .completed⟩).lookup 1 = some ⟨1, 0, 1, 10, .completed⟩ :=
    Finmap.lookup_insert _
  exact ⟨_, .step 10 _ _ hs hd, hp, completed_proposal_final (.step 10 _ _ hs hd) one_ne_zero hp rfl _⟩

end QuadraticVoting.Pallet
