import QuadraticVoting.Tally

/-! Vote calls by different voters at one block commute, except where the deadline branch of
`vote_multiple_proposals` completes `get_winner`'s choice, which reads every voter's records.
In its other branches a vote call does one of three things: completes its own expired proposal,
adds a record of its signer, or runs the batch loop over its signer's records. These effects
touch disjoint parts of the state, and the batch loop of one voter reads and writes only that
voter's records. A call that fails writes nothing, and whether it fails depends on nothing the
other voter's call writes, except when both are `vote_proposal` on one expired proposal:
whichever runs first completes it, and the other then fails. -/
namespace QuadraticVoting.Pallet

variable {c : Config}

/-- The records of voter `who`, by proposal. -/
def slice (who : ℕ) (m : Finmap (fun _ : ℕ × ℕ => ℕ)) (p : ℕ) : Option ℕ := m.lookup (p, who)

/-- The batch loop's table, or the table before it when an addition overflows. -/
def applyTally (c : Config) (who : ℕ) (items : List (ℕ × ℕ × Vote))
    (m : Finmap (fun _ : ℕ × ℕ => ℕ)) : Finmap (fun _ : ℕ × ℕ => ℕ) :=
  (tallyBatch c who items m).getD m

section tally

variable {u w : ℕ} {A B : List (ℕ × ℕ × Vote)} {m m' : Finmap (fun _ : ℕ × ℕ => ℕ)}

/-- Whether the batch loop of `u` overflows, and what it leaves in `u`'s records, depend only on
`u`'s records. -/
theorem tallyBatch_slice (h : slice u m = slice u m') :
    (tallyBatch c u A m).map (slice u) = (tallyBatch c u A m').map (slice u) := by
  induction A generalizing m m' with
  | nil => simp [tallyBatch, h]
  | cons item A ih =>
    obtain ⟨p, t, v⟩ := item
    have hp : m.lookup (p, u) = m'.lookup (p, u) := congrFun h p
    by_cases hv : v = .aye
    · simp only [tallyBatch, hv, if_true, hp]
      split_ifs
      · refine ih (funext fun q => ?_)
        by_cases hq : q = p
        · subst hq; simp [slice, hp]
        · have hne : (q, u) ≠ (p, u) := fun e => hq (congrArg Prod.fst e)
          simp only [slice, Finmap.lookup_insert_of_ne _ hne]
          exact congrFun h q
      · rfl
    · simp only [tallyBatch, hv, if_false]
      exact ih h

theorem slice_tallyBatch_of_ne (ht : tallyBatch c u A m = some m') (hw : w ≠ u) :
    slice w m' = slice w m :=
  funext fun p => by
    by_contra hne
    obtain ⟨item, -, -, he⟩ := tallyBatch_lookup_ne c ht hne
    exact hw (congrArg Prod.snd he)

theorem slice_applyTally_of_ne (hw : w ≠ u) : slice w (applyTally c u A m) = slice w m := by
  unfold applyTally
  cases ht : tallyBatch c u A m with
  | none => rfl
  | some m' => exact slice_tallyBatch_of_ne ht hw

theorem slice_applyTally (h : slice u m = slice u m') :
    slice u (applyTally c u A m) = slice u (applyTally c u A m') := by
  have hs := @tallyBatch_slice c u A m m' h
  unfold applyTally
  cases h₁ : tallyBatch c u A m <;> cases h₂ : tallyBatch c u A m' <;> simp_all

/-- The batch loops of two voters commute. -/
theorem applyTally_comm (huw : u ≠ w) :
    applyTally c w B (applyTally c u A m) = applyTally c u A (applyTally c w B m) := by
  refine Finmap.ext_lookup fun ⟨p, x⟩ => ?_
  show slice x _ p = slice x _ p
  by_cases hxu : x = u
  · subst hxu
    rw [slice_applyTally_of_ne huw, slice_applyTally (slice_applyTally_of_ne huw)]
  · by_cases hxw : x = w
    · subst hxw
      rw [slice_applyTally_of_ne hxu, slice_applyTally (slice_applyTally_of_ne hxu)]
    · rw [slice_applyTally_of_ne hxw, slice_applyTally_of_ne hxu, slice_applyTally_of_ne hxu,
        slice_applyTally_of_ne hxw]

/-- A record of another voter passes through the batch loop. -/
theorem applyTally_insert (huw : u ≠ w) {p x : ℕ} :
    applyTally c w B (m.insert (p, u) x) = (applyTally c w B m).insert (p, u) x := by
  unfold applyTally
  rw [tallyBatch_insert_of_ne c huw]
  cases tallyBatch c w B m <;> rfl

end tally

/-- The end block of each stored proposal. No vote call changes it. -/
def endBlockOf (s : State) (p : ℕ) : Option ℕ := (s.proposals.lookup p).map (·.endBlock)

/-- `update_proposal_status_to_completed` on a stored proposal; nothing on another. -/
def completeEffect (p : ℕ) (s : State) : State :=
  match s.proposals.lookup p with
  | some pr =>
    { s with proposals := s.proposals.insert p ⟨p, pr.text, pr.proposer, pr.endBlock, .completed⟩ }
  | none => s

/-- The record `vote_proposal` writes for an `Aye` of `who`. -/
def recordEffect (c : Config) (p who : ℕ) (s : State) : State :=
  { s with
    ayeVotes := s.ayeVotes.insert (p, who)
      ((getAyeVotesBalance s p who + Nat.sqrt (s.balances.reserved who)) % 2 ^ c.balanceBits) }

/-- What a successful vote call by `who` at block `now` leaves, `vote_multiple_proposals` in its
recording branch. -/
def voteEffect (c : Config) (now who : ℕ) (s : State) : Call → State
  | .voteProposal p vote =>
    match endBlockOf s p with
    | some e =>
      if e ≤ now then completeEffect p s else if vote = .aye then recordEffect c p who s else s
    | none => s
  | .voteMultipleProposals items => { s with ayeVotes := applyTally c who items s.ayeVotes }
  | _ => s

section effects

variable {s : State} {p q u w : ℕ}

@[simp] theorem completeEffect_ayeVotes : (completeEffect p s).ayeVotes = s.ayeVotes := by
  unfold completeEffect; split <;> rfl

@[simp] theorem completeEffect_balances : (completeEffect p s).balances = s.balances := by
  unfold completeEffect; split <;> rfl

theorem completeEffect_setAyeVotes {m : Finmap (fun _ : ℕ × ℕ => ℕ)} :
    completeEffect p { s with ayeVotes := m } = { completeEffect p s with ayeVotes := m } := by
  cases h : s.proposals.lookup p <;> simp [completeEffect, h]

theorem endBlockOf_completeEffect : endBlockOf (completeEffect p s) = endBlockOf s := by
  funext q
  unfold completeEffect endBlockOf
  cases hp : s.proposals.lookup p with
  | none => rfl
  | some pr =>
    by_cases hq : q = p
    · subst hq; simp [hp]
    · simp [Finmap.lookup_insert_of_ne _ hq]

theorem endBlockOf_voteEffect {now : ℕ} (C : Call) :
    endBlockOf (voteEffect c now u s C) = endBlockOf s := by
  cases C with
  | voteProposal p vote =>
    simp only [voteEffect]
    rcases endBlockOf s p with _ | e
    · rfl
    · dsimp only
      split_ifs
      · exact endBlockOf_completeEffect
      · rfl
      · rfl
  | _ => rfl

theorem completeEffect_comm : completeEffect p (completeEffect q s) =
    completeEffect q (completeEffect p s) := by
  by_cases hpq : p = q
  · subst hpq; rfl
  · unfold completeEffect
    cases hp : s.proposals.lookup p <;> cases hq : s.proposals.lookup q <;>
      simp [hp, hq, Finmap.lookup_insert_of_ne _ hpq, Finmap.lookup_insert_of_ne _ (Ne.symm hpq),
        Finmap.insert_insert_of_ne _ hpq]

theorem completeEffect_recordEffect : completeEffect p (recordEffect c q u s) =
    recordEffect c q u (completeEffect p s) := by
  rw [recordEffect, completeEffect_setAyeVotes]
  simp [recordEffect, getAyeVotesBalance]

theorem recordEffect_comm (huw : u ≠ w) : recordEffect c p u (recordEffect c q w s) =
    recordEffect c q w (recordEffect c p u s) := by
  have hne : (p, u) ≠ (q, w) := fun e => huw (congrArg Prod.snd e)
  simp [recordEffect, getAyeVotesBalance, Finmap.lookup_insert_of_ne _ hne,
    Finmap.lookup_insert_of_ne _ (Ne.symm hne), Finmap.insert_insert_of_ne _ hne]

theorem recordEffect_applyTally (huw : u ≠ w) {B : List (ℕ × ℕ × Vote)} :
    recordEffect c p u { s with ayeVotes := applyTally c w B s.ayeVotes } =
      { recordEffect c p u s with ayeVotes := applyTally c w B (recordEffect c p u s).ayeVotes } := by
  have hslice := congrFun (@slice_applyTally_of_ne c w u B s.ayeVotes huw) p
  simp only [slice] at hslice
  simp [recordEffect, getAyeVotesBalance, hslice, applyTally_insert huw]

theorem voteEffect_voteProposal_congr {t : State} (h : endBlockOf t = endBlockOf s) {now : ℕ}
    {vote : Vote} : voteEffect c now w t (.voteProposal q vote) =
      match endBlockOf s q with
      | some e =>
        if e ≤ now then completeEffect q t else if vote = .aye then recordEffect c q w t else t
      | none => t := by
  simp only [voteEffect, h]

/-- The effects of vote calls by two voters commute. -/
theorem voteEffect_comm (huw : u ≠ w) {now : ℕ} (A B : Call) :
    voteEffect c now w (voteEffect c now u s A) B = voteEffect c now u (voteEffect c now w s B) A := by
  cases A with
  | voteProposal p va =>
    cases B with
    | voteProposal q vb =>
      rw [voteEffect_voteProposal_congr (endBlockOf_voteEffect _),
        voteEffect_voteProposal_congr (endBlockOf_voteEffect _)]
      simp only [voteEffect]
      rcases endBlockOf s p with _ | e <;> rcases endBlockOf s q with _ | e' <;> dsimp only
      all_goals split_ifs <;>
        simp only [completeEffect_comm, completeEffect_recordEffect, recordEffect_comm huw]
    | voteMultipleProposals items =>
      rw [voteEffect_voteProposal_congr (endBlockOf_voteEffect _)]
      simp only [voteEffect]
      rcases endBlockOf s p with _ | e <;> dsimp only
      split_ifs <;> simp [completeEffect_setAyeVotes, recordEffect_applyTally huw]
    | _ => rfl
  | voteMultipleProposals items =>
    cases B with
    | voteProposal q vb =>
      rw [voteEffect_voteProposal_congr (endBlockOf_voteEffect _)]
      simp only [voteEffect]
      rcases endBlockOf s q with _ | e <;> dsimp only
      split_ifs <;> simp [completeEffect_setAyeVotes, recordEffect_applyTally huw.symm]
    | voteMultipleProposals items' => simp only [voteEffect, applyTally_comm huw]
    | _ => rfl
  | _ => rfl

end effects

/-- A vote call: `vote_proposal` or `vote_multiple_proposals`. -/
def IsVoteCall : Call → Prop
  | .voteProposal _ _ | .voteMultipleProposals _ => True
  | _ => False

/-- The call is not a `vote_multiple_proposals` listing a proposal whose end block `now` has
reached. -/
def LiveBatch (s : State) (now : ℕ) : Call → Prop
  | .voteMultipleProposals items => ∀ item ∈ items, ∀ e ∈ endBlockOf s item.1, now < e
  | _ => True

theorem liveBatch_congr {s t : State} {now : ℕ} {C : Call} (h : endBlockOf t = endBlockOf s) :
    LiveBatch t now C ↔ LiveBatch s now C := by
  cases C <;> simp [LiveBatch, h]

theorem mem_endBlockOf {s : State} {p : ℕ} {pr : Proposal} (hp : s.proposals.lookup p = some pr) :
    pr.endBlock ∈ endBlockOf s p := by
  simp [endBlockOf, hp]

/-- A successful vote call, outside the deadline branch of `vote_multiple_proposals`, leaves
its effect. -/
theorem dispatch_eq_voteEffect {s s' : State} {es : List Event} {v now : ℕ} {C : Call}
    (hC : IsVoteCall C) (hlive : LiveBatch s now C)
    (hd : dispatch c now s (.signed v) C = .ok (s', es)) : s' = voteEffect c now v s C := by
  cases C with
  | voteProposal p vote =>
    obtain ⟨who, pr, hwho, -, hp, -, ⟨hend, hr⟩ | ⟨hlt, -, ⟨rfl, -, hr⟩ | ⟨hne, hr⟩⟩⟩ :=
      (voteProposal_eq_ok c).mp hd <;> cases hr <;> cases hwho
    · simp [voteEffect, endBlockOf, completeEffect, hp, hend]
    · simp [voteEffect, endBlockOf, recordEffect, hp, not_le.mpr hlt]
    · simp [voteEffect, endBlockOf, hp, not_le.mpr hlt, hne]
  | voteMultipleProposals items =>
    obtain ⟨who, hwho, -, -, -, -, ⟨⟨item, hi, pr, hp, hend⟩, -⟩ | ⟨-, m, ht, hr⟩⟩ :=
      (voteMultipleProposals_eq_ok c).mp hd
    · exact absurd (hlive item hi pr.endBlock (mem_endBlockOf hp)) (not_lt.mpr hend)
    · cases hr; cases hwho; simp [voteEffect, applyTally, ht]
  | _ => exact hC.elim

/-- The checks of a vote call by `who` at block `now`, outside the deadline branch of
`vote_multiple_proposals`. -/
def VoteGuard (c : Config) (now who : ℕ) (s : State) : Call → Prop
  | .voteProposal p vote => who ∈ s.registeredVoters ∧ ∃ pr, s.proposals.lookup p = some pr ∧
      pr.status = .inProgress ∧
      (pr.endBlock ≤ now ∨ 0 < s.balances.reserved who ∧ (vote = .aye → (p, who) ∉ s.ayeVotes))
  | .voteMultipleProposals items => who ∈ s.registeredVoters ∧
      (∀ item ∈ items, ∃ pr, s.proposals.lookup item.1 = some pr ∧ pr.status = .inProgress) ∧
      items.foldl (fun acc i => (acc + i.2.1) % 2 ^ c.balanceBits) 0 ≤ s.balances.reserved who ∧
      (∀ item ∈ items, (item.1, who) ∉ s.ayeVotes) ∧ (tallyBatch c who items s.ayeVotes).isSome
  | _ => False

/-- The proposals whose entries a vote call reads. -/
def callProposals : Call → List ℕ
  | .voteProposal p _ => [p]
  | .voteMultipleProposals items => items.map (·.1)
  | _ => []

/-- Both calls are `vote_proposal` on one proposal whose end block `now` has reached: the first
completes it, and the second then finds it inactive. -/
def Collide (s : State) (now : ℕ) (X Y : Call) : Prop :=
  ∃ p va vb, X = .voteProposal p va ∧ Y = .voteProposal p vb ∧ ∃ e ∈ endBlockOf s p, e ≤ now

section guard

variable {s t : State} {v x y now : ℕ} {C X Y : Call}

/-- Outside the deadline branch of `vote_multiple_proposals`, a vote call succeeds exactly when
it passes its checks. -/
theorem exists_dispatch_eq_ok_iff (hC : IsVoteCall C) (hlive : LiveBatch s now C) :
    (∃ r, dispatch c now s (.signed v) C = .ok r) ↔ VoteGuard c now v s C := by
  cases C with
  | voteProposal p vote =>
    simp only [dispatch, voteProposal_eq_ok c, VoteGuard]
    constructor
    · rintro ⟨r, who, pr, ⟨⟩, hwho, hp, hs, ⟨hend, -⟩ | ⟨-, hres, ⟨rfl, hnm, -⟩ | ⟨hne, -⟩⟩⟩
      · exact ⟨hwho, pr, hp, hs, .inl hend⟩
      · exact ⟨hwho, pr, hp, hs, .inr ⟨hres, fun _ => hnm⟩⟩
      · exact ⟨hwho, pr, hp, hs, .inr ⟨hres, fun h => absurd h hne⟩⟩
    · rintro ⟨hwho, pr, hp, hs, hend | ⟨hres, hnm⟩⟩
      · exact ⟨_, v, pr, rfl, hwho, hp, hs, .inl ⟨hend, rfl⟩⟩
      · rcases le_or_lt pr.endBlock now with hend | hlt
        · exact ⟨_, v, pr, rfl, hwho, hp, hs, .inl ⟨hend, rfl⟩⟩
        · by_cases hv : vote = .aye
          · exact ⟨_, v, pr, rfl, hwho, hp, hs, .inr ⟨hlt, hres, .inl ⟨hv, hnm hv, rfl⟩⟩⟩
          · exact ⟨_, v, pr, rfl, hwho, hp, hs, .inr ⟨hlt, hres, .inr ⟨hv, rfl⟩⟩⟩
  | voteMultipleProposals items =>
    simp only [dispatch, voteMultipleProposals_eq_ok c, VoteGuard]
    constructor
    · rintro ⟨r, who, ⟨⟩, hwho, hact, hsum, hnm, ⟨⟨item, hi, pr, hp, hend⟩, -⟩ | ⟨-, m, ht, -⟩⟩
      · exact absurd (hlive item hi pr.endBlock (mem_endBlockOf hp)) (not_lt.mpr hend)
      · exact ⟨hwho, hact, hsum, hnm, by simp [ht]⟩
    · rintro ⟨hwho, hact, hsum, hnm, ht⟩
      obtain ⟨m, hm⟩ := Option.isSome_iff_exists.mp ht
      exact ⟨_, v, rfl, hwho, hact, hsum, hnm,
        .inr ⟨fun item hi pr hp => hlive item hi pr.endBlock (mem_endBlockOf hp), m, hm, rfl⟩⟩
  | _ => exact hC.elim

theorem applyExtrinsic_of_voteGuard (hC : IsVoteCall C) (hlive : LiveBatch s now C)
    (hg : VoteGuard c now v s C) : applyExtrinsic c now s (.signed v) C = voteEffect c now v s C := by
  obtain ⟨⟨s', es⟩, hd⟩ := (exists_dispatch_eq_ok_iff hC hlive).mpr hg
  rw [applyExtrinsic, hd, dispatch_eq_voteEffect hC hlive hd]

theorem applyExtrinsic_of_not_voteGuard (hC : IsVoteCall C) (hlive : LiveBatch s now C)
    (hg : ¬VoteGuard c now v s C) : applyExtrinsic c now s (.signed v) C = s := by
  unfold applyExtrinsic
  split
  · exact absurd ((exists_dispatch_eq_ok_iff hC hlive).mp ⟨_, ‹_›⟩) hg
  · rfl

/-- The checks of a call by `y` read only the registered voters, the balances, `y`'s records
and the entries of the proposals the call names. -/
theorem voteGuard_congr (Y : Call) (hreg : t.registeredVoters = s.registeredVoters)
    (hbal : t.balances = s.balances) (hslice : slice y t.ayeVotes = slice y s.ayeVotes)
    (hp : ∀ q ∈ callProposals Y, t.proposals.lookup q = s.proposals.lookup q) :
    VoteGuard c now y t Y ↔ VoteGuard c now y s Y := by
  have hmem (q : ℕ) : (q, y) ∈ t.ayeVotes ↔ (q, y) ∈ s.ayeVotes := by
    rw [← Finmap.lookup_isSome, ← Finmap.lookup_isSome]
    exact iff_of_eq (congrArg (fun o => o.isSome = true) (congrFun hslice q))
  cases Y with
  | voteProposal q vote =>
    simp only [VoteGuard, hreg, hbal, hmem, hp q (List.mem_singleton_self q)]
  | voteMultipleProposals items =>
    have ht : (tallyBatch c y items t.ayeVotes).isSome = (tallyBatch c y items s.ayeVotes).isSome := by
      simpa using congrArg Option.isSome (tallyBatch_slice hslice)
    simp only [VoteGuard, hreg, hbal, hmem, ht]
    exact and_congr Iff.rfl (and_congr (forall₂_congr fun item hi => by
      rw [hp item.1 (List.mem_map_of_mem _ hi)]) Iff.rfl)
  | _ => rfl

end guard

section frame

variable {s : State} {p q x y now : ℕ} {vote : Vote}

/-- What `vote_proposal` can do: complete its expired proposal, record an `Aye`, or nothing. -/
theorem voteEffect_voteProposal_cases (c : Config) (now x : ℕ) (s : State) (p : ℕ) (vote : Vote) :
    (∃ e ∈ endBlockOf s p, e ≤ now) ∧
        voteEffect c now x s (.voteProposal p vote) = completeEffect p s ∨
      voteEffect c now x s (.voteProposal p vote) = recordEffect c p x s ∨
      voteEffect c now x s (.voteProposal p vote) = s := by
  simp only [voteEffect]
  rcases endBlockOf s p with _ | e
  · exact .inr (.inr rfl)
  · dsimp only
    split_ifs with hle
    · exact .inl ⟨⟨e, rfl, hle⟩, rfl⟩
    · exact .inr (.inl rfl)
    · exact .inr (.inr rfl)

theorem voteEffect_of_expired {e : ℕ} (he : e ∈ endBlockOf s p) (hle : e ≤ now) :
    voteEffect c now x s (.voteProposal p vote) = completeEffect p s := by
  simp only [voteEffect, Option.mem_def.mp he, if_pos hle]

@[simp] theorem completeEffect_registeredVoters :
    (completeEffect p s).registeredVoters = s.registeredVoters := by
  unfold completeEffect; split <;> rfl

theorem lookup_completeEffect_of_ne (hq : q ≠ p) :
    (completeEffect p s).proposals.lookup q = s.proposals.lookup q := by
  unfold completeEffect; split
  · exact Finmap.lookup_insert_of_ne _ hq
  · rfl

theorem not_voteGuard_completeEffect : ¬VoteGuard c now y (completeEffect p s) (.voteProposal p vote) := by
  unfold completeEffect
  cases hp : s.proposals.lookup p <;> simp [VoteGuard, hp]

theorem slice_recordEffect_of_ne (hyx : y ≠ x) :
    slice y (recordEffect c p x s).ayeVotes = slice y s.ayeVotes :=
  funext fun _ => Finmap.lookup_insert_of_ne _ fun e => hyx (congrArg Prod.snd e)

@[simp] theorem voteEffect_registeredVoters (X : Call) :
    (voteEffect c now x s X).registeredVoters = s.registeredVoters := by
  cases X with
  | voteProposal p vote =>
    rcases voteEffect_voteProposal_cases c now x s p vote with ⟨-, h⟩ | h | h <;> simp [h, recordEffect]
  | _ => rfl

@[simp] theorem voteEffect_balances (X : Call) : (voteEffect c now x s X).balances = s.balances := by
  cases X with
  | voteProposal p vote =>
    rcases voteEffect_voteProposal_cases c now x s p vote with ⟨-, h⟩ | h | h <;> simp [h, recordEffect]
  | _ => rfl

theorem slice_voteEffect (hyx : y ≠ x) (X : Call) :
    slice y (voteEffect c now x s X).ayeVotes = slice y s.ayeVotes := by
  cases X with
  | voteProposal p vote =>
    rcases voteEffect_voteProposal_cases c now x s p vote with ⟨-, h⟩ | h | h <;> rw [h]
    · rw [completeEffect_ayeVotes]
    · exact slice_recordEffect_of_ne hyx
  | voteMultipleProposals items => exact slice_applyTally_of_ne hyx
  | _ => rfl

/-- A vote call changes the entry of a proposal only by completing it, and only when it is a
`vote_proposal` on it past its end block. -/
theorem lookup_voteEffect (X : Call) (q : ℕ) :
    (voteEffect c now x s X).proposals.lookup q = s.proposals.lookup q ∨
      ∃ vote, X = .voteProposal q vote ∧ ∃ e ∈ endBlockOf s q, e ≤ now := by
  cases X with
  | voteProposal p vote =>
    rcases voteEffect_voteProposal_cases c now x s p vote with ⟨hexp, h⟩ | h | h <;> rw [h]
    · by_cases hq : q = p
      · exact .inr ⟨vote, hq ▸ rfl, hq ▸ hexp⟩
      · exact .inl (lookup_completeEffect_of_ne hq)
    · exact .inl rfl
    · exact .inl rfl
  | _ => exact .inl rfl

theorem voteEffect_of_collide {X Y : Call} (hc : Collide s now X Y) :
    voteEffect c now x s X = voteEffect c now y s Y := by
  obtain ⟨p, va, vb, rfl, rfl, e, he, hle⟩ := hc
  rw [voteEffect_of_expired he hle, voteEffect_of_expired he hle]

theorem Collide.symm {X Y : Call} (hc : Collide s now X Y) : Collide s now Y X :=
  let ⟨p, va, vb, hX, hY, h⟩ := hc
  ⟨p, vb, va, hY, hX, h⟩

/-- After another voter's call, a live call passes its checks exactly when it passed them
before, unless both complete the same expired proposal. -/
theorem voteGuard_voteEffect (hxy : x ≠ y) (X : Call) {Y : Call} (hlY : LiveBatch s now Y) :
    VoteGuard c now y (voteEffect c now x s X) Y ↔ VoteGuard c now y s Y ∧ ¬Collide s now X Y := by
  by_cases hc : Collide s now X Y
  · obtain ⟨p, va, vb, rfl, rfl, e, he, hle⟩ := hc
    rw [voteEffect_of_expired he hle]
    exact iff_of_false not_voteGuard_completeEffect fun h => h.2 ⟨p, va, vb, rfl, rfl, e, he, hle⟩
  · rw [and_iff_left hc]
    refine voteGuard_congr Y (voteEffect_registeredVoters X) (voteEffect_balances X)
      (slice_voteEffect hxy.symm X) fun q hq => (lookup_voteEffect X q).resolve_right ?_
    rintro ⟨va, rfl, e, he, hle⟩
    cases Y with
    | voteProposal q' vb =>
      obtain rfl := List.mem_singleton.mp hq
      exact hc ⟨q, va, vb, rfl, rfl, e, he, hle⟩
    | voteMultipleProposals items =>
      obtain ⟨item, hi, rfl⟩ := List.mem_map.mp hq
      exact absurd (hlY item hi e he) (not_lt.mpr hle)
    | _ => simp [callProposals] at hq

end frame

/-- Two vote calls by different voters at the same block, each applied as an extrinsic whose
failure writes nothing, leave the same state in either order, unless one of them is a
`vote_multiple_proposals` listing a proposal whose end block has been reached. -/
theorem votes_commute {s : State} {u w now : ℕ} {A B : Call} (huw : u ≠ w)
    (hA : IsVoteCall A) (hB : IsVoteCall B) (hlA : LiveBatch s now A) (hlB : LiveBatch s now B) :
    applyExtrinsic c now (applyExtrinsic c now s (.signed u) A) (.signed w) B =
      applyExtrinsic c now (applyExtrinsic c now s (.signed w) B) (.signed u) A := by
  have hlB' : LiveBatch (voteEffect c now u s A) now B :=
    (liveBatch_congr (endBlockOf_voteEffect A)).mpr hlB
  have hlA' : LiveBatch (voteEffect c now w s B) now A :=
    (liveBatch_congr (endBlockOf_voteEffect B)).mpr hlA
  have gB' : VoteGuard c now w (voteEffect c now u s A) B ↔ _ := voteGuard_voteEffect huw A hlB
  have gA' : VoteGuard c now u (voteEffect c now w s B) A ↔ _ := voteGuard_voteEffect huw.symm B hlA
  by_cases gA : VoteGuard c now u s A <;> by_cases gB : VoteGuard c now w s B
  · rw [applyExtrinsic_of_voteGuard hA hlA gA, applyExtrinsic_of_voteGuard hB hlB gB]
    by_cases hc : Collide s now A B
    · rw [applyExtrinsic_of_not_voteGuard hB hlB' fun h => (gB'.mp h).2 hc,
        applyExtrinsic_of_not_voteGuard hA hlA' fun h => (gA'.mp h).2 hc.symm]
      exact voteEffect_of_collide hc
    · rw [applyExtrinsic_of_voteGuard hB hlB' (gB'.mpr ⟨gB, hc⟩),
        applyExtrinsic_of_voteGuard hA hlA' (gA'.mpr ⟨gA, fun h => hc h.symm⟩)]
      exact voteEffect_comm huw A B
  · rw [applyExtrinsic_of_voteGuard hA hlA gA, applyExtrinsic_of_not_voteGuard hB hlB gB,
      applyExtrinsic_of_not_voteGuard hB hlB' fun h => gB (gB'.mp h).1,
      applyExtrinsic_of_voteGuard hA hlA gA]
  · rw [applyExtrinsic_of_not_voteGuard hA hlA gA, applyExtrinsic_of_voteGuard hB hlB gB,
      applyExtrinsic_of_not_voteGuard hA hlA' fun h => gA (gA'.mp h).1]
  · rw [applyExtrinsic_of_not_voteGuard hA hlA gA, applyExtrinsic_of_not_voteGuard hB hlB gB,
      applyExtrinsic_of_not_voteGuard hA hlA gA]

theorem votes_commute_tieRun : ∃ s, Reachable templateConfig s ∧
    (1 : ℕ) ≠ 2 ∧ IsVoteCall (.voteProposal 2 .aye) ∧
    IsVoteCall (.voteMultipleProposals [(1, 4, .aye)]) ∧ LiveBatch s 0 (.voteProposal 2 .aye) ∧
    LiveBatch s 0 (.voteMultipleProposals [(1, 4, .aye)]) ∧
    applyExtrinsic templateConfig 0
        (applyExtrinsic templateConfig 0 s (.signed 1) (.voteProposal 2 .aye)) (.signed 2)
        (.voteMultipleProposals [(1, 4, .aye)]) =
      applyExtrinsic templateConfig 0
        (applyExtrinsic templateConfig 0 s (.signed 2) (.voteMultipleProposals [(1, 4, .aye)]))
        (.signed 1) (.voteProposal 2 .aye) := by
  obtain ⟨s, hs, h⟩ := RunsTo.reachable _ (.genesis _) tieRun_matches
  have hlive : endBlockOf s 1 = some 10 := by rw [endBlockOf, h.proposals]; rfl
  have hlB : LiveBatch s 0 (.voteMultipleProposals [(1, 4, .aye)]) := by
    simp [LiveBatch, hlive]
  exact ⟨s, hs, by decide, trivial, trivial, trivial, hlB,
    votes_commute (by decide) (by trivial) (by trivial) (by trivial) hlB⟩

/-- Proposal `1`, ending at block `10`, holds voter `3`'s weight `1`; proposal `2`, created at
block `5`, ends at block `15`; voter `2` has reserved four tokens. -/
def raceRun : List (ℕ × Origin × Call) :=
  [(0, .root, .registerVoter 1 5), (0, .root, .registerVoter 2 5), (0, .root, .registerVoter 3 5),
   (0, .signed 1, .createProposal 0), (5, .signed 1, .createProposal 0),
   (5, .signed 1, .startProposal 1 1), (5, .signed 1, .startProposal 2 1),
   (5, .signed 3, .reserveTokens 1), (5, .signed 3, .voteProposal 1 .aye),
   (5, .signed 2, .reserveTokens 4)]

/-- The tables `raceRun` leaves. -/
def raceTables : State :=
  { State.genesis ⟨fun _ => 0, fun _ => 0⟩ with
    registeredVoters := [⟨1, true⟩, ⟨2, true⟩, ⟨3, true⟩].toFinmap
    proposals := [⟨1, ⟨1, 0, 1, 10, .inProgress⟩⟩, ⟨2, ⟨2, 0, 1, 15, .inProgress⟩⟩].toFinmap
    proposalCount := 2
    ayeVotes := [⟨(1, 3), 1⟩].toFinmap }

theorem raceRun_matches : RunsTo templateConfig (.genesis ⟨fun _ => 0, fun _ => 0⟩) raceRun
    (Matches · raceTables [(1, 93, 0), (2, 91, 4)]) := by
  decide

set_option maxRecDepth 8000 in
/-- At block `12` voter `1` sends a batch naming the expired proposal `1` and voter `2` votes
`Aye` on proposal `2`. Batch first completes proposal `1`; vote first gives proposal `2` the
greater total, and the batch completes proposal `2` instead. -/
theorem votes_race_on_winner : ∃ s s₁ s₂, Reachable templateConfig s ∧
    run templateConfig s [(12, .signed 1, .voteMultipleProposals [(1, 0, .aye)]),
      (12, .signed 2, .voteProposal 2 .aye)] = .ok s₁ ∧
    run templateConfig s [(12, .signed 2, .voteProposal 2 .aye),
      (12, .signed 1, .voteMultipleProposals [(1, 0, .aye)])] = .ok s₂ ∧
    (s₁.proposals.lookup 1).map (·.status) = some .completed ∧
    (s₂.proposals.lookup 1).map (·.status) = some .inProgress := by
  obtain ⟨s, hs, h⟩ := RunsTo.reachable _ (.genesis _) raceRun_matches
  have hreg : ∀ a ∈ [1, 2], a ∈ s.registeredVoters := by rw [h.registeredVoters]; decide
  have hr₁ : s.balances.reserved 1 = 0 := (h.accounts (1, 93, 0) (by simp)).2
  have hr₂ : s.balances.reserved 2 = 4 := (h.accounts (2, 91, 4) (by simp)).2
  have hres₂ : 0 < s.balances.reserved 2 := by rw [hr₂]; decide
  have hp₁ : s.proposals.lookup 1 = some ⟨1, 0, 1, 10, .inProgress⟩ := by rw [h.proposals]; rfl
  have hp₂ : s.proposals.lookup 2 = some ⟨2, 0, 1, 15, .inProgress⟩ := by rw [h.proposals]; rfl
  have hfresh₁ : (1, 1) ∉ s.ayeVotes := by rw [h.ayeVotes]; decide
  have hfresh₂ : (2, 2) ∉ s.ayeVotes := by rw [h.ayeVotes]; decide
  -- the batch passes its checks on either side of the vote and completes `get_winner`'s choice
  have hbatch : ∀ t : State, t.registeredVoters = s.registeredVoters → t.proposals = s.proposals →
      t.balances = s.balances → (1, 1) ∉ t.ayeVotes → ∀ pw, t.proposals.lookup (getWinner t) = some pw →
      dispatch templateConfig 12 t (.signed 1) (.voteMultipleProposals [(1, 0, .aye)]) =
        .ok ({ t with proposals := (t.proposals.insert (getWinner t)
          ⟨getWinner t, pw.text, pw.proposer, pw.endBlock, .completed⟩) }, [.votingEnded (getWinner t)]) :=
    fun t hr hp hb hf pw hpw => dispatch_eq_ok_iff.mpr (.batchDeadline (hr ▸ hreg 1 (by simp))
      (by simp [hp, hp₁]) (by simp [hb, hr₁]) (by simpa using hf)
      ⟨_, List.mem_singleton_self _, _, hp ▸ hp₁, by decide⟩ hpw)
  -- batch first: `get_winner` is proposal `1`, the only one with a vote
  have hw₁ : getWinner s = 1 :=
    (getWinner_congr (t := raceTables) (by rw [h.proposals]) h.ayeVotes).trans (by decide)
  have hrun₁ : run templateConfig s [(12, .signed 1, .voteMultipleProposals [(1, 0, .aye)]),
      (12, .signed 2, .voteProposal 2 .aye)] = .ok _ :=
    run_cons _ (hbatch s rfl rfl rfl hfresh₁ _ (by rw [hw₁]; exact hp₁))
      (run_cons _ (dispatch_eq_ok_iff.mpr (.voteAye (hreg 2 (by simp))
        ((Finmap.lookup_insert_of_ne _ (by rw [hw₁]; decide)).trans hp₂) rfl (by decide) hres₂ hfresh₂))
        rfl)
  -- vote first: voter `2`'s four tokens give proposal `2` weight `2`, and `get_winner` moves to it
  have hweight : (getAyeVotesBalance s 2 2 + Nat.sqrt (s.balances.reserved 2)) %
      2 ^ templateConfig.balanceBits = 2 := by
    rw [getAyeVotesBalance, h.ayeVotes, hr₂, ← integerSqrt_eq_sqrt]
    decide
  have hvote : dispatch templateConfig 12 s (.signed 2) (.voteProposal 2 .aye) = .ok _ :=
    dispatch_eq_ok_iff.mpr (.voteAye (hreg 2 (by simp)) hp₂ rfl (by decide) hres₂ hfresh₂)
  rw [hweight] at hvote
  have hw₂ : getWinner { s with ayeVotes := s.ayeVotes.insert (2, 2) 2 } = 2 :=
    (getWinner_congr (t := { raceTables with ayeVotes := raceTables.ayeVotes.insert (2, 2) 2 })
      (by rw [h.proposals]) (by rw [h.ayeVotes])).trans (by decide)
  have hrun₂ : run templateConfig s [(12, .signed 2, .voteProposal 2 .aye),
      (12, .signed 1, .voteMultipleProposals [(1, 0, .aye)])] = .ok _ :=
    run_cons _ hvote (run_cons _ (hbatch { s with ayeVotes := s.ayeVotes.insert (2, 2) 2 } rfl rfl rfl
      (fun hm => (Finmap.mem_insert.mp (hm : (1, 1) ∈ s.ayeVotes.insert (2, 2) 2)).elim (by decide) hfresh₁) _
      (by rw [hw₂]; exact hp₂)) rfl)
  exact ⟨s, _, _, hs, hrun₁, hrun₂, by simp [hw₁], by simp [hw₂, hp₁]⟩

end QuadraticVoting.Pallet
