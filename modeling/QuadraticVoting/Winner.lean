import QuadraticVoting.CallSpecs

/-! `get_winner`: a scan of `Proposals::iter()` that keeps the first proposal whose `u128` total
is strictly greater than every total before it. Storage enumerates a `Blake2_128Concat` map in
the order of the hashed keys, so of two proposals with equal greatest totals the winner is the
one whose hashed key is smaller, which need not be the smaller index. -/
namespace QuadraticVoting.Pallet

open Blake2

variable {s : State}

/-- `w` is a stored proposal with the greatest total, and the first such in storage order. -/
def IsFirstMax (s : State) (w : ℕ) : Prop :=
  w ∈ s.proposals ∧ ∀ q ∈ s.proposals, totalVotes s q < totalVotes s w ∨
    totalVotes s q = totalVotes s w ∧ StorageLe w q

/-- A positive total needs a vote record on the proposal. -/
theorem exists_vote_of_totalVotes_pos {p : ℕ} (h : 0 < totalVotes s p) :
    ∃ k ∈ s.ayeVotes, k.1 = p := by
  by_contra hno
  push_neg at hno
  have hempty : s.ayeVotes.keys.filter (·.1 = p) = ∅ :=
    Finset.filter_eq_empty_iff.mpr fun k hk => hno k (Finmap.mem_keys.mp hk)
  simp [totalVotes, hempty] at h

theorem mem_proposalIndexes {p : ℕ} : p ∈ proposalIndexes s ↔ p ∈ s.proposals := by
  simp [proposalIndexes, mem_storageOrder, Finmap.mem_keys]

theorem winnerStep_eq (acc : ℕ × ℕ) (p : ℕ) : winnerStep s acc p =
    if acc.1 < totalVotes s p then (totalVotes s p, p) else acc := rfl

/-- The scan either ends where it started, when no total beats the start, or on an entry `r.2`
that beats the start and every entry before it and is not beaten by any entry after it. -/
theorem foldl_winnerStep {l : List ℕ} {acc r : ℕ × ℕ} (h : l.foldl (winnerStep s) acc = r) :
    (r = acc ∧ ∀ q ∈ l, totalVotes s q ≤ acc.1) ∨
    r.1 = totalVotes s r.2 ∧ acc.1 < r.1 ∧ ∃ l₁ l₂, l = l₁ ++ r.2 :: l₂ ∧
      (∀ q ∈ l₁, totalVotes s q < r.1) ∧ ∀ q ∈ l₂, totalVotes s q ≤ r.1 := by
  induction l generalizing acc with
  | nil => exact .inl ⟨h.symm, by simp⟩
  | cons p l ih =>
    rcases ih h with ⟨rfl, hle⟩ | ⟨hr, hlt, l₁, l₂, rfl, h₁, h₂⟩
    · by_cases hbeat : acc.1 < totalVotes s p
      · rw [winnerStep_eq, if_pos hbeat] at hle ⊢
        exact .inr ⟨rfl, hbeat, [], l, rfl, by simp, hle⟩
      · rw [winnerStep_eq, if_neg hbeat] at hle ⊢
        exact .inl ⟨rfl, List.forall_mem_cons.mpr ⟨Nat.le_of_not_lt hbeat, hle⟩⟩
    · have hp : acc.1 ≤ (winnerStep s acc p).1 ∧ totalVotes s p ≤ (winnerStep s acc p).1 := by
        rw [winnerStep_eq]; split_ifs <;> simp <;> omega
      refine .inr ⟨hr, by omega, p :: l₁, l₂, rfl, ?_, h₂⟩
      simpa using ⟨by omega, h₁⟩

/-- `get_winner` returns `0` when no stored proposal has a positive total, and otherwise the
first proposal in storage order with the greatest total. -/
theorem getWinner_cases :
    (getWinner s = 0 ∧ ∀ p ∈ s.proposals, totalVotes s p = 0) ∨
    0 < totalVotes s (getWinner s) ∧ IsFirstMax s (getWinner s) := by
  set r := (proposalIndexes s).foldl (winnerStep s) (0, 0) with hr_def
  have hw : getWinner s = r.2 := rfl
  rw [hw]
  rcases foldl_winnerStep hr_def.symm with ⟨h, hle⟩ | ⟨hr, hpos, l₁, l₂, hl, h₁, h₂⟩
  · refine .inl ⟨congrArg Prod.snd h, fun p hp => ?_⟩
    have := hle p (mem_proposalIndexes.mpr hp)
    omega
  · rw [hr] at hpos h₁ h₂
    have hsorted := sorted_storageOrder s.proposals.keys
    rw [← proposalIndexes, hl, List.Sorted, List.pairwise_append, List.pairwise_cons] at hsorted
    refine .inr ⟨hpos, mem_proposalIndexes.mp (hl ▸ by simp), fun q hq => ?_⟩
    rw [← mem_proposalIndexes, hl, List.mem_append, List.mem_cons] at hq
    rcases hq with hq | rfl | hq
    · exact .inl (h₁ q hq)
    · exact .inr ⟨rfl, refl _⟩
    · rcases (h₂ q hq).lt_or_eq with hlt | heq
      · exact .inl hlt
      · exact .inr ⟨heq, hsorted.2.1.1 q hq⟩

/-- `get_winner` reads only the keys of `Proposals` and the votes. -/
theorem getWinner_congr {t : State} (hp : s.proposals.keys = t.proposals.keys)
    (ha : s.ayeVotes = t.ayeVotes) : getWinner s = getWinner t := by
  have hstep : winnerStep s = winnerStep t := by
    funext acc p
    simp only [winnerStep, totalVotes, getAyeVotesBalance, ha]
  simp only [getWinner, proposalIndexes, hp, hstep]

/-- Rewriting a stored proposal leaves `get_winner` alone. -/
theorem getWinner_insert_of_mem {k : ℕ} {v : Proposal} (hk : k ∈ s.proposals) :
    getWinner { s with proposals := s.proposals.insert k v } = getWinner s := by
  refine getWinner_congr ?_ rfl
  ext x
  simp only [Finmap.mem_keys, Finmap.mem_insert]
  exact ⟨fun h => h.elim (· ▸ hk) id, Or.inr⟩

/-- Two voters each put weight `7` on one of proposals `1` and `2`. -/
def tieRun : List (ℕ × Origin × Call) :=
  [(0, .root, .registerVoter 1 5), (0, .root, .registerVoter 2 5),
   (0, .signed 1, .createProposal 0), (0, .signed 1, .createProposal 0),
   (0, .signed 1, .startProposal 1 1), (0, .signed 1, .startProposal 2 1),
   (0, .signed 1, .reserveTokens 49), (0, .signed 2, .reserveTokens 49),
   (0, .signed 1, .voteProposal 1 .aye), (0, .signed 2, .voteProposal 2 .aye)]

/-- The tables `tieRun` leaves: both proposals started, ending at block `10`. -/
def tieTables : State :=
  { State.genesis ⟨fun _ => 0, fun _ => 0⟩ with
    registeredVoters := [⟨1, true⟩, ⟨2, true⟩].toFinmap
    proposals := [⟨1, ⟨1, 0, 1, 10, .inProgress⟩⟩, ⟨2, ⟨2, 0, 1, 10, .inProgress⟩⟩].toFinmap
    proposalCount := 2
    ayeVotes := [⟨(1, 1), 7⟩, ⟨(2, 2), 7⟩].toFinmap }

theorem tieRun_matches : RunsTo templateConfig (.genesis ⟨fun _ => 0, fun _ => 0⟩) tieRun
    (Matches · tieTables [(1, 44, 49), (2, 46, 49)]) := by
  decide

end QuadraticVoting.Pallet
