import QuadraticVoting.Chain

/-! Extrinsics that touch one account only. The root's `register_voter` of `a`, and a
`reserve_tokens` or `unreserve_tokens` signed by `a`, read and write nothing but `a`'s record:
its registration and its free and reserved balances. No extrinsic of another account reads that
record, and none writes it, since every signed call moves only its signer's tokens. So the two
kinds of extrinsic commute, each at its own block: a transaction pool may order them either way. -/
namespace QuadraticVoting

namespace Ledger

variable {l : Ledger} {a w f r v : ℕ}

/-- `l` with account `a`'s free and reserved balances set to `f` and `r`. -/
def setAccount (l : Ledger) (a f r : ℕ) : Ledger :=
  ⟨Function.update l.free a f, Function.update l.reserved a r⟩

theorem setAccount_free_of_ne (hw : w ≠ a) : (l.setAccount a f r).free w = l.free w :=
  Function.update_noteq hw _ _

theorem setAccount_reserved_of_ne (hw : w ≠ a) : (l.setAccount a f r).reserved w = l.reserved w :=
  Function.update_noteq hw _ _

theorem makeFreeBalanceBe_setAccount (hw : w ≠ a) :
    (l.setAccount a f r).makeFreeBalanceBe w v = (l.makeFreeBalanceBe w v).setAccount a f r := by
  simp [makeFreeBalanceBe, setAccount, Function.update_comm hw]

theorem reserve_setAccount (hw : w ≠ a) :
    (l.setAccount a f r).reserve w v = (·.setAccount a f r) <$> l.reserve w v := by
  by_cases h : v ≤ l.free w <;>
    simp [reserve, h, setAccount, Function.update_noteq hw, Function.update_comm hw, Functor.map,
      Except.map]

theorem unreserve_setAccount (hw : w ≠ a) :
    (l.setAccount a f r).unreserve w v = ((l.unreserve w v).1.setAccount a f r, (l.unreserve w v).2) := by
  simp only [unreserve, setAccount, Function.update_noteq hw, Function.update_comm hw]

theorem slash_setAccount (hw : w ≠ a) :
    (l.setAccount a f r).slash w v = ((l.slash w v).1.setAccount a f r, (l.slash w v).2) := by
  simp only [slash, setAccount, Function.update_noteq hw, Function.update_comm hw]

/-- `unreserve` of a reserved amount, then the slash of its half: the half comes out of the
tokens just unreserved, and nothing else moves. -/
theorem unreserve_slash_half (h : v ≤ l.reserved w) :
    ((l.unreserve w v).1.slash w (v / 2)).1 = l.setAccount w (l.free w + v - v / 2) (l.reserved w - v) := by
  have hv : v / 2 ≤ l.free w + v := by omega
  simp [unreserve, slash, setAccount, min_eq_left h, min_eq_right hv]

end Ledger

namespace State

variable {s : State} {a w : ℕ} {r : Bool × ℕ × ℕ}

/-- `s` with account `a`'s free and reserved balances set to `r.2`, and `a` registered when
`r.1`. -/
def patchAccount (s : State) (a : ℕ) (r : Bool × ℕ × ℕ) : State :=
  { s with
    registeredVoters := if r.1 then s.registeredVoters.insert a true else s.registeredVoters
    balances := s.balances.setAccount a r.2.1 r.2.2 }

@[simp] theorem patchAccount_proposals : (s.patchAccount a r).proposals = s.proposals := rfl

@[simp] theorem patchAccount_proposalCount :
    (s.patchAccount a r).proposalCount = s.proposalCount := rfl

@[simp] theorem patchAccount_ayeVotes : (s.patchAccount a r).ayeVotes = s.ayeVotes := rfl

@[simp] theorem patchAccount_balances :
    (s.patchAccount a r).balances = s.balances.setAccount a r.2.1 r.2.2 := rfl

theorem mem_patchAccount_of_ne (hw : w ≠ a) :
    w ∈ (s.patchAccount a r).registeredVoters ↔ w ∈ s.registeredVoters := by
  unfold patchAccount; split_ifs <;> simp [Finmap.mem_insert, hw]

end State

namespace Pallet

variable {c : Config} {s t : State} {now : ℕ} {a w : ℕ} {origin : Origin} {call : Call}

/-- The account whose record an extrinsic may read or write: its signer, or the voter that a
root `register_voter` registers. -/
def subject : Origin → Call → Option ℕ
  | .signed v, _ => some v
  | .root, .registerVoter v _ => some v
  | _, _ => none

/-- Whether an extrinsic is signed by `a` or registers `a`. -/
def Touches (a : ℕ) (origin : Origin) (call : Call) : Prop := subject origin call = some a

instance decidableTouches : Decidable (Touches a origin call) := inferInstanceAs (Decidable (_ = _))

/-- An extrinsic that reads and writes only account `a`'s record: the root's `register_voter` of
`a`, or a `reserve_tokens` or `unreserve_tokens` signed by `a`. -/
def AccountLocal (a : ℕ) : Origin → Call → Prop
  | .root, .registerVoter v _ => v = a
  | .signed v, .reserveTokens _ => v = a
  | .signed v, .unreserveTokens _ => v = a
  | _, _ => False

/-- Account `a`'s record as the pallet reads it: registered or not, free and reserved balance. -/
def accountOf (s : State) (a : ℕ) : Bool × ℕ × ℕ :=
  (decide (a ∈ s.registeredVoters), s.balances.free a, s.balances.reserved a)

/-- What an account-local extrinsic makes of its account's record: whether it registers the
account, and the free and reserved balances it leaves; `none` when it fails. Read off
`register_voter`, `reserve_tokens` and `unreserve_tokens`, whose unreserve always covers the
half it then slashes. -/
def localEffect : Origin → Call → Bool × ℕ × ℕ → Option (Bool × ℕ × ℕ)
  | .root, .registerVoter _ fee, (reg, _, reserved) =>
    if reg = false ∧ 0 < fee ∧ fee ≤ 100 then some (true, 100 - fee, reserved) else none
  | .signed _, .reserveTokens amount, (reg, free, reserved) =>
    if reg = true ∧ 0 < amount ∧ amount ≤ free then
      some (false, free - amount, reserved + amount)
    else none
  | .signed _, .unreserveTokens amount, (reg, free, reserved) =>
    if reg = true ∧ 0 < amount ∧ amount ≤ reserved then
      some (false, free + amount - amount / 2, reserved - amount)
    else none
  | _, _, _ => none

/-- An account-local extrinsic does what `localEffect` says to its account's record, from that
record alone, and writes nothing else. -/
theorem applyExtrinsic_accountLocal (hA : AccountLocal a origin call) :
    applyExtrinsic c now s origin call =
      match localEffect origin call (accountOf s a) with
      | some r => s.patchAccount a r
      | none => s := by
  cases origin <;> cases call <;> simp only [AccountLocal] at hA <;> subst hA
  case root.registerVoter v fee =>
    by_cases h : v ∉ s.registeredVoters ∧ 0 < fee ∧ fee ≤ 100
    · rw [applyExtrinsic_of_ok (show dispatch c now s .root (.registerVoter v fee) = .ok _ from
        registerVoter_eq_ok.mpr ⟨rfl, h.1, h.2.1, h.2.2, rfl⟩)]
      simp [localEffect, accountOf, h, State.patchAccount, Ledger.makeFreeBalanceBe, Ledger.setAccount]
    · have hd : ∀ t es, dispatch c now s .root (.registerVoter v fee) ≠ .ok (t, es) :=
        fun t es hd => let ⟨_, h₁, h₂, h₃, _⟩ := registerVoter_eq_ok.mp hd; h ⟨h₁, h₂, h₃⟩
      rw [applyExtrinsic_of_not_ok hd]
      simp only [localEffect, accountOf, decide_eq_false_iff_not, if_neg h]
  case signed.reserveTokens v amount =>
    by_cases h : v ∈ s.registeredVoters ∧ 0 < amount ∧ amount ≤ s.balances.free v
    · rw [applyExtrinsic_of_ok (show dispatch c now s (.signed v) (.reserveTokens amount) = .ok _ from
        reserveTokens_eq_ok.mpr ⟨v, rfl, h.1, h.2.1, h.2.2, rfl⟩)]
      simp [localEffect, accountOf, h, State.patchAccount, Ledger.setAccount]
    · have hd : ∀ t es, dispatch c now s (.signed v) (.reserveTokens amount) ≠ .ok (t, es) :=
        fun t es hd => let ⟨_, he, h₁, h₂, h₃, _⟩ := reserveTokens_eq_ok.mp hd
          by cases he; exact h ⟨h₁, h₂, h₃⟩
      rw [applyExtrinsic_of_not_ok hd]
      simp only [localEffect, accountOf, decide_eq_true_iff, if_neg h]
  case signed.unreserveTokens v amount =>
    by_cases h : v ∈ s.registeredVoters ∧ 0 < amount ∧ amount ≤ s.balances.reserved v
    · rw [applyExtrinsic_of_ok (show dispatch c now s (.signed v) (.unreserveTokens amount) = .ok _
        from unreserveTokens_eq_ok.mpr ⟨v, rfl, h.1, h.2.1, h.2.2, rfl⟩)]
      simp [localEffect, accountOf, h, State.patchAccount, Ledger.unreserve_slash_half h.2.2]
    · have hd : ∀ t es, dispatch c now s (.signed v) (.unreserveTokens amount) ≠ .ok (t, es) :=
        fun t es hd => let ⟨_, he, h₁, h₂, h₃, _⟩ := unreserveTokens_eq_ok.mp hd
          by cases he; exact h ⟨h₁, h₂, h₃⟩
      rw [applyExtrinsic_of_not_ok hd]
      simp only [localEffect, accountOf, decide_eq_true_iff, if_neg h]

theorem ensureSigned_signed : ensureSigned (.signed w) = pure w := rfl

theorem mapError_map {α β ε ε' : Type} {f : α → β} {g : ε → ε'} {x : Except ε α} :
    (f <$> x).mapError g = f <$> x.mapError g := by
  cases x <;> rfl

section frame

variable {r : Bool × ℕ × ℕ} {p : ℕ}

@[simp] theorem getWinner_patchAccount : getWinner (s.patchAccount a r) = getWinner s := rfl

theorem updateProposalStatusToCompleted_patchAccount :
    updateProposalStatusToCompleted (s.patchAccount a r) p =
      (·.patchAccount a r) <$> updateProposalStatusToCompleted s p := by
  cases h : s.proposals.lookup p with
  | none => simp [updateProposalStatusToCompleted, getProposal, h, expectSome]
  | some pr =>
    have h' : (s.patchAccount a r).proposals.lookup p = some pr := h
    simp [updateProposalStatusToCompleted, getProposal, h, expectSome,
      State.mutateProposal_of_lookup h, State.mutateProposal_of_lookup h']
    rfl

theorem voteItem_patchAccount (ps : List (ℕ × ℕ × Vote)) (t : State) (es : List Event)
    (i : ℕ × ℕ × Vote) :
    voteItem c w ps (t.patchAccount a r, es) i =
      (fun q => (q.1.patchAccount a r, q.2)) <$> voteItem c w ps (t, es) i := by
  obtain ⟨p, n, _ | _ | _⟩ := i <;>
    simp only [voteItem, getAyeVotesBalance, getVoterBalance_eq, Ledger.makeFreeBalanceBe_self,
      State.patchAccount_ayeVotes, map_bind, map_pure]
  all_goals simp [State.patchAccount]

theorem foldlM_voteItem_patchAccount (ps items : List (ℕ × ℕ × Vote)) (t : State)
    (es : List Event) :
    items.foldlM (voteItem c w ps) (t.patchAccount a r, es) =
      (fun q => (q.1.patchAccount a r, q.2)) <$> items.foldlM (voteItem c w ps) (t, es) := by
  induction items generalizing t es with
  | nil => rfl
  | cons i items ih =>
    simp only [List.foldlM_cons, voteItem_patchAccount, bind_map_left, ih, map_bind]

end frame

theorem dispatch_patchAccount_signed (hw : w ≠ a) (r : Bool × ℕ × ℕ) (call : Call) :
    dispatch c now (s.patchAccount a r) (.signed w) call =
      (fun p => (p.1.patchAccount a r, p.2)) <$> dispatch c now s (.signed w) call := by
  cases call
  case registerVoter => rfl
  all_goals
    simp only [dispatch, createProposal, startProposal, reserveTokens, voteProposal, unreserveTokens,
      voteMultipleProposals, ensureSigned_signed, pure_bind, map_bind, map_pure, bind_map_left,
      isVoterRegistered, isProposalRegistered, isProposalActive, getProposal, getProposalStatus,
      getProposalEndBlock, voterHasVoted, getAyeVotesBalance, getVoterBalance_eq,
      Ledger.makeFreeBalanceBe_self, Ledger.reservedBalance, State.mem_patchAccount_of_ne hw,
      State.patchAccount_balances, Ledger.setAccount_free_of_ne hw, Ledger.setAccount_reserved_of_ne hw,
      Ledger.makeFreeBalanceBe_setAccount hw, Ledger.reserve_setAccount hw,
      Ledger.unreserve_setAccount hw, Ledger.slash_setAccount hw,
      State.patchAccount_proposals, State.patchAccount_ayeVotes,
      updateProposalStatusToCompleted_patchAccount, getWinner_patchAccount,
      foldlM_voteItem_patchAccount]
  case voteProposal vote => cases vote <;> simp [State.patchAccount, apply_ite, map_bind]
  case voteMultipleProposals => simp [State.patchAccount, apply_ite, map_bind]
  case unreserveTokens => rfl
  all_goals simp [State.patchAccount, State.insertProposal_eq, Ledger.makeFreeBalanceBe_setAccount hw,
    mapError_map]

/-- The frame lemma: patching account `a`'s record before an extrinsic that does not touch `a`
is patching it after; the extrinsic's events and errors are the same. -/
theorem dispatch_patchAccount (hB : ¬Touches a origin call) (r : Bool × ℕ × ℕ) :
    dispatch c now (s.patchAccount a r) origin call =
      (fun p => (p.1.patchAccount a r, p.2)) <$> dispatch c now s origin call := by
  cases origin with
  | signed w => exact dispatch_patchAccount_signed (fun h => hB (congrArg some h)) r call
  | none => cases call <;> rfl
  | root =>
    cases call
    case registerVoter v fee =>
      have hv : v ≠ a := fun h => hB (congrArg some h)
      simp only [dispatch, registerVoter, isVoterRegistered, State.mem_patchAccount_of_ne hv,
        map_bind, map_pure, State.patchAccount_balances, Ledger.makeFreeBalanceBe_setAccount hv]
      obtain ⟨_ | _, f, rs⟩ := r <;> simp [State.patchAccount, Finmap.insert_insert_of_ne _ hv]
    all_goals rfl

theorem applyExtrinsic_patchAccount (hB : ¬Touches a origin call) (r : Bool × ℕ × ℕ) :
    applyExtrinsic c now (s.patchAccount a r) origin call =
      (applyExtrinsic c now s origin call).patchAccount a r := by
  simp only [applyExtrinsic, dispatch_patchAccount hB r]
  cases dispatch c now s origin call <;> rfl

/-- An extrinsic that does not touch account `a` leaves `a`'s record as it was. -/
theorem accountOf_applyExtrinsic (hB : ¬Touches a origin call) :
    accountOf (applyExtrinsic c now s origin call) a = accountOf s a := by
  rcases applyExtrinsic_cases (c := c) (s := s) now origin call with ⟨es, hd⟩ | he
  · have ha : ∀ fee, call ≠ .registerVoter a fee := by
      rintro fee rfl
      obtain ⟨rfl, -⟩ := registerVoter_eq_ok.mp hd
      exact hB rfl
    have ho : origin ≠ .signed a := by rintro rfl; exact hB rfl
    obtain ⟨hres, htot⟩ := account_step hd ha
    simp only [ho, if_false, add_zero, Nat.cast_inj, Ledger.totalBalance] at hres htot
    simp only [accountOf, Prod.mk.injEq]
    exact ⟨by simp [mem_registeredVoters_step hd a, ha], by omega, hres⟩
  · rw [he]

/-- An account-local extrinsic commutes with one that does not touch its account, each at its
own block. -/
theorem applyExtrinsic_accountLocal_comm {oA oB : Origin} {A B : Call} (hA : AccountLocal a oA A)
    (hB : ¬Touches a oB B) (nowA nowB : ℕ) :
    applyExtrinsic c nowB (applyExtrinsic c nowA s oA A) oB B =
      applyExtrinsic c nowA (applyExtrinsic c nowB s oB B) oA A := by
  rw [applyExtrinsic_accountLocal (s := s) hA,
    applyExtrinsic_accountLocal (s := applyExtrinsic c nowB s oB B) hA, accountOf_applyExtrinsic hB]
  cases localEffect oA A (accountOf s a) with
  | none => rfl
  | some r => exact applyExtrinsic_patchAccount hB r

theorem applyExtrinsics_append (s : State) (xs ys : List (ℕ × Origin × Call)) :
    applyExtrinsics c s (xs ++ ys) = applyExtrinsics c (applyExtrinsics c s xs) ys := by
  induction xs generalizing s with
  | nil => rfl
  | cons x xs ih => exact ih _

/-- An account-local extrinsic commutes with a whole sequence of extrinsics that do not touch its
account. -/
theorem applyExtrinsics_accountLocal_comm {oA : Origin} {A : Call} (hA : AccountLocal a oA A)
    (nowA : ℕ) {xs : List (ℕ × Origin × Call)} (hxs : ∀ x ∈ xs, ¬Touches a x.2.1 x.2.2) :
    applyExtrinsics c (applyExtrinsic c nowA s oA A) xs =
      applyExtrinsic c nowA (applyExtrinsics c s xs) oA A := by
  induction xs generalizing s with
  | nil => rfl
  | cons x xs ih =>
    obtain ⟨now, o, B⟩ := x
    simp only [applyExtrinsics]
    rw [applyExtrinsic_accountLocal_comm hA (hxs _ (.head _)) nowA now]
    exact ih fun x hx => hxs x (.tail _ hx)

/-- The root's `register_voter` of `a`, or a `reserve_tokens` or `unreserve_tokens` signed by
`a`, can be moved anywhere among extrinsics that are not signed by `a` and do not register `a`:
whichever place a block producer gives it, the chain ends in the same storage. -/
theorem accountLocal_reorder {oA : Origin} {A : Call} (hA : AccountLocal a oA A) (nowA : ℕ)
    {xs : List (ℕ × Origin × Call)} (hxs : ∀ x ∈ xs, ¬Touches a x.2.1 x.2.2)
    (ys : List (ℕ × Origin × Call)) :
    applyExtrinsics c s (xs ++ (nowA, oA, A) :: ys) = applyExtrinsics c s ((nowA, oA, A) :: (xs ++ ys)) := by
  rw [applyExtrinsics_append, applyExtrinsics, applyExtrinsics, applyExtrinsics_append,
    applyExtrinsics_accountLocal_comm hA nowA hxs]

/-- Voter `3` can be registered before or after the whole of `tieRun`, and then reserve. -/
theorem accountLocal_reorder_tieRun :
    AccountLocal 3 .root (.registerVoter 3 5) ∧ (∀ x ∈ tieRun, ¬Touches 3 x.2.1 x.2.2) ∧
      applyExtrinsics templateConfig (State.genesis ⟨fun _ => 0, fun _ => 0⟩)
          (tieRun ++ [(0, .root, .registerVoter 3 5), (1, .signed 3, .reserveTokens 10)]) =
        applyExtrinsics templateConfig (State.genesis ⟨fun _ => 0, fun _ => 0⟩)
          ((0, .root, .registerVoter 3 5) :: (tieRun ++ [(1, .signed 3, .reserveTokens 10)])) :=
  have hA : AccountLocal 3 .root (.registerVoter 3 5) := rfl
  have hxs : ∀ x ∈ tieRun, ¬Touches 3 x.2.1 x.2.2 := by decide
  ⟨hA, hxs, accountLocal_reorder hA 0 hxs [(1, .signed 3, .reserveTokens 10)]⟩

end Pallet

end QuadraticVoting
