import QuadraticVoting.Faults

/-! The errors of the pallet. Each call makes its checks in a fixed order and returns the error of
the first that fails; every write of a call that fails is rolled back. `callChecks` lists the
checks of every call with their errors, and `dispatch_eq_error_iff` says that a call fails with
an error exactly as the list says. -/

namespace QuadraticVoting.Pallet

variable {c : Config} {s : State} {now : ℕ} {origin : Origin} {call : Call} {e : DispatchError}
variable {α β : Type}

@[simp] theorem bind_eq_dispatch {x : Except Fault α} {f : α → Except Fault β} :
    x >>= f = .error (.dispatch e) ↔
      x = .error (.dispatch e) ∨ ∃ a, x = .ok a ∧ f a = .error (.dispatch e) := by
  cases x <;> simp [bind, Except.bind]

@[simp] theorem map_eq_dispatch {x : Except Fault α} {f : α → β} :
    f <$> x = .error (.dispatch e) ↔ x = .error (.dispatch e) := by
  cases x <;> simp [Functor.map, Except.map]

@[simp] theorem ensure_eq_dispatch {b : Bool} {err : Error} :
    ensure b err = .error (.dispatch e) ↔ b = false ∧ e = .module err := by
  cases b <;> simp [ensure, eq_comm]

@[simp] theorem ensureSigned_eq_dispatch :
    ensureSigned origin = .error (.dispatch e) ↔ (∀ who, origin ≠ .signed who) ∧ e = .badOrigin := by
  cases origin <;> simp [ensureSigned, eq_comm]

@[simp] theorem ensureRoot_eq_dispatch :
    ensureRoot origin = .error (.dispatch e) ↔ origin ≠ .root ∧ e = .badOrigin := by
  cases origin <;> simp [ensureRoot, eq_comm]

@[simp] theorem checkedSubBetweenBalances_isOk {a b : ℕ} :
    (checkedSubBetweenBalances a b).isOk = decide (b ≤ a) := by
  unfold checkedSubBetweenBalances; split_ifs <;> simp [*, Except.isOk, Except.toBool]

@[simp] theorem checkedDivBetweenBalances_isOk {a b : ℕ} :
    (checkedDivBetweenBalances a b).isOk = decide (b ≠ 0) := by
  unfold checkedDivBetweenBalances; split_ifs <;> simp [*, Except.isOk, Except.toBool]

@[simp] theorem checkedAddBetweenBalances_isOk {a b : ℕ} :
    (checkedAddBetweenBalances c a b).isOk = decide (a + b < 2 ^ c.balanceBits) := by
  unfold checkedAddBetweenBalances; split_ifs <;> simp [*, Except.isOk, Except.toBool]

@[simp] theorem isProposalActive_eq_false {p : ℕ} :
    isProposalActive s p = false ↔ ∀ pr, s.proposals.lookup p = some pr → pr.status ≠ .inProgress := by
  rw [← Bool.not_eq_true, isProposalActive_eq_true]; simp

@[simp] theorem checkedSubBetweenBalances_eq_dispatch {a b : ℕ} :
    checkedSubBetweenBalances a b = .error (.dispatch e) ↔ ¬b ≤ a ∧ e = .module .substractionOverflow := by
  unfold checkedSubBetweenBalances; split_ifs <;> simp [*, eq_comm]

@[simp] theorem checkedDivBetweenBalances_eq_dispatch {a b : ℕ} :
    checkedDivBetweenBalances a b = .error (.dispatch e) ↔ b = 0 ∧ e = .module .slashFailed := by
  unfold checkedDivBetweenBalances; split_ifs <;> simp [*, eq_comm]

@[simp] theorem checkedAddBetweenBalances_eq_dispatch {a b : ℕ} :
    checkedAddBetweenBalances c a b = .error (.dispatch e) ↔
      ¬a + b < 2 ^ c.balanceBits ∧ e = .module .additionOverflow := by
  unfold checkedAddBetweenBalances; split_ifs <;> simp [*, eq_comm]

@[simp] theorem expectOk_eq_dispatch {x : Except Fault α} {m : String} :
    expectOk x m = .error (.dispatch e) ↔ False := by
  cases x <;> simp [expectOk]

@[simp] theorem expectSome_eq_dispatch {o : Option α} {m : String} :
    expectSome o m = .error (.dispatch e) ↔ False := by
  cases o <;> simp [expectSome]

@[simp] theorem mapError_dispatch_eq_dispatch {x : Except DispatchError α} :
    x.mapError Fault.dispatch = .error (.dispatch e) ↔ x = .error e := by
  cases x <;> simp [Except.mapError]

@[simp] theorem reserve_eq_error {l : Ledger} {who v : ℕ} :
    l.reserve who v = .error e ↔ ¬v ≤ l.free who ∧ e = .insufficientBalance := by
  unfold Ledger.reserve; split_ifs <;> simp [*, eq_comm]

@[simp] theorem okOr_eq_dispatch {o : Option α} {err : DispatchError} :
    okOr o err = .error (.dispatch e) ↔ o = none ∧ e = err := by
  cases o <;> simp [okOr, eq_comm]

@[simp] theorem getProposalStatus_eq_dispatch {p : ℕ} :
    getProposalStatus s p = .error (.dispatch e) ↔ False := by
  cases h : s.proposals.lookup p <;> simp [getProposalStatus, h]

@[simp] theorem getProposalEndBlock_eq_dispatch {p : ℕ} :
    getProposalEndBlock s p = .error (.dispatch e) ↔ False := by
  cases h : s.proposals.lookup p <;> simp [getProposalEndBlock, h]

@[simp] theorem updateProposalStatusToCompleted_eq_dispatch {p : ℕ} :
    updateProposalStatusToCompleted s p = .error (.dispatch e) ↔ False := by
  cases h : s.proposals.lookup p <;> simp [updateProposalStatusToCompleted, h]

theorem voteItem_eq_dispatch {p who t : ℕ} {v : Vote} {ps : List (ℕ × ℕ × Vote)}
    {acc : State × List Event} :
    voteItem c who ps acc (p, t, v) = .error (.dispatch e) ↔ v = .aye ∧
      ¬getAyeVotesBalance acc.1 p who + Nat.sqrt t < 2 ^ c.balanceBits ∧ e = .module .additionOverflow := by
  cases v <;> simp [voteItem]

/-- The loop of the batch call fails exactly when one of its checked additions overflows. -/
theorem foldlM_voteItem_eq_dispatch {who : ℕ} {ps items : List (ℕ × ℕ × Vote)} {es : List Event} :
    items.foldlM (voteItem c who ps) (s, es) = .error (.dispatch e) ↔
      tallyBatch c who items s.ayeVotes = none ∧ e = .module .additionOverflow := by
  induction items generalizing s es with
  | nil => simp [tallyBatch]
  | cons item items ih =>
    obtain ⟨q, t, v⟩ := item
    by_cases hov : (s.ayeVotes.lookup (q, who)).getD 0 + Nat.sqrt t < 2 ^ c.balanceBits <;>
      cases v <;> simp [tallyBatch, voteItem_eq_dispatch, voteItem_eq_ok, ih, getAyeVotesBalance, hov]

/-- The error of the first check that fails, the checks taken in order. -/
def firstFailure : List (Bool × DispatchError) → Option DispatchError
  | [] => none
  | (ok, err) :: checks => if ok then firstFailure checks else some err

@[simp] theorem firstFailure_nil : firstFailure [] = none := rfl

@[simp] theorem firstFailure_cons {b : Bool} {err : DispatchError} {l : List (Bool × DispatchError)} :
    firstFailure ((b, err) :: l) = some e ↔ b = false ∧ e = err ∨ b = true ∧ firstFailure l = some e := by
  cases b <;> simp [firstFailure, eq_comm]

/-- A call from the wrong origin fails with `BadOrigin` before any other check. -/
theorem badOrigin_eq_error :
    (.error (.dispatch .badOrigin) : Except Fault α) = .error (.dispatch e) ↔
      firstFailure [(false, .badOrigin)] = some e := by
  constructor <;> rintro ⟨⟩ <;> rfl

/-- A check that the code makes twice fails only the first time. -/
theorem and_not_self_and {a b : Prop} : a ∧ ¬a ∧ b ↔ False := by tauto

/-- The checks of a call signed by `who` at block `now`, in the order the source makes them, each
with the error it raises. -/
def signedChecks (c : Config) (now who : ℕ) (s : State) : Call → List (Bool × DispatchError)
  | .registerVoter _ _ => [(false, .badOrigin)]
  | .createProposal _ => [(who ∈ s.registeredVoters, .module .notRegisteredVoter)]
  | .startProposal p fee =>
    [(who ∈ s.registeredVoters, .module .notRegisteredVoter),
     (p ∈ s.proposals, .module .proposalNotFound),
     (fee ≤ s.balances.free who, .module .notEnoughBalance),
     (∃ pr ∈ s.proposals.lookup p, pr.status = .notStarted, .module .proposalAlreadyStarted),
     (0 < fee, .module .insufficientFee)]
  | .reserveTokens amount =>
    [(who ∈ s.registeredVoters, .module .notRegisteredVoter),
     (0 < amount, .module .invalidTokensAmountToReserve),
     (amount ≤ s.balances.free who, .module .notEnoughBalance)]
  | .voteProposal p vote =>
    [(who ∈ s.registeredVoters, .module .notRegisteredVoter),
     (p ∈ s.proposals, .module .proposalNotFound),
     (∃ pr ∈ s.proposals.lookup p, pr.status = .inProgress, .module .proposalNotActive),
     ((∃ pr ∈ s.proposals.lookup p, pr.endBlock ≤ now) ∨ 0 < s.balances.reserved who,
       .module .notEnoughReservedTokens),
     ((∃ pr ∈ s.proposals.lookup p, pr.endBlock ≤ now) ∨ vote ≠ .aye ∨ (p, who) ∉ s.ayeVotes,
       .module .voterAlreadyVoted)]
  | .unreserveTokens amount =>
    [(who ∈ s.registeredVoters, .module .notRegisteredVoter),
     (0 < amount, .module .invalidTokensAmountToUnreserve),
     (amount ≤ s.balances.reserved who, .module .notEnoughReservedTokens)]
  | .voteMultipleProposals items =>
    [(who ∈ s.registeredVoters, .module .notRegisteredVoter),
     (∀ i ∈ items, ∃ pr ∈ s.proposals.lookup i.1, pr.status = .inProgress,
       .module .atLeastOneProposalNotRegisteredOrNotActive),
     (items.foldl (fun acc i => (acc + i.2.1) % 2 ^ c.balanceBits) 0 ≤ s.balances.reserved who,
       .module .notEnoughReservedTokens),
     (∀ i ∈ items, (i.1, who) ∉ s.ayeVotes, .module .voterAlreadyVoted),
     ((∃ i ∈ items, ∃ pr ∈ s.proposals.lookup i.1, pr.endBlock ≤ now) ∨
       (tallyBatch c who items s.ayeVotes).isSome, .module .additionOverflow)]

/-- The checks of every call, the origin's first. -/
def callChecks (c : Config) (now : ℕ) (s : State) : Origin → Call → List (Bool × DispatchError)
  | .root, .registerVoter voterId fee =>
    [(voterId ∉ s.registeredVoters, .module .voterAlreadyRegistered),
     (0 < fee, .module .insufficientFee),
     (fee ≤ 100, .module .substractionOverflow)]
  | .signed who, call => signedChecks c now who s call
  | _, _ => [(false, .badOrigin)]

section calls

variable {p fee amount : ℕ}

theorem registerVoter_eq_error {voterId : ℕ} :
    registerVoter s origin voterId fee = .error (.dispatch e) ↔
      firstFailure (callChecks c now s origin (.registerVoter voterId fee)) = some e := by
  cases origin <;> simp [registerVoter, callChecks, signedChecks, and_not_self_and, -not_le, -Nat.not_le]

theorem createProposal_eq_error {text : ℕ} :
    createProposal c now s origin text = .error (.dispatch e) ↔
      firstFailure (callChecks c now s origin (.createProposal text)) = some e := by
  cases origin <;> simp [createProposal, callChecks, signedChecks]

theorem startProposal_eq_error :
    startProposal s origin p fee = .error (.dispatch e) ↔
      firstFailure (callChecks c now s origin (.startProposal p fee)) = some e := by
  cases origin with
  | signed who =>
    cases hp : s.proposals.lookup p with
    | none => simp [startProposal, callChecks, signedChecks, hp, Finmap.lookup_eq_none.mp hp]
    | some pr =>
      simp [startProposal, callChecks, signedChecks, and_not_self_and, hp,
        Finmap.mem_of_lookup_eq_some hp, -not_le, -Nat.not_le]
  | _ => exact badOrigin_eq_error

theorem reserveTokens_eq_error :
    reserveTokens s origin amount = .error (.dispatch e) ↔
      firstFailure (callChecks c now s origin (.reserveTokens amount)) = some e := by
  cases origin <;> simp [reserveTokens, callChecks, signedChecks, and_not_self_and, -not_le, -Nat.not_le]

theorem voteProposal_eq_error {vote : Vote} :
    voteProposal c now s origin p vote = .error (.dispatch e) ↔
      firstFailure (callChecks c now s origin (.voteProposal p vote)) = some e := by
  cases origin with
  | signed who =>
    cases hp : s.proposals.lookup p with
    | none => simp [voteProposal, callChecks, signedChecks, hp, Finmap.lookup_eq_none.mp hp]
    | some pr =>
      by_cases hend : pr.endBlock ≤ now
      · simp [voteProposal, callChecks, signedChecks, hp, hend, Finmap.mem_of_lookup_eq_some hp]
      · cases vote <;> simp [voteProposal, callChecks, signedChecks, and_not_self_and, hp, hend,
          Finmap.mem_of_lookup_eq_some hp, Ledger.reservedBalance, -not_le, -Nat.not_le]
  | _ => exact badOrigin_eq_error

theorem unreserveTokens_eq_error :
    unreserveTokens s origin amount = .error (.dispatch e) ↔
      firstFailure (callChecks c now s origin (.unreserveTokens amount)) = some e := by
  cases origin <;> simp [unreserveTokens, callChecks, signedChecks, and_not_self_and,
    Ledger.reservedBalance, -not_le, -Nat.not_le, -Ledger.slash_free, -Ledger.unreserve_free]

/-- The batch call's deadline branch cannot fail with an error (only panic), and its loop fails
only on an overflowing addition. -/
theorem voteMultipleProposals_eq_error {items : List (ℕ × ℕ × Vote)} :
    voteMultipleProposals c now s origin items = .error (.dispatch e) ↔
      firstFailure (callChecks c now s origin (.voteMultipleProposals items)) = some e := by
  cases origin with
  | signed who =>
    by_cases hall : ∀ p t v, (p, t, v) ∈ items →
        ∃ pr, s.proposals.lookup p = some pr ∧ pr.status = .inProgress
    · have hM := allM_endBlock_eq_ok now fun p t v hi => (hall p t v hi).imp fun _ => And.left
      have hex : ¬∃ p, (∃ t v, (p, t, v) ∈ items) ∧
          ∀ pr, s.proposals.lookup p = some pr → pr.status ≠ .inProgress :=
        fun ⟨p, ⟨t, v, hi⟩, hn⟩ => let ⟨pr, hp, hs⟩ := hall p t v hi; hn pr hp hs
      simp [voteMultipleProposals, callChecks, signedChecks, hM, hex, hall,
        foldlM_voteItem_eq_dispatch, Ledger.reservedBalance, ite_eq_iff, and_assoc]
    · have hex : ∃ p, (∃ t v, (p, t, v) ∈ items) ∧
          ∀ pr, s.proposals.lookup p = some pr → pr.status ≠ .inProgress := by
        push_neg at hall
        obtain ⟨p, t, v, hi, hn⟩ := hall
        exact ⟨p, ⟨t, v, hi⟩, hn⟩
      simp [voteMultipleProposals, callChecks, signedChecks, hex, hall]
  | _ => exact badOrigin_eq_error

end calls

/-- Error precedence: a call fails with a dispatch error exactly when one of its checks fails,
and the error it returns is that of the first failing check in the source's order. -/
theorem dispatch_eq_error_iff :
    dispatch c now s origin call = .error (.dispatch e) ↔
      firstFailure (callChecks c now s origin call) = some e := by
  cases call with
  | registerVoter voterId fee => exact registerVoter_eq_error
  | createProposal text => exact createProposal_eq_error
  | startProposal p fee => exact startProposal_eq_error
  | reserveTokens amount => exact reserveTokens_eq_error
  | voteProposal p vote => exact voteProposal_eq_error
  | unreserveTokens amount => exact unreserveTokens_eq_error
  | voteMultipleProposals items => exact voteMultipleProposals_eq_error

end QuadraticVoting.Pallet
