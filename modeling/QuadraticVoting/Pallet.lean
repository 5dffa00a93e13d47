import QuadraticVoting.Ledger
import QuadraticVoting.Blake2
import Mathlib.Data.Finmap
import Mathlib.Data.List.Sort
import Mathlib.Algebra.BigOperators.Group.Finset

/-! The voting pallet (`pallets/voting/src/lib.rs`) as functions on its storage. A call returns
the storage it leaves and the events it deposits, or a `Fault`. A call that fails writes
nothing, as FRAME's transactional dispatch rolls its writes back. -/
namespace QuadraticVoting

open Blake2

/-- The pallet's storage, and the balances of `T::Currency`. -/
structure State where
  /-- `RegisteredVoters`; only its keys are read. -/
  registeredVoters : Finmap (fun _ : ℕ => Bool)
  /-- `Proposals`, a `CountedStorageMap`. -/
  proposals : Finmap (fun _ : ℕ => Proposal)
  /-- The counter of `Proposals`, `Proposals::count()`. -/
  proposalCount : ℕ
  /-- `AyeVotes`, keyed by proposal and voter. -/
  ayeVotes : Finmap (fun _ : ℕ × ℕ => ℕ)
  balances : Ledger

namespace State

/-- Empty pallet storage over the balances of genesis. -/
def genesis (balances : Ledger) : State := ⟨∅, ∅, 0, ∅, balances⟩

/-- `CountedStorageMap::try_mutate_exists` on `Proposals`, with a closure that cannot fail: the
key takes the closure's value, and the counter follows the keys created and removed. -/
def mutateProposal (s : State) (k : ℕ) (f : Option Proposal → Option Proposal) :
    State :=
  match s.proposals.lookup k, f (s.proposals.lookup k) with
  | none, some v =>
    { s with proposals := s.proposals.insert k v, proposalCount := min (s.proposalCount + 1) u32Max }
  | some _, some v => { s with proposals := s.proposals.insert k v }
  | some _, none => { s with proposals := s.proposals.erase k, proposalCount := s.proposalCount - 1 }
  | none, none => s

/-- `AyeVotes::set`. -/
def setAyeVotes (s : State) (proposalIndex who value : ℕ) : State :=
  { s with ayeVotes := s.ayeVotes.insert (proposalIndex, who) value }

/-- `Proposals::insert`, which bumps the counter when the key is new. -/
def insertProposal (s : State) (k : ℕ) (v : Proposal) : State :=
  s.mutateProposal k fun _ => some v

variable {s : State} {k : ℕ} {f : Option Proposal → Option Proposal}

@[simp] theorem setAyeVotes_eq (p who v : ℕ) :
    s.setAyeVotes p who v = { s with ayeVotes := s.ayeVotes.insert (p, who) v } := rfl

@[simp] theorem mutateProposal_const (v : Proposal) :
    s.mutateProposal k (fun _ => some v) = s.insertProposal k v := rfl

@[simp] theorem mutateProposal_registeredVoters :
    (s.mutateProposal k f).registeredVoters = s.registeredVoters := by
  unfold mutateProposal; split <;> rfl

@[simp] theorem mutateProposal_ayeVotes : (s.mutateProposal k f).ayeVotes = s.ayeVotes := by
  unfold mutateProposal; split <;> rfl

@[simp] theorem mutateProposal_balances : (s.mutateProposal k f).balances = s.balances := by
  unfold mutateProposal; split <;> rfl

@[simp] theorem insertProposal_registeredVoters (v : Proposal) :
    (s.insertProposal k v).registeredVoters = s.registeredVoters := mutateProposal_registeredVoters

@[simp] theorem insertProposal_ayeVotes (v : Proposal) :
    (s.insertProposal k v).ayeVotes = s.ayeVotes := mutateProposal_ayeVotes

@[simp] theorem insertProposal_balances (v : Proposal) :
    (s.insertProposal k v).balances = s.balances := mutateProposal_balances

/-- Writing a new value over a stored proposal leaves the counter alone. -/
theorem mutateProposal_of_lookup {pr v : Proposal} (h : s.proposals.lookup k = some pr)
    (hf : f (some pr) = some v) :
    s.mutateProposal k f = { s with proposals := s.proposals.insert k v } := by
  simp [mutateProposal, h, hf]

theorem insertProposal_eq (v : Proposal) :
    s.insertProposal k v =
      { s with
        proposals := s.proposals.insert k v
        proposalCount := if k ∈ s.proposals then s.proposalCount
          else min (s.proposalCount + 1) u32Max } := by
  unfold insertProposal mutateProposal
  cases h : s.proposals.lookup k <;>
    simp_all [Finmap.lookup_eq_none, Finmap.mem_of_lookup_eq_some]

@[simp] theorem insertProposal_of_mem (v : Proposal) (h : k ∈ s.proposals) :
    s.insertProposal k v = { s with proposals := s.proposals.insert k v } := by
  simp [insertProposal_eq, h]

end State

/-- The order in which storage enumerates `Proposals`: by hashed key. Ties, which no two `u32`
keys have, go to the smaller key. -/
def StorageLe (a b : ℕ) : Prop :=
  storageKey a < storageKey b ∨ storageKey a = storageKey b ∧ a ≤ b

instance : DecidableRel StorageLe := fun a b =>
  inferInstanceAs (Decidable (storageKey a < storageKey b ∨ storageKey a = storageKey b ∧ a ≤ b))

instance : IsTrans ℕ StorageLe := ⟨fun _ _ _ => by simp only [StorageLe]; omega⟩
instance : IsTotal ℕ StorageLe := ⟨fun _ _ => by simp only [StorageLe]; omega⟩
instance : IsAntisymm ℕ StorageLe := ⟨fun _ _ => by simp only [StorageLe]; omega⟩

/-- On `u32` keys the tie-break of `StorageLe` never decides: the hashed key gives back the key,
so two distinct keys are ordered by their hashed keys alone, strictly. -/
theorem storageLe_iff_of_u32 {a b : ℕ} (ha : a < 2 ^ 32) (hb : b < 2 ^ 32) (hne : a ≠ b) :
    StorageLe a b ↔ storageKey a < storageKey b := by
  refine ⟨?_, .inl⟩
  rintro (h | ⟨h, -⟩)
  exacts [h, absurd (storageKey_inj ha hb h) hne]

/-- The keys of a finite set in storage order. -/
def storageOrder (ks : Finset ℕ) : List ℕ :=
  Quot.liftOn ks.val (fun l => l.insertionSort StorageLe) fun _ _ h =>
    List.eq_of_perm_of_sorted
      ((List.perm_insertionSort _ _).trans (h.trans (List.perm_insertionSort _ _).symm))
      (List.sorted_insertionSort _ _) (List.sorted_insertionSort _ _)

theorem mem_storageOrder {ks : Finset ℕ} {a : ℕ} : a ∈ storageOrder ks ↔ a ∈ ks := by
  rcases ks with ⟨⟨l⟩, _⟩
  exact (List.perm_insertionSort _ _).mem_iff

theorem sorted_storageOrder (ks : Finset ℕ) : (storageOrder ks).Sorted StorageLe := by
  rcases ks with ⟨⟨l⟩, _⟩
  exact List.sorted_insertionSort _ _

namespace Pallet

variable (c : Config)

def ensureSigned : Origin → Except Fault ℕ
  | .signed who => .ok who
  | _ => .error (.dispatch .badOrigin)

def ensureRoot : Origin → Except Fault Unit
  | .root => .ok ()
  | _ => .error (.dispatch .badOrigin)

/-- `ensure!(cond, Error::<T>::e)`. -/
def ensure (cond : Bool) (e : Error) : Except Fault Unit :=
  if cond then .ok () else .error (.dispatch (.module e))

/-- `Option::ok_or(e)?`. -/
def okOr {α : Type} (o : Option α) (e : DispatchError) : Except Fault α :=
  match o with
  | some a => .ok a
  | none => .error (.dispatch e)

/-- `Option::expect`. -/
def expectSome {α : Type} (o : Option α) (msg : String) : Except Fault α :=
  match o with
  | some a => .ok a
  | none => .error (.panic msg)

/-- `Result::expect`. -/
def expectOk {α : Type} (r : Except Fault α) (msg : String) : Except Fault α :=
  match r with
  | .ok a => .ok a
  | .error _ => .error (.panic msg)

def isVoterRegistered (s : State) (who : ℕ) : Bool := who ∈ s.registeredVoters

def isProposalRegistered (s : State) (proposalIndex : ℕ) : Bool :=
  proposalIndex ∈ s.proposals

def isProposalActive (s : State) (proposalIndex : ℕ) : Bool :=
  match s.proposals.lookup proposalIndex with
  | some proposal => proposal.status == .inProgress && isProposalRegistered s proposalIndex
  | none => false

def getProposal (s : State) (proposalIndex : ℕ) : Option Proposal :=
  s.proposals.lookup proposalIndex

def getProposalStatus (s : State) (proposalIndex : ℕ) : Except Fault ProposalStatus :=
  expectSome ((s.proposals.lookup proposalIndex).map (·.status))
    "Proposal already checked to be registered"

def getProposalEndBlock (s : State) (proposalIndex : ℕ) : Except Fault ℕ :=
  expectSome ((s.proposals.lookup proposalIndex).map (·.endBlock))
    "Proposal already checked to be registered"

def voterHasVoted (s : State) (proposalIndex : ℕ) (who : ℕ) : Bool :=
  (proposalIndex, who) ∈ s.ayeVotes

/-- `AyeVotes::get`, a `ValueQuery`: zero for a missing key. -/
def getAyeVotesBalance (s : State) (proposalIndex : ℕ) (who : ℕ) : ℕ :=
  (s.ayeVotes.lookup (proposalIndex, who)).getD 0

def getVoterBalance (s : State) (who : ℕ) : ℕ :=
  s.balances.totalBalance who - s.balances.reservedBalance who

def updateProposalStatusToCompleted (s : State) (proposalIndex : ℕ) :
    Except Fault State := do
  let proposal ← expectSome (getProposal s proposalIndex) "Proposal already checked to be registered"
  let proposalUpdated : Proposal :=
    { proposalIndex, text := proposal.text, proposer := proposal.proposer,
      endBlock := proposal.endBlock, status := .completed }
  pure (s.mutateProposal proposalIndex fun p => if p.isSome then some proposalUpdated else none)

def checkedSubBetweenBalances (firstBalance secondBalance : ℕ) : Except Fault ℕ :=
  if secondBalance ≤ firstBalance then .ok (firstBalance - secondBalance)
  else .error (.dispatch (.module .substractionOverflow))

def checkedAddBetweenBalances (firstBalance secondBalance : ℕ) : Except Fault ℕ :=
  if firstBalance + secondBalance < 2 ^ c.balanceBits then .ok (firstBalance + secondBalance)
  else .error (.dispatch (.module .additionOverflow))

def checkedDivBetweenBalances (firstBalance secondBalance : ℕ) : Except Fault ℕ :=
  if secondBalance = 0 then .error (.dispatch (.module .slashFailed))
  else .ok (firstBalance / secondBalance)

/-- `saturated_into::<u128>()`. -/
def balanceToU128 (balance : ℕ) : ℕ := min balance (2 ^ 128 - 1)

/-- The `u128` sum of `AyeVotes::iter_prefix(proposalIndex)`; `u128` addition wraps in the
runtime's release build. -/
def totalVotes (s : State) (proposalIndex : ℕ) : ℕ :=
  (∑ k ∈ s.ayeVotes.keys.filter (·.1 = proposalIndex),
    balanceToU128 (getAyeVotesBalance s k.1 k.2)) % 2 ^ 128

/-- `Proposals::iter()`'s keys. -/
def proposalIndexes (s : State) : List ℕ := storageOrder s.proposals.keys

/-- The scan of `get_winner`: the running `(max_votes, winner)`, replaced on a strictly greater
total. -/
def winnerStep (s : State) (acc : ℕ × ℕ) (proposalIndex : ℕ) :
    ℕ × ℕ :=
  if totalVotes s proposalIndex > acc.1 then (totalVotes s proposalIndex, proposalIndex) else acc

def getWinner (s : State) : ℕ := ((proposalIndexes s).foldl (winnerStep s) (0, 0)).2

def registerVoter (s : State) (origin : Origin) (voterId : ℕ) (fee : ℕ) :
    Except Fault (State × List Event) := do
  ensureRoot origin
  ensure (!isVoterRegistered s voterId) .voterAlreadyRegistered
  ensure (fee > 0) .insufficientFee
  let initialBalanceWithoutFee : ℕ := 100
  ensure (checkedSubBetweenBalances initialBalanceWithoutFee fee).isOk .substractionOverflow
  let initialBalance ← checkedSubBetweenBalances initialBalanceWithoutFee fee
  let s := { s with balances := s.balances.makeFreeBalanceBe voterId initialBalance }
  let s := { s with registeredVoters := s.registeredVoters.insert voterId true }
  pure (s, [.voterRegistered voterId initialBalance])

def createProposal (now : ℕ) (s : State) (origin : Origin) (text : ℕ) :
    Except Fault (State × List Event) := do
  let proposer ← ensureSigned origin
  ensure (isVoterRegistered s proposer) .notRegisteredVoter
  -- `count() + 1` on `u32`, which wraps in the runtime's release build
  let proposalIndex := (s.proposalCount + 1) % 2 ^ 32
  let endBlock := now + c.votingPeriod
  let proposal : Proposal := { proposalIndex, text, proposer, endBlock, status := .notStarted }
  pure (s.insertProposal proposalIndex proposal, [.newProposalCreated proposalIndex text endBlock])

def startProposal (s : State) (origin : Origin) (proposalIndex : ℕ) (fee : ℕ) :
    Except Fault (State × List Event) := do
  let who ← ensureSigned origin
  ensure (isVoterRegistered s who) .notRegisteredVoter
  ensure (getProposal s proposalIndex).isSome .proposalNotFound
  let balance := getVoterBalance s who
  ensure (balance ≥ fee) .notEnoughBalance
  let status ← getProposalStatus s proposalIndex
  ensure (status == .notStarted) .proposalAlreadyStarted
  ensure (fee > 0) .insufficientFee
  let proposal ← okOr (getProposal s proposalIndex) (.other "Proposal not found")
  let proposalUpdated : Proposal :=
    { proposalIndex, text := proposal.text, proposer := proposal.proposer,
      endBlock := proposal.endBlock, status := .inProgress }
  let s := s.mutateProposal proposalIndex fun _ => some proposalUpdated
  let s := { s with balances := s.balances.makeFreeBalanceBe who (balance - fee) }
  pure (s, [.proposalStarted proposalIndex])

def reserveTokens (s : State) (origin : Origin) (amount : ℕ) :
    Except Fault (State × List Event) := do
  let who ← ensureSigned origin
  ensure (isVoterRegistered s who) .notRegisteredVoter
  ensure (amount > 0) .invalidTokensAmountToReserve
  let voterBalance := getVoterBalance s who
  ensure (voterBalance ≥ amount) .notEnoughBalance
  let balances ← (s.balances.reserve who amount).mapError .dispatch
  pure ({ s with balances }, [.tokensReserved who amount])

def voteProposal (now : ℕ) (s : State) (origin : Origin)
    (proposalIndex : ℕ) (vote : Vote) : Except Fault (State × List Event) := do
  let who ← ensureSigned origin
  ensure (isVoterRegistered s who) .notRegisteredVoter
  ensure (isProposalRegistered s proposalIndex) .proposalNotFound
  ensure (isProposalActive s proposalIndex) .proposalNotActive
  let currentBlock := now
  let proposalEndBlock ← getProposalEndBlock s proposalIndex
  if proposalEndBlock ≤ currentBlock then
    let s ← updateProposalStatusToCompleted s proposalIndex
    let winner := getWinner s
    pure (s, [.votingEnded winner])
  else
    let reservedTokens := s.balances.reservedBalance who
    ensure (reservedTokens > 0) .notEnoughReservedTokens
    match vote with
    | .aye =>
      ensure (!voterHasVoted s proposalIndex who) .voterAlreadyVoted
      let ayeVotes := getAyeVotesBalance s proposalIndex who
      -- `+` on `BalanceOf<T>`, which wraps in the runtime's release build
      let newAyeVotes := (ayeVotes + integerSqrt reservedTokens) % 2 ^ c.balanceBits
      let s := s.setAyeVotes proposalIndex who newAyeVotes
      let voterBalance := getVoterBalance s who
      let s := { s with balances := s.balances.makeFreeBalanceBe who voterBalance }
      pure (s, [.proposalVoted proposalIndex vote])
    | _ => pure (s, [])

def unreserveTokens (s : State) (origin : Origin) (amount : ℕ) :
    Except Fault (State × List Event) := do
  let who ← ensureSigned origin
  ensure (isVoterRegistered s who) .notRegisteredVoter
  ensure (amount > 0) .invalidTokensAmountToUnreserve
  let reservedTokens := s.balances.reservedBalance who
  ensure (reservedTokens ≥ amount) .notEnoughReservedTokens
  let s := { s with balances := (s.balances.unreserve who amount).1 }
  ensure (checkedDivBetweenBalances amount 2).isOk .slashFailed
  let penalty ← expectOk (checkedDivBetweenBalances amount 2) "Slash already checked; QEP"
  let s := { s with balances := (s.balances.slash who penalty).1 }
  let updatedBalance := getVoterBalance s who
  pure (s, [.tokensUnreserved who amount updatedBalance])

/-- One pass of `vote_multiple_proposals`' loop; `proposals` is the whole batch. -/
def voteItem (who : ℕ) (proposals : List (ℕ × ℕ × Vote))
    (acc : State × List Event) : ℕ × ℕ × Vote → Except Fault (State × List Event)
  | (proposalIndex, tokensToUse, .aye) => do
    let s := acc.1
    let ayeVotes := getAyeVotesBalance s proposalIndex who
    ensure (checkedAddBetweenBalances c ayeVotes (integerSqrt tokensToUse)).isOk .additionOverflow
    let newAyeVotes ← expectOk (checkedAddBetweenBalances c ayeVotes (integerSqrt tokensToUse))
      "Addition already checked; QEP"
    let s := s.setAyeVotes proposalIndex who newAyeVotes
    let voterBalance := getVoterBalance s who
    let s := { s with balances := s.balances.makeFreeBalanceBe who voterBalance }
    pure (s, acc.2 ++ [.proposalsVoted (proposals.map (·.1))])
  | _ => pure acc

def voteMultipleProposals (now : ℕ) (s : State) (origin : Origin)
    (proposals : List (ℕ × ℕ × Vote)) : Except Fault (State × List Event) := do
  let who ← ensureSigned origin
  ensure (isVoterRegistered s who) .notRegisteredVoter
  let areProposalsRegisteredAndActive := proposals.all fun proposal =>
    isProposalRegistered s proposal.1 && isProposalActive s proposal.1
  ensure areProposalsRegisteredAndActive .atLeastOneProposalNotRegisteredOrNotActive
  let reservedTokens := s.balances.reservedBalance who
  -- `+` on `BalanceOf<T>`, which wraps in the runtime's release build
  let totalTokensToUse :=
    proposals.foldl (fun acc proposal => (acc + proposal.2.1) % 2 ^ c.balanceBits) 0
  ensure (reservedTokens ≥ totalTokensToUse) .notEnoughReservedTokens
  let hasVotedForAnyProposal := proposals.any fun proposal => voterHasVoted s proposal.1 who
  ensure (!hasVotedForAnyProposal) .voterAlreadyVoted
  let currentBlock := now
  let proposalsAreStillActive ← proposals.allM fun proposal => do
    let proposalEndBlock ← getProposalEndBlock s proposal.1
    pure (decide (currentBlock < proposalEndBlock))
  if !proposalsAreStillActive then
    let winner := getWinner s
    let s ← updateProposalStatusToCompleted s winner
    pure (s, [.votingEnded winner])
  else
    proposals.foldlM (voteItem c who proposals) (s, [])

/-- A call of the pallet, at block `now`. -/
def dispatch (now : ℕ) (s : State) (origin : Origin) :
    Call → Except Fault (State × List Event)
  | .registerVoter voterId fee => registerVoter s origin voterId fee
  | .createProposal text => createProposal c now s origin text
  | .startProposal proposalIndex fee => startProposal s origin proposalIndex fee
  | .reserveTokens amount => reserveTokens s origin amount
  | .voteProposal proposalIndex vote => voteProposal c now s origin proposalIndex vote
  | .unreserveTokens amount => unreserveTokens s origin amount
  | .voteMultipleProposals proposals => voteMultipleProposals c now s origin proposals

/-- The states the chain reaches from genesis by successful calls, each at some block. -/
inductive Reachable : State → Prop
  | genesis (balances : Ledger) : Reachable (State.genesis balances)
  | step {s s' : State} {events : List Event} (now : ℕ) (origin : Origin)
      (call : Call) : Reachable s → dispatch c now s origin call = .ok (s', events) → Reachable s'

/-- Calls one after another, stopping at the first that fails. -/
def run (s : State) : List (ℕ × Origin × Call) → Except Fault State
  | [] => .ok s
  | (now, origin, call) :: calls => do
    let r ← dispatch c now s origin call
    run r.1 calls

theorem run_cons {now : ℕ} {origin : Origin} {call : Call} {s s' t : State} {es : List Event}
    {calls : List (ℕ × Origin × Call)} (hd : dispatch c now s origin call = .ok (s', es))
    (h : run c s' calls = .ok t) : run c s ((now, origin, call) :: calls) = .ok t := by
  simp only [run, bind, Except.bind, hd, h]

/-- The storage after one extrinsic: a call that fails, with an error or a panic, writes
nothing. -/
def applyExtrinsic (now : ℕ) (s : State) (origin : Origin) (call : Call) : State :=
  match dispatch c now s origin call with
  | .ok (s', _) => s'
  | .error _ => s

theorem Reachable.run {s s' : State} {calls : List (ℕ × Origin × Call)}
    (hs : Reachable c s) (h : run c s calls = .ok s') : Reachable c s' := by
  induction calls generalizing s with
  | nil => cases h; exact hs
  | cons call calls ih =>
    obtain ⟨now, origin, call⟩ := call
    simp only [Pallet.run, bind, Except.bind] at h
    split at h
    · cases h
    · exact ih (Reachable.step now origin call hs ‹_›) h

/-- Running `calls` from `s` succeeds, and `P` holds of the state it leaves. -/
def RunsTo (s : State) (calls : List (ℕ × Origin × Call)) (P : State → Prop) : Prop :=
  ∃ s', run c s calls = .ok s' ∧ P s'

instance RunsTo.decidable {s : State} {calls : List (ℕ × Origin × Call)} {P : State → Prop}
    [DecidablePred P] : Decidable (RunsTo c s calls P) :=
  match h : run c s calls with
  | .ok s' => decidable_of_iff (P s') (by simp [RunsTo, h])
  | .error _ => isFalse (by simp [RunsTo, h])

/-- Whether one call succeeds, and `Q` holds of the state it leaves. -/
instance decidableExistsOk {ε α β : Type} {x : Except ε (α × β)} {Q : α → Prop}
    [DecidablePred Q] : Decidable (∃ a b, x = .ok (a, b) ∧ Q a) :=
  match x with
  | .ok (a, _) => decidable_of_iff (Q a) (by simp)
  | .error _ => isFalse (by simp)

/-- Whether a call fails with the error `e`. -/
instance decidableEqError {ε α : Type} [DecidableEq ε] {x : Except ε α} {e : ε} :
    Decidable (x = .error e) :=
  match x with
  | .ok _ => isFalse (by simp)
  | .error e' => decidable_of_iff (e' = e) (by simp)

theorem RunsTo.reachable {s : State} {calls : List (ℕ × Origin × Call)} {P : State → Prop}
    (hs : Reachable c s) (h : RunsTo c s calls P) : ∃ s', Reachable c s' ∧ P s' :=
  let ⟨s', hrun, hp⟩ := h
  ⟨s', hs.run c hrun, hp⟩

/-- `s` holds the tables of `t` and, for each `(a, free, reserved)` of `accounts`, these balances
of `a`. A fixed run's end state is stated so once, and its uses read it from there: two ledgers
cannot be compared whole. -/
structure Matches (s t : State) (accounts : List (ℕ × ℕ × ℕ)) : Prop where
  registeredVoters : s.registeredVoters = t.registeredVoters
  proposals : s.proposals = t.proposals
  proposalCount : s.proposalCount = t.proposalCount
  ayeVotes : s.ayeVotes = t.ayeVotes
  accounts : ∀ a ∈ accounts, s.balances.free a.1 = a.2.1 ∧ s.balances.reserved a.1 = a.2.2

instance {s t : State} {accounts : List (ℕ × ℕ × ℕ)} : Decidable (Matches s t accounts) :=
  decidable_of_iff (s.registeredVoters = t.registeredVoters ∧ s.proposals = t.proposals ∧
      s.proposalCount = t.proposalCount ∧ s.ayeVotes = t.ayeVotes ∧
      ∀ a ∈ accounts, s.balances.free a.1 = a.2.1 ∧ s.balances.reserved a.1 = a.2.2)
    ⟨fun ⟨h₁, h₂, h₃, h₄, h₅⟩ => ⟨h₁, h₂, h₃, h₄, h₅⟩, fun ⟨h₁, h₂, h₃, h₄, h₅⟩ => ⟨h₁, h₂, h₃, h₄, h₅⟩⟩

end Pallet

end QuadraticVoting
