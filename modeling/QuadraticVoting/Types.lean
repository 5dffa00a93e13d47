import Mathlib.Data.Nat.Sqrt
import Mathlib.Tactic.Ring
import Mathlib.Tactic.SplitIfs

/-! The pallet's types (`pallets/voting/src/lib.rs`). Account ids, hashes (`T::Hash`, only
stored and emitted), balances, block numbers and proposal indexes (`u32`) are natural numbers;
the runtime's parameters are in `Config`. -/
namespace QuadraticVoting

/-- The runtime's parameters of the pallet. -/
structure Config where
  /-- `T::VotingPeriod::get()`. -/
  votingPeriod : ℕ
  /-- The width of `BalanceOf<T>`, whose values are below `2 ^ balanceBits`. -/
  balanceBits : ℕ

/-- A runtime with a ten-block voting period and `u128` balances, as the node template's. -/
def templateConfig : Config := ⟨10, 128⟩

/-- `u32::MAX`. -/
def u32Max : ℕ := 2 ^ 32 - 1

inductive Vote
  | aye
  | nay
  | abstain
  deriving DecidableEq, Repr

inductive ProposalStatus
  | notStarted
  | inProgress
  | completed
  deriving DecidableEq, Repr

structure Proposal where
  proposalIndex : ℕ
  text : ℕ
  proposer : ℕ
  endBlock : ℕ
  status : ProposalStatus
  deriving DecidableEq, Repr

/-- The pallet's `Error<T>`, without `StorageOverflow` and `NotReservedTokens`, which no call
returns. -/
inductive Error
  | notRegisteredVoter
  | proposalNotFound
  | proposalNotActive
  | proposalAlreadyStarted
  | notEnoughBalance
  | voterAlreadyVoted
  | notEnoughReservedTokens
  | insufficientFee
  | voterAlreadyRegistered
  | invalidTokensAmountToReserve
  | atLeastOneProposalNotRegisteredOrNotActive
  | invalidTokensAmountToUnreserve
  | substractionOverflow
  | slashFailed
  | additionOverflow
  deriving DecidableEq, Repr

inductive DispatchError
  | badOrigin
  /-- An error of this pallet. -/
  | module (e : Error)
  /-- The balances pallet's `InsufficientBalance`. -/
  | insufficientBalance
  /-- A string error, as `ok_or("Proposal not found")?`. -/
  | other (msg : String)
  deriving DecidableEq, Repr

/-- How a call can fail. A `DispatchError` rolls back every write of the call; a panic
(`expect` on `None` or `Err`) aborts the extrinsic. -/
inductive Fault
  | dispatch (e : DispatchError)
  | panic (msg : String)
  deriving DecidableEq, Repr

inductive Origin
  | root
  | signed (who : ℕ)
  | none
  deriving DecidableEq, Repr

inductive Event
  | voterRegistered (voterId : ℕ) (initialBalance : ℕ)
  | newProposalCreated (proposalIndex : ℕ) (text : ℕ) (endBlock : ℕ)
  | tokensReserved (who : ℕ) (amount : ℕ)
  | proposalStarted (proposalIndex : ℕ)
  | proposalVoted (proposalIndex : ℕ) (vote : Vote)
  | proposalsVoted (proposals : List ℕ)
  | tokensUnreserved (who : ℕ) (amount : ℕ) (updatedBalance : ℕ)
  | votingEnded (winner : ℕ)
  deriving DecidableEq, Repr

/-- The pallet's dispatchables with their arguments (the origin is passed apart). -/
inductive Call
  | registerVoter (voterId : ℕ) (fee : ℕ)
  | createProposal (text : ℕ)
  | startProposal (proposalIndex : ℕ) (fee : ℕ)
  | reserveTokens (amount : ℕ)
  | voteProposal (proposalIndex : ℕ) (vote : Vote)
  | unreserveTokens (amount : ℕ)
  | voteMultipleProposals (proposals : List (ℕ × ℕ × Vote))
  deriving DecidableEq, Repr

/-- Floor square root by halving `n` twice per step; `fuel` bounds the depth. -/
def sqrtAux : (fuel : ℕ) → ℕ → ℕ
  | 0, _ => 0
  | fuel + 1, n =>
    if n = 0 then 0 else
    let r := 2 * sqrtAux fuel (n / 4)
    if (r + 1) * (r + 1) ≤ n then r + 1 else r

/-- `IntegerSquareRoot::integer_sqrt`: the floor of the square root. -/
def integerSqrt (n : ℕ) : ℕ := sqrtAux n n

/-- One step of `sqrtAux`: the root of `n` is twice or twice plus one the root of `n / 4`. -/
theorem sqrt_step (n : ℕ) :
    Nat.sqrt n = if (2 * Nat.sqrt (n / 4) + 1) * (2 * Nat.sqrt (n / 4) + 1) ≤ n
      then 2 * Nat.sqrt (n / 4) + 1 else 2 * Nat.sqrt (n / 4) := by
  set r := Nat.sqrt (n / 4)
  have hlo : r * r ≤ n / 4 := Nat.sqrt_le (n / 4)
  have hhi : n / 4 < (r + 1) * (r + 1) := Nat.lt_succ_sqrt (n / 4)
  have hsq : (2 * r + 1 + 1) * (2 * r + 1 + 1) = 4 * ((r + 1) * (r + 1)) := by ring
  split_ifs with h
  · exact (Nat.eq_sqrt.mpr ⟨h, by omega⟩).symm
  · exact (Nat.eq_sqrt.mpr ⟨by rw [show 2 * r * (2 * r) = 4 * (r * r) by ring]; omega,
      by omega⟩).symm

theorem sqrtAux_eq {fuel n : ℕ} (h : n < 4 ^ fuel) : sqrtAux fuel n = Nat.sqrt n := by
  induction fuel generalizing n with
  | zero => simp_all [sqrtAux]
  | succ fuel ih =>
    rw [sqrtAux, ih (by rw [pow_succ] at h; omega), ← sqrt_step]
    split_ifs with hn <;> simp [hn]

@[simp]
theorem integerSqrt_eq_sqrt (n : ℕ) : integerSqrt n = Nat.sqrt n :=
  sqrtAux_eq (Nat.lt_of_lt_of_le (Nat.lt_two_pow n) (Nat.pow_le_pow_left (by omega) n))

example : integerSqrt 50 = 7 := by decide

end QuadraticVoting
