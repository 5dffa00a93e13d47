import QuadraticVoting.Blake2
import QuadraticVoting.Types
import QuadraticVoting.Ledger
import QuadraticVoting.Pallet
import QuadraticVoting.CallSpecs
import QuadraticVoting.Winner
import QuadraticVoting.Lifecycle
import QuadraticVoting.Tally
import QuadraticVoting.Balances
import QuadraticVoting.Footprint
import QuadraticVoting.Faults
import QuadraticVoting.Errors
import QuadraticVoting.Registry
import QuadraticVoting.Commutation
import QuadraticVoting.Chain
import QuadraticVoting.Accounts
import QuadraticVoting.Batching
import QuadraticVoting.Events
import QuadraticVoting.Replay
import QuadraticVoting.Budget
