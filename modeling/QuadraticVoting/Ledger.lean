import QuadraticVoting.Types
import Mathlib.Logic.Function.Basic

/-! The balances pallet behind `T::Currency`, as the voting pallet uses it: every account has
a free and a reserved balance, `total_balance` is their sum, and `slash` takes from the free
balance first. Existential deposits and locks play no part in the pallet's calls. -/
namespace QuadraticVoting

structure Ledger where
  free : ℕ → ℕ
  reserved : ℕ → ℕ

namespace Ledger

def totalBalance (l : Ledger) (who : ℕ) : ℕ := l.free who + l.reserved who

def reservedBalance (l : Ledger) (who : ℕ) : ℕ := l.reserved who

/-- `make_free_balance_be`: overwrite the free balance. -/
def makeFreeBalanceBe (l : Ledger) (who balance : ℕ) : Ledger :=
  { l with free := Function.update l.free who balance }

/-- `reserve`: move `value` from free to reserved, refused when the free balance is short. -/
def reserve (l : Ledger) (who value : ℕ) : Except DispatchError Ledger :=
  if value ≤ l.free who then
    .ok ⟨Function.update l.free who (l.free who - value),
      Function.update l.reserved who (l.reserved who + value)⟩
  else .error .insufficientBalance

/-- `unreserve`: move back as much of `value` as is reserved; returns the ledger and the part of
`value` that could not be unreserved. -/
def unreserve (l : Ledger) (who value : ℕ) : Ledger × ℕ :=
  let actual := min value (l.reserved who)
  (⟨Function.update l.free who (l.free who + actual),
    Function.update l.reserved who (l.reserved who - actual)⟩, value - actual)

/-- `slash`: destroy up to `value`, from the free balance first and then from the reserved one;
returns the ledger and the part of `value` that could not be slashed. -/
def slash (l : Ledger) (who value : ℕ) : Ledger × ℕ :=
  let freeSlash := min (l.free who) value
  let reservedSlash := min (l.reserved who) (value - freeSlash)
  (⟨Function.update l.free who (l.free who - freeSlash),
    Function.update l.reserved who (l.reserved who - reservedSlash)⟩,
    value - freeSlash - reservedSlash)

variable (l : Ledger) (who a v : ℕ)

@[simp] theorem makeFreeBalanceBe_free : (l.makeFreeBalanceBe who v).free a =
    if a = who then v else l.free a := Function.update_apply _ _ _ _

@[simp] theorem makeFreeBalanceBe_reserved : (l.makeFreeBalanceBe who v).reserved = l.reserved :=
  rfl

/-- Rewriting the free balance it already has changes nothing. -/
@[simp] theorem makeFreeBalanceBe_self : l.makeFreeBalanceBe who (l.free who) = l := by
  simp [makeFreeBalanceBe]

theorem reserve_eq_ok {l' : Ledger} :
    l.reserve who v = .ok l' ↔ v ≤ l.free who ∧ l' = ⟨Function.update l.free who (l.free who - v),
      Function.update l.reserved who (l.reserved who + v)⟩ := by
  unfold reserve
  split_ifs with hv <;> simp [hv, eq_comm]

@[simp] theorem unreserve_free : (l.unreserve who v).1.free a =
    if a = who then l.free who + min v (l.reserved who) else l.free a :=
  Function.update_apply _ _ _ _

@[simp] theorem unreserve_reserved : (l.unreserve who v).1.reserved a =
    if a = who then l.reserved who - min v (l.reserved who) else l.reserved a :=
  Function.update_apply _ _ _ _

@[simp] theorem slash_free : (l.slash who v).1.free a =
    if a = who then l.free who - min (l.free who) v else l.free a :=
  Function.update_apply _ _ _ _

@[simp] theorem slash_reserved : (l.slash who v).1.reserved a =
    if a = who then l.reserved who - min (l.reserved who) (v - min (l.free who) v)
    else l.reserved a :=
  Function.update_apply _ _ _ _

end Ledger

end QuadraticVoting
