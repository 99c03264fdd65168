import Mathlib.Data.List.AList
import DevInsiderCoin.Block

/-! The stake ledger (`pos.go`): per-address stakes, and the proportional split of the
proof-of-stake reward among stakers at or above a threshold.

Go's `map[string]*Stake` is an association list; Go iterates a map in no fixed order,
and the model iterates it in entry order.
-/

set_option autoImplicit false

namespace DevInsiderCoin

structure Stake where
  address : String
  amount : ℚ
  blockHeight : UInt64
  deriving DecidableEq

/-- Amounts below `0.00000001`, the dust threshold of the ledger and of rewards. -/
def dust : ℚ := 1 / 10 ^ 8

inductive StakeError where
  | noStake (address : String)
  | insufficientStake (held wanted : ℚ)
  deriving DecidableEq

def StakeError.message : StakeError → String
  | .noStake address => "no stake found for " ++ address
  | .insufficientStake held wanted =>
    "insufficient stake: have " ++ formatFixed 8 held ++ ", want " ++ formatFixed 8 wanted

structure StakeManager where
  stakes : AList (fun _ : String => Stake)

namespace StakeManager

def empty : StakeManager := ⟨∅⟩

/-- `AddStake`: increase an existing stake, or record a new one at `height`. -/
def addStake (sm : StakeManager) (address : String) (amount : ℚ) (height : UInt64) : StakeManager :=
  match sm.stakes.lookup address with
  | some s => ⟨sm.stakes.insert address { s with amount := s.amount + amount }⟩
  | none => ⟨sm.stakes.insert address ⟨address, amount, height⟩⟩

/-- `RemoveStake`: fails without a stake or with too little; drops a stake left below dust. -/
def removeStake (sm : StakeManager) (address : String) (amount : ℚ) :
    Except StakeError StakeManager :=
  match sm.stakes.lookup address with
  | none => .error (.noStake address)
  | some s =>
    if s.amount < amount then .error (.insufficientStake s.amount amount)
    else if s.amount - amount < dust then .ok ⟨sm.stakes.erase address⟩
    else .ok ⟨sm.stakes.insert address { s with amount := s.amount - amount }⟩

def getTotalStaked (sm : StakeManager) : ℚ :=
  sm.stakes.entries.foldl (fun total e => total + e.2.amount) 0

/-- `GetStake`: the staked amount, zero without a stake. -/
def getStake (sm : StakeManager) (address : String) : ℚ :=
  match sm.stakes.lookup address with
  | some s => s.amount
  | none => 0

/-- `CalcPOSRewards`: each staker at or above `minThreshold` gets its share of
`totalReward` in proportion to the eligible total, when that share exceeds dust. -/
def calcPOSRewards (sm : StakeManager) (totalReward minThreshold : ℚ) : List TxOutput :=
  let eligibleStaked := sm.stakes.entries.foldl
    (fun total e => if e.2.amount ≥ minThreshold then total + e.2.amount else total) 0
  if eligibleStaked = 0 then [] else
  sm.stakes.entries.filterMap fun e =>
    if e.2.amount < minThreshold then none else
    let reward := totalReward * (e.2.amount / eligibleStaked)
    if reward > dust then some ⟨e.1, reward⟩ else none

end StakeManager

end DevInsiderCoin
