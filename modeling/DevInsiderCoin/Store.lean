import Mathlib.Algebra.Order.Ring.Rat
import Mathlib.Data.Nat.Cast.Order.Ring
import DevInsiderCoin.Basic
import DevInsiderCoin.Stake

/-! The BoltDB store (`store.go`): six buckets and one atomic write, `CommitBlock`.

A bucket is an association list from key to decoded value: blocks and stakes read back
as written, amounts as `bytesToFloat (floatToBytes v)`. Block heights are keyed by their
8-byte big-endian encoding, as BoltDB orders keys by their bytes. A commit either applies
all of its puts or none: BoltDB rolls a failed `Update` back.
-/

set_option autoImplicit false

namespace DevInsiderCoin

/-! ## Amounts on disk

Amounts are exact rationals; one beyond the largest finite `float64` stands for the
infinity `float64` arithmetic reaches there. `json.Marshal` refuses infinities, and the
node drops its error. -/

/-- The largest finite `float64`, `(2 - 2 ^ -52) * 2 ^ 1023`. -/
def maxFloat64 : ℚ := ((2 ^ 53 - 1) * 2 ^ 971 : Nat)

/-- A finite `float64`, which `json.Marshal` encodes. -/
def Finite64 (v : ℚ) : Prop := -maxFloat64 ≤ v ∧ v ≤ maxFloat64

instance (v : ℚ) : Decidable (Finite64 v) := inferInstanceAs (Decidable (_ ∧ _))

/-- `floatToBytes`: the JSON text, kept as the number it denotes, or nil (`none`). -/
def floatToBytes (v : ℚ) : Option ℚ := if Finite64 v then some v else none

/-- `bytesToFloat`: nil does not decode and leaves the result 0. -/
def bytesToFloat (b : Option ℚ) : ℚ := b.getD 0

/-- `json.Marshal` of a stake, kept as the stake its text decodes to, or nil (`none`). -/
def stakeJSON (s : Stake) : Option Stake := if Finite64 s.amount then some s else none

theorem bytesToFloat_floatToBytes {v : ℚ} (h : Finite64 v) : bytesToFloat (floatToBytes v) = v := by
  rw [floatToBytes, if_pos h]
  rfl

theorem bytesToFloat_floatToBytes_of_not {v : ℚ} (h : ¬ Finite64 v) : bytesToFloat (floatToBytes v) = 0 := by
  rw [floatToBytes, if_neg h]
  rfl

theorem stakeJSON_of_finite {s : Stake} (h : Finite64 s.amount) : stakeJSON s = some s := if_pos h

@[simp] theorem finite64_zero : Finite64 0 := ⟨neg_nonpos.2 (Nat.cast_nonneg _), Nat.cast_nonneg _⟩

abbrev Bucket (K V : Type) := AList (fun _ : K => V)

structure Store where
  blocks : Bucket (List UInt8) Block
  blockHashes : Bucket String (List UInt8)
  balances : Bucket String ℚ
  stakes : Bucket String Stake
  txIndex : Bucket String (List UInt8)
  /-- The `best_height` entry of the `meta` bucket. -/
  bestHeight : Option (List UInt8)
  /-- The `total_minted` entry of the `meta` bucket. -/
  totalMinted : Option ℚ

namespace Store

def empty : Store := ⟨∅, ∅, ∅, ∅, ∅, none, none⟩

def heightKey (h : UInt64) : List UInt8 := putBE 8 h.toNat

/-- `keyToHeight` (`binary.BigEndian.Uint64`, which reads the first eight bytes). -/
def keyToHeight (b : List UInt8) : UInt64 := UInt64.ofNat (bytesToNat (b.take 8))

/-- `GetBestHeight`: the stored height as an `int64`, or -1 without one. -/
def getBestHeight (s : Store) : Int :=
  match s.bestHeight with
  | none => -1
  | some v => int64OfUInt64 (keyToHeight v)

def getBlockCount (s : Store) : UInt64 :=
  let h := s.getBestHeight
  if h < 0 then 0 else UInt64.ofNat h.toNat + 1

def hasData (s : Store) : Bool := 0 ≤ s.getBestHeight

def getBlockByHeight (s : Store) (height : UInt64) : Option Block := s.blocks.lookup (heightKey height)

def getBlockByHash (s : Store) (hash : String) : Option Block :=
  (s.blockHashes.lookup hash).bind fun hk => s.blocks.lookup hk

/-- BoltDB's order of keys: bytewise lexicographic. -/
def keyLt : List UInt8 → List UInt8 → Bool
  | [], [] => false
  | [], _ :: _ => true
  | _ :: _, [] => false
  | a :: as, b :: bs => a.toNat < b.toNat || (a.toNat = b.toNat && keyLt as bs)

/-- `GetBlocksFrom`: a cursor from `heightKey startHeight` to the end of the bucket, in
BoltDB's byte order of keys. -/
def getBlocksFrom (s : Store) (startHeight : UInt64) : List Block :=
  ((s.blocks.entries.filter fun e => !keyLt e.1 (heightKey startHeight)).mergeSort
    fun a b => !keyLt b.1 a.1).map (·.2)

/-- `GetRecentBlocks`: the stored blocks among the last `count` heights up to the best. -/
def getRecentBlocks (s : Store) (count : UInt64) : List Block :=
  let best := s.getBestHeight
  if best < 0 then [] else
  let start : Nat := if count.toNat ≤ best.toNat then best.toNat - count.toNat + 1 else 0
  (List.range (best.toNat + 1 - start)).filterMap fun i =>
    s.blocks.lookup (heightKey (UInt64.ofNat (start + i)))

def getBalance (s : Store) (address : String) : ℚ := (s.balances.lookup address).getD 0

def getTxBlockHeight (s : Store) (txid : String) : Option UInt64 :=
  (s.txIndex.lookup txid).map keyToHeight

def getTotalMinted (s : Store) : ℚ := s.totalMinted.getD 0

end Store

/-- `BlockCommit`: the block, the new balances of changed addresses, the changed stakes
(`none` deletes), the transaction ids and the new total. -/
structure BlockCommit where
  height : UInt64
  hash : String
  block : Block
  balances : Bucket String ℚ
  stakes : Bucket String (Option Stake)
  txIDs : List String
  totalMinted : ℚ

/-- Why BoltDB refused or lost a write transaction. -/
inductive StoreError where
  | keyRequired
  | keyTooLarge
  | io
  deriving DecidableEq

def StoreError.message : StoreError → String
  | .keyRequired => "key required"
  | .keyTooLarge => "key too large"
  | .io => "input/output error"

/-- What the disk does with a write transaction: it commits it, or the transaction fails
(an I/O error, or a value over BoltDB's 2 GiB limit). -/
inductive Disk where
  | ok
  | fault
  deriving DecidableEq

def maxKeySize : Nat := 32768

/-- The key checks of `Bucket.Put`. -/
def checkKey (key : String) : Except StoreError Unit :=
  if key.utf8ByteSize = 0 then .error .keyRequired
  else if maxKeySize < key.utf8ByteSize then .error .keyTooLarge
  else .ok ()

namespace Store

/-- The writes of `CommitBlock`, applied to every bucket. -/
def applyCommit (s : Store) (c : BlockCommit) : Store :=
  { blocks := s.blocks.insert (heightKey c.height) c.block
    blockHashes := s.blockHashes.insert c.hash (heightKey c.height)
    balances := c.balances.entries.foldl (fun b e => b.insert e.1 (bytesToFloat (floatToBytes e.2))) s.balances
    stakes := c.stakes.entries.foldl
      (fun b e => match e.2 with | none => b.erase e.1 | some st => b.insert e.1 st) s.stakes
    txIndex := c.txIDs.foldl (fun b txid => b.insert txid (heightKey c.height)) s.txIndex
    bestHeight := some (heightKey c.height)
    totalMinted := some (bytesToFloat (floatToBytes c.totalMinted)) }

/-- `CommitBlock`: the puts in the order Go issues them, each able to fail; any failure,
or a fault of the disk, aborts the whole transaction. -/
def commitBlock (disk : Disk) (s : Store) (c : BlockCommit) : Except StoreError Store := do
  checkKey c.hash
  c.balances.entries.forM fun e => checkKey e.1
  c.stakes.entries.forM fun e => if e.2.isSome then checkKey e.1 else pure ()
  c.txIDs.forM checkKey
  if disk = .fault then throw .io
  pure (s.applyCommit c)

/-! ## What a commit writes -/

@[simp] theorem keyToHeight_heightKey (h : UInt64) : keyToHeight (heightKey h) = h := by
  have hlt : h.toNat < 2 ^ 64 := h.toNat_lt_size
  apply UInt64.toNat.inj
  rw [keyToHeight, heightKey, List.take_of_length_le (by simp), bytesToNat_putBE, UInt64.toNat_ofNat']
  omega

theorem heightKey_inj {a b : UInt64} : heightKey a = heightKey b ↔ a = b :=
  ⟨fun h => by rw [← keyToHeight_heightKey a, h, keyToHeight_heightKey], congrArg _⟩

@[simp] theorem applyCommit_blocks (s : Store) (c : BlockCommit) :
    (s.applyCommit c).blocks = s.blocks.insert (heightKey c.height) c.block := rfl

@[simp] theorem applyCommit_bestHeight (s : Store) (c : BlockCommit) :
    (s.applyCommit c).bestHeight = some (heightKey c.height) := rfl

@[simp] theorem applyCommit_totalMinted (s : Store) (c : BlockCommit) :
    (s.applyCommit c).totalMinted = some (bytesToFloat (floatToBytes c.totalMinted)) := rfl

theorem getTotalMinted_applyCommit (s : Store) (c : BlockCommit) :
    (s.applyCommit c).getTotalMinted = bytesToFloat (floatToBytes c.totalMinted) := rfl

theorem forM_eq_ok {α : Type} (l : List α) (f : α → Except StoreError Unit) :
    l.forM f = .ok () ↔ ∀ x ∈ l, f x = .ok () := by
  induction l with
  | nil => simp only [List.forM, List.not_mem_nil, false_implies, implies_true, iff_true]; rfl
  | cons x xs ih =>
    rw [List.forM, List.forall_mem_cons, ← ih]
    cases f x <;> simp [bind, Except.bind]

theorem checkKey_hexDigest (data : List UInt8) : checkKey (encodeToString (sha256d data)) = .ok () := by
  simp [checkKey, maxKeySize]

theorem checkKey_computeHash (h : BlockHeader) : checkKey h.computeHash = .ok () := checkKey_hexDigest _

theorem checkKey_computeTxID (tx : Transaction) : checkKey tx.computeTxID = .ok () := checkKey_hexDigest _

structure KeysValid (c : BlockCommit) : Prop where
  hash : checkKey c.hash = .ok ()
  balances : ∀ e ∈ c.balances.entries, checkKey e.1 = .ok ()
  stakes : ∀ e ∈ c.stakes.entries, e.2.isSome → checkKey e.1 = .ok ()
  txIDs : ∀ t ∈ c.txIDs, checkKey t = .ok ()

theorem commitBlock_of_keysValid (s : Store) {c : BlockCommit} (hk : KeysValid c) :
    s.commitBlock .ok c = .ok (s.applyCommit c) := by
  have hb := (forM_eq_ok _ _).2 hk.balances
  have hs := (forM_eq_ok c.stakes.entries fun e => if e.2.isSome then checkKey e.1 else .ok ()).2
    fun e he => by split <;> [exact hk.stakes e he ‹_›; rfl]
  have ht := (forM_eq_ok _ _).2 hk.txIDs
  simp only [commitBlock, hk.hash, hb, hs, ht, bind, Except.bind, pure, Except.pure]
  rfl

theorem commitBlock_fault_of_keysValid (s : Store) {c : BlockCommit} (hk : KeysValid c) :
    s.commitBlock .fault c = .error .io := by
  have hb := (forM_eq_ok _ _).2 hk.balances
  have hs := (forM_eq_ok c.stakes.entries fun e => if e.2.isSome then checkKey e.1 else .ok ()).2
    fun e he => by split <;> [exact hk.stakes e he ‹_›; rfl]
  have ht := (forM_eq_ok _ _).2 hk.txIDs
  simp only [commitBlock, hk.hash, hb, hs, ht, bind, Except.bind, pure, Except.pure]
  rfl

theorem getBlockByHeight_applyCommit (s : Store) (c : BlockCommit) (h : UInt64) :
    (s.applyCommit c).getBlockByHeight h = if h = c.height then some c.block else s.getBlockByHeight h := by
  unfold getBlockByHeight
  split
  · subst h; exact AList.lookup_insert _
  · exact AList.lookup_insert_ne (mt heightKey_inj.1 ‹_›)

/-- The next expected height after the best height `b`: `b + 1`, or 0 once Go's `int64`
reading of `b` is negative. -/
theorem getBlockCount_of {s : Store} {b : UInt64} (h : s.bestHeight = some (heightKey b)) :
    s.getBlockCount = if b.toNat < 2 ^ 63 then b + 1 else 0 := by
  have hb := int64OfUInt64_nonneg_iff b
  have heq := int64OfUInt64_eq b
  simp only [getBlockCount, getBestHeight, h, keyToHeight_heightKey]
  by_cases hlt : b.toNat < 2 ^ 63
  · rw [if_neg (by omega), if_pos hlt]
    congr 1
    apply UInt64.toNat.inj
    rw [UInt64.toNat_ofNat', heq, if_pos hlt]
    have : b.toNat < 2 ^ 64 := b.toNat_lt_size
    omega
  · rw [if_pos (by omega), if_neg hlt]

theorem toNat_getBlockCount_of {s : Store} {b : UInt64} (h : s.bestHeight = some (heightKey b))
    (hlt : b.toNat < 2 ^ 63) : s.getBlockCount.toNat = b.toNat + 1 := by
  rw [getBlockCount_of h, if_pos hlt, UInt64.toNat_add']
  change (b.toNat + 1) % 2 ^ 64 = _
  omega

theorem keysValid_of_commitBlock_ok {disk : Disk} {s s' : Store} {c : BlockCommit}
    (h : s.commitBlock disk c = .ok s') : KeysValid c := by
  simp only [commitBlock, bind, Except.bind] at h
  split at h
  · contradiction
  rename_i hhash
  split at h
  · contradiction
  rename_i hbal
  split at h
  · contradiction
  rename_i hstakes
  split at h
  · contradiction
  rename_i htx
  refine ⟨hhash, (forM_eq_ok _ _).1 hbal, fun e he hsome => ?_, (forM_eq_ok _ _).1 htx⟩
  have := (forM_eq_ok _ _).1 hstakes e he
  rwa [if_pos hsome] at this

theorem commitBlock_ok {disk : Disk} {s s' : Store} {c : BlockCommit}
    (h : s.commitBlock disk c = .ok s') : disk = .ok ∧ s' = s.applyCommit c := by
  simp only [commitBlock, bind, Except.bind, pure, Except.pure] at h
  split at h <;> try contradiction
  split at h <;> try contradiction
  split at h <;> try contradiction
  split at h <;> try contradiction
  split at h
  · contradiction
  · cases disk
    · exact ⟨rfl, (Except.ok.inj h).symm⟩
    · contradiction

end Store

end DevInsiderCoin
