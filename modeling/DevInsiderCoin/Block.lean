import DevInsiderCoin.Codec.Sha256
import DevInsiderCoin.Codec.Json

/-! Blocks and transactions (`types.go`): their JSON form, the 88-byte header pre-image,
the header hash, the transaction id and the Merkle root.
-/

set_option autoImplicit false

namespace DevInsiderCoin

structure BlockHeader where
  version : UInt32
  prevHash : String
  merkleRoot : String
  timestamp : BitVec 64
  bits : UInt32
  nonce : UInt64
  height : UInt64
  deriving DecidableEq

structure TxOutput where
  address : String
  amount : ℚ
  deriving DecidableEq

/-- A transaction; `type` is the free-form kind string (coinbase, transfer, stake,
unstake, pos_reward), and any other kind is carried but never applied. -/
structure Transaction where
  txID : String
  type : String
  «from» : String
  «to» : String
  amount : ℚ
  fee : ℚ
  timestamp : BitVec 64
  signature : String
  outputs : List TxOutput
  deriving DecidableEq

structure Block where
  header : BlockHeader
  transactions : List Transaction
  hash : String
  deriving DecidableEq

/-! ## JSON -/

def BlockHeader.marshal (h : BlockHeader) : String :=
  Json.object [("version", Json.int h.version.toNat), ("prev_hash", Json.string h.prevHash),
    ("merkle_root", Json.string h.merkleRoot), ("timestamp", Json.int h.timestamp.toInt),
    ("bits", Json.int h.bits.toNat), ("nonce", Json.int h.nonce.toNat),
    ("height", Json.int h.height.toNat)]

def TxOutput.marshal (o : TxOutput) : String :=
  Json.object [("address", Json.string o.address), ("amount", Json.float o.amount)]

def Transaction.marshal (tx : Transaction) : String :=
  Json.object ([("txid", Json.string tx.txID), ("type", Json.string tx.type)] ++
    Json.omitEmpty "from" (Json.string tx.from) (tx.from = "") ++
    Json.omitEmpty "to" (Json.string tx.to) (tx.to = "") ++
    [("amount", Json.float tx.amount), ("fee", Json.float tx.fee),
      ("timestamp", Json.int tx.timestamp.toInt)] ++
    Json.omitEmpty "signature" (Json.string tx.signature) (tx.signature = "") ++
    Json.omitEmpty "outputs" (Json.array (tx.outputs.map TxOutput.marshal)) (tx.outputs = []))

/-- `json.Marshal(block)`; an empty transaction list is written as Go's nil slice. -/
def Block.marshal (b : Block) : String :=
  Json.object [("header", b.header.marshal),
    ("transactions", if b.transactions = [] then "null"
      else Json.array (b.transactions.map Transaction.marshal)),
    ("hash", Json.string b.hash)]

/-! ## Hashing -/

/-- `padHashBytes`: the decoded hash left-padded with zeros to 32 bytes, or its first 32. -/
def padHashBytes (hexStr : String) : List UInt8 :=
  let decoded := (decodeString hexStr).1
  if decoded.length < 32 then List.replicate (32 - decoded.length) 0 ++ decoded
  else decoded.take 32

/-- `Serialize`: the hash pre-image, all integers little-endian, `Height` left out. -/
def BlockHeader.serialize (h : BlockHeader) : List UInt8 :=
  putLE 4 h.version.toNat ++ padHashBytes h.prevHash ++ padHashBytes h.merkleRoot ++
    putLE 8 h.timestamp.toNat ++ putLE 4 h.bits.toNat ++ putLE 8 h.nonce.toNat

def BlockHeader.computeHash (h : BlockHeader) : String := encodeToString (sha256d h.serialize)

def Transaction.computeTxID (tx : Transaction) : String :=
  encodeToString (sha256d (utf8Bytes (Json.object [("type", Json.string tx.type),
    ("from", Json.string tx.from), ("to", Json.string tx.to), ("amount", Json.float tx.amount),
    ("timestamp", Json.int tx.timestamp.toInt)])))

/-- One round of the Merkle reduction: adjacent hashes hashed together, an odd last one
paired with itself. -/
def merkleLevel (hash : List UInt8 → List UInt8) : List (List UInt8) → List (List UInt8)
  | [] => []
  | [x] => [hash (x ++ x)]
  | x :: y :: rest => hash (x ++ y) :: merkleLevel hash rest

theorem length_merkleLevel (hash : List UInt8 → List UInt8) (hs : List (List UInt8)) :
    (merkleLevel hash hs).length = (hs.length + 1) / 2 := by
  induction hs using merkleLevel.induct hash with
  | case1 => rfl
  | case2 => simp [merkleLevel]
  | case3 x y rest ih => simp only [merkleLevel, List.length_cons, ih]; omega

/-- The reduction loop `for len(hashes) > 1`. -/
def merkleReduce (hash : List UInt8 → List UInt8) (hs : List (List UInt8)) : List (List UInt8) :=
  if 1 < hs.length then merkleReduce hash (merkleLevel hash hs) else hs
termination_by hs.length
decreasing_by rw [length_merkleLevel]; omega

/-- `ComputeMerkleRoot`, over any hash function and transaction encoding. -/
def merkleRootWith (hash : List UInt8 → List UInt8) (encode : Transaction → List UInt8)
    (txs : List Transaction) : String :=
  if txs = [] then String.mk (List.replicate 64 '0')
  else encodeToString ((merkleReduce hash (txs.map fun tx => hash (encode tx))).headD [])

/-- `ComputeMerkleRoot`: SHA256d over each transaction's JSON, then pairwise. -/
def computeMerkleRoot (txs : List Transaction) : String :=
  merkleRootWith sha256d (fun tx => utf8Bytes tx.marshal) txs

theorem length_computeMerkleRoot_even (txs : List Transaction) : (computeMerkleRoot txs).length % 2 = 0 := by
  unfold computeMerkleRoot merkleRootWith
  split
  · rfl
  · rw [length_encodeToString]
    omega

/-- `NewCoinbaseTransaction`; it reads the clock and ignores the height it is given. -/
def newCoinbaseTransaction (minerAddress : String) (reward : ℚ) (_height : UInt64)
    (now : BitVec 64) : Transaction :=
  let tx : Transaction :=
    { txID := "", type := "coinbase", «from» := "", «to» := minerAddress, amount := reward,
      fee := 0, timestamp := now, signature := "", outputs := [⟨minerAddress, reward⟩] }
  { tx with txID := tx.computeTxID }

@[simp] theorem newCoinbaseTransaction_type (minerAddress : String) (reward : ℚ) (height : UInt64)
    (now : BitVec 64) : (newCoinbaseTransaction minerAddress reward height now).type = "coinbase" := rfl

@[simp] theorem newCoinbaseTransaction_outputs (minerAddress : String) (reward : ℚ) (height : UInt64)
    (now : BitVec 64) : (newCoinbaseTransaction minerAddress reward height now).outputs = [⟨minerAddress, reward⟩] :=
  rfl

/-! ## Hex digests -/

theorem hexDigitValue_hexDigit : ∀ n < 16, hexDigitValue (hexDigit n) = some n.toUInt8 := by
  decide

set_option maxRecDepth 8000 in
theorem nibbles_recombine_toNat :
    ∀ n : Fin 256, ((n.val / 16).toUInt8 <<< 4 ||| (n.val % 16).toUInt8).toNat = n.val := by
  decide

theorem nibbles_recombine (b : UInt8) : (b.toNat / 16).toUInt8 <<< 4 ||| (b.toNat % 16).toUInt8 = b :=
  UInt8.toNat.inj (nibbles_recombine_toNat ⟨b.toNat, b.toNat_lt_size⟩)

@[simp] theorem decodeString_encodeToString (bytes : List UInt8) :
    decodeString (encodeToString bytes) = (bytes, true) := by
  induction bytes with
  | nil => rfl
  | cons b bs ih =>
    have hb : b.toNat < 256 := b.toNat_lt_size
    have hi := hexDigitValue_hexDigit (b.toNat / 16) (by omega)
    have lo := hexDigitValue_hexDigit (b.toNat % 16) (by omega)
    simp only [decodeString, encodeToString, String.toList, List.flatMap_cons, List.cons_append,
      List.nil_append] at ih ⊢
    simp only [hexDecode, hi, lo, nibbles_recombine, ih]

@[simp] theorem length_computeHash (h : BlockHeader) : h.computeHash.length = 64 := by
  simp [BlockHeader.computeHash]

@[simp] theorem length_computeTxID (tx : Transaction) : tx.computeTxID.length = 64 := by
  simp [Transaction.computeTxID]

end DevInsiderCoin
