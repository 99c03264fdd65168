import DevInsiderCoin.Difficulty.Compact
import DevInsiderCoin.Chain.Acceptance

/-! The external miner (`cmd/miner`): its own header pre-image, hex padding and compact
decoding, and its nonce loop over a template fetched by `getblocktemplate`.

The miner's `BlockHeader` has the node's fields and JSON tags, and it passes the template's
transactions through untouched, so it works on the node's `Block`. Its `computeHash` is the
node's `ComputeHash`, and its `checkPoW` is `CheckProofOfWork` on every 64-digit hash: a
block it submits passes the hash and proof-of-work checks of `validateBlock`.
-/

set_option autoImplicit false

namespace DevInsiderCoin

theorem UInt64.toNat_shiftRight' (x s : UInt64) (hs : s.toNat < 64) : (x >>> s).toNat = x.toNat / 2 ^ s.toNat := by
  show (x.toBitVec >>> (s % 64).toBitVec).toNat = _
  have hmod : (s % 64).toNat = s.toNat := Nat.mod_eq_of_lt hs
  simp only [BitVec.ushiftRight_eq', BitVec.toNat_ushiftRight, Nat.shiftRight_eq_div_pow]
  rw [show (s % 64).toBitVec.toNat = s.toNat from hmod]
  rfl

namespace Miner

/-- `appendU32`: the four bytes of `v`, least significant first. -/
def appendU32 (buf : List UInt8) (v : UInt32) : List UInt8 :=
  buf ++ [v.toUInt8, (v >>> 8).toUInt8, (v >>> 16).toUInt8, (v >>> 24).toUInt8]

/-- `appendU64`: the eight bytes of `v`, least significant first. -/
def appendU64 (buf : List UInt8) (v : UInt64) : List UInt8 :=
  buf ++ [v.toUInt8, (v >>> 8).toUInt8, (v >>> 16).toUInt8, (v >>> 24).toUInt8,
    (v >>> 32).toUInt8, (v >>> 40).toUInt8, (v >>> 48).toUInt8, (v >>> 56).toUInt8]

/-- `decodeHexPad`: the decoded bytes (the prefix before an error) left-padded with zeros
to `size`, or their first `size`. -/
def decodeHexPad (s : String) (size : Nat) : List UInt8 :=
  let b := (decodeString s).1
  if b.length < size then List.replicate (size - b.length) 0 ++ b else b.take size

/-- The miner's `computeHash`: the header appended field by field, hashed twice. -/
def computeHash (h : BlockHeader) : String :=
  let buf := appendU32 [] h.version
  let buf := buf ++ decodeHexPad h.prevHash 32
  let buf := buf ++ decodeHexPad h.merkleRoot 32
  let buf := appendU64 buf ⟨h.timestamp⟩
  let buf := appendU32 buf h.bits
  let buf := appendU64 buf h.nonce
  let first := Sha256.sum256 buf
  let second := Sha256.sum256 first
  encodeToString second

/-- `compactToBig`. The right shift is a `uint32` shift by at most 24. -/
def compactToBig (compact : UInt32) : Nat :=
  let mantissa := compact &&& 0x007fffff
  let exponent := compact >>> 24
  if exponent ≤ 3 then (mantissa >>> (8 * (3 - exponent))).toNat
  else mantissa.toNat <<< (8 * (exponent.toNat - 3))

/-- `checkPoW`: the decoded hash, its decoding error ignored, at most the target. -/
def checkPoW (hash : String) (bits : UInt32) : Bool :=
  let target := compactToBig bits
  let hashBytes := (decodeString hash).1
  bytesToNat hashBytes ≤ target

/-- One turn of the mining loop: the template with `nonce` set, and the block the miner
submits when the hash meets the template's bits. -/
def trySolve (tmpl : Block) (nonce : UInt64) : Option Block :=
  let header := { tmpl.header with nonce }
  let hash := computeHash header
  if checkPoW hash header.bits then some { tmpl with header, hash } else none

/-- The mining loop from `nonce`, over at most `fuel` nonces. -/
def searchNonces (tmpl : Block) : Nat → UInt64 → Option Block
  | 0, _ => none
  | fuel + 1, nonce => (trySolve tmpl nonce).orElse fun _ => searchNonces tmpl fuel (nonce + 1)

/-- `for nonce := uint64(0); nonce < ^uint64(0); nonce++` over one template. -/
def mineTemplate (tmpl : Block) : Option Block := searchNonces tmpl (2 ^ 64 - 1) 0

/-! ## The pre-image -/

theorem appendU32_eq (buf : List UInt8) (v : UInt32) : appendU32 buf v = buf ++ putLE 4 v.toNat := by
  simp only [appendU32, putLE, UInt32.toUInt8, Nat.div_div_eq_div_mul]
  rw [UInt32.toNat_shiftRight' _ _ (by decide), UInt32.toNat_shiftRight' _ _ (by decide),
    UInt32.toNat_shiftRight' _ _ (by decide)]
  rfl

theorem appendU64_eq (buf : List UInt8) (v : UInt64) : appendU64 buf v = buf ++ putLE 8 v.toNat := by
  simp only [appendU64, putLE, UInt64.toUInt8, Nat.div_div_eq_div_mul]
  rw [UInt64.toNat_shiftRight' _ _ (by decide), UInt64.toNat_shiftRight' _ _ (by decide),
    UInt64.toNat_shiftRight' _ _ (by decide), UInt64.toNat_shiftRight' _ _ (by decide),
    UInt64.toNat_shiftRight' _ _ (by decide), UInt64.toNat_shiftRight' _ _ (by decide),
    UInt64.toNat_shiftRight' _ _ (by decide)]
  rfl

theorem computeHash_eq (h : BlockHeader) : computeHash h = h.computeHash := by
  simp only [computeHash, appendU32_eq, appendU64_eq, BlockHeader.computeHash, BlockHeader.serialize,
    List.nil_append, List.append_assoc]
  unfold sha256d
  rfl

/-! ## The proof-of-work test -/

/-- `compactToBig` decodes every compact value as `BitsToTarget` does. -/
theorem compactToBig_eq (bits : UInt32) : compactToBig bits = bitsToTarget bits := by
  have hexp : (bits >>> 24).toNat < 256 := by
    have hb : bits.toNat < 2 ^ 32 := bits.toNat_lt_size
    rw [UInt32.toNat_shiftRight' _ _ (by decide)]
    show bits.toNat / 2 ^ 24 < 256
    omega
  dsimp only [compactToBig, bitsToTarget]
  by_cases h : bits >>> 24 ≤ 3
  · have h' : (bits >>> 24).toNat ≤ 3 := h
    have hshift : ((8 : UInt32) * ((3 : UInt32) - bits >>> 24)).toNat = 8 * (3 - (bits >>> 24).toNat) := by
      show ((8 : UInt32).toBitVec * ((3 : UInt32) - bits >>> 24).toBitVec).toNat = _
      rw [BitVec.toNat_mul, show ((3 : UInt32) - bits >>> 24).toBitVec.toNat = 3 - (bits >>> 24).toNat from
        UInt32.toNat_sub_of_le _ _ h]
      show 8 * _ % 2 ^ 32 = _
      omega
    rw [if_pos h, if_pos h', UInt32.toNat_shiftRight' _ _ (by omega), hshift, Nat.shiftRight_eq_div_pow]
  · rw [if_neg h, if_neg (show ¬ (bits >>> 24).toNat ≤ 3 from h)]

theorem hexDecode_hexDigits (cs : List Char) (hhex : ∀ c ∈ cs, (hexDigitValue c).isSome)
    (heven : cs.length % 2 = 0) : (hexDecode cs).2 = true ∧ 2 * (hexDecode cs).1.length = cs.length := by
  induction cs using hexDecode.induct with
  | case1 => exact ⟨rfl, rfl⟩
  | case2 => simp at heven
  | case3 p q rest a b hp hq ih =>
    obtain ⟨hok, hlen⟩ := ih (fun c hc => hhex c (by simp [hc])) (by simp at heven; omega)
    simp only [hexDecode, hp, hq, hok, List.length_cons, true_and]
    omega
  | case4 p q rest h =>
    obtain ⟨a, ha⟩ := Option.isSome_iff_exists.1 (hhex p (by simp))
    obtain ⟨b, hb⟩ := Option.isSome_iff_exists.1 (hhex q (by simp))
    exact absurd (h a b ha hb) (by simp)

theorem checkPoW_eq (hash : String) (bits : UInt32) (hlen : hash.length = 64)
    (hhex : ∀ c ∈ hash.toList, (hexDigitValue c).isSome) : checkPoW hash bits = checkProofOfWork hash bits := by
  obtain ⟨hok, hbytes⟩ := hexDecode_hexDigits hash.toList hhex (by show hash.length % 2 = 0; rw [hlen])
  have hbytes' : (decodeString hash).1.length = 32 := by
    change 2 * _ = hash.length at hbytes; unfold decodeString; omega
  simp only [checkPoW, checkProofOfWork, compactToBig_eq]
  rw [show decodeString hash = ((decodeString hash).1, true) from Prod.ext rfl hok]
  simp [hbytes']

/-! ## The mining loop -/

theorem checkPoW_encode (digest : List UInt8) (bits : UInt32) (hlen : digest.length = 32) :
    checkPoW (encodeToString digest) bits = checkProofOfWork (encodeToString digest) bits := by
  simp only [checkPoW, checkProofOfWork, decodeString_encodeToString, compactToBig_eq, hlen, decide_True,
    Bool.true_and]

theorem trySolve_eq (tmpl : Block) (nonce : UInt64) :
    trySolve tmpl nonce =
      if checkProofOfWork (tmpl.withNonce nonce).hash (tmpl.withNonce nonce).header.bits then
        some (tmpl.withNonce nonce) else none := by
  dsimp only [trySolve]
  rw [computeHash_eq, BlockHeader.computeHash, checkPoW_encode _ _ (length_sha256d _)]
  rfl

theorem searchNonces_solved (tmpl : Block) {block : Block} :
    ∀ (fuel : Nat) (nonce : UInt64), searchNonces tmpl fuel nonce = some block →
      ∃ n, block = tmpl.withNonce n ∧ checkProofOfWork block.hash block.header.bits = true
  | 0, _, h => absurd h (by simp [searchNonces])
  | fuel + 1, nonce, h => by
    rw [searchNonces, trySolve_eq] at h
    split at h
    · exact ⟨nonce, (Option.some.inj h).symm, (Option.some.inj h) ▸ ‹_›⟩
    · exact searchNonces_solved tmpl fuel (nonce + 1) h

theorem ofNat_add_one_nonce (s : Nat) : UInt64.ofNat s + 1 = UInt64.ofNat (s + 1) := by
  rw [UInt64.eq_iff_toNat_eq', UInt64.toNat_add', UInt64.toNat_ofNat', UInt64.toNat_ofNat']
  show (s % 2 ^ 64 + 1) % 2 ^ 64 = (s + 1) % 2 ^ 64
  omega

theorem searchNonces_eq_some (tmpl block : Block) : ∀ (fuel s : Nat),
    searchNonces tmpl fuel (UInt64.ofNat s) = some block ↔
      ∃ n, s ≤ n ∧ n < s + fuel ∧ trySolve tmpl (UInt64.ofNat n) = some block ∧
        ∀ m, s ≤ m → m < n → trySolve tmpl (UInt64.ofNat m) = none
  | 0, s => by
    simp only [searchNonces, reduceCtorEq, false_iff, not_exists, not_and]
    intro n hs hn
    omega
  | fuel + 1, s => by
    rw [searchNonces, ofNat_add_one_nonce]
    cases h : trySolve tmpl (UInt64.ofNat s) with
    | some b =>
      refine ⟨fun hb => ⟨s, le_rfl, by omega, h.trans hb, fun m hm hlt => absurd hlt (by omega)⟩, ?_⟩
      rintro ⟨n, hs, -, hn, hmin⟩
      rcases Nat.eq_or_lt_of_le hs with rfl | hlt
      · rw [h] at hn
        exact hn
      · rw [hmin s le_rfl hlt] at h
        exact Option.noConfusion h
    | none =>
      show searchNonces tmpl fuel (UInt64.ofNat (s + 1)) = some block ↔ _
      rw [searchNonces_eq_some tmpl block fuel (s + 1)]
      constructor
      · rintro ⟨n, hs, hlt, hn, hmin⟩
        refine ⟨n, by omega, by omega, hn, fun m hm hmn => ?_⟩
        rcases Nat.eq_or_lt_of_le hm with rfl | hm
        · exact h
        · exact hmin m hm hmn
      · rintro ⟨n, hs, hlt, hn, hmin⟩
        have hne : n ≠ s := by
          rintro rfl
          rw [h] at hn
          exact Option.noConfusion hn
        exact ⟨n, by omega, by omega, hn, fun m hm hmn => hmin m (by omega) hmn⟩

/-- The mining loop submits the block of the first nonce that solves the template. -/
theorem mineTemplate_first_solution (tmpl block : Block) :
    mineTemplate tmpl = some block ↔
      ∃ n < 2 ^ 64 - 1, trySolve tmpl (UInt64.ofNat n) = some block ∧
        ∀ m < n, trySolve tmpl (UInt64.ofNat m) = none := by
  rw [mineTemplate, show (0 : UInt64) = UInt64.ofNat 0 from rfl, searchNonces_eq_some]
  simp only [Nat.zero_le, true_implies, zero_add, true_and]

/-- The miner hashes headers and checks proof of work as the node does. -/
theorem miner_agrees_with_node :
    (∀ h : BlockHeader, computeHash h = h.computeHash) ∧
      (∀ (hash : String) (bits : UInt32), hash.length = 64 → (∀ c ∈ hash.toList, (hexDigitValue c).isSome) →
        checkPoW hash bits = checkProofOfWork hash bits) ∧
      ∀ tmpl block : Block, mineTemplate tmpl = some block →
        block.hash = block.header.computeHash ∧ checkProofOfWork block.hash block.header.bits = true :=
  ⟨computeHash_eq, checkPoW_eq, fun tmpl _ h => by
    obtain ⟨n, rfl, hpow⟩ := searchNonces_solved tmpl _ _ h
    exact ⟨rfl, hpow⟩⟩

theorem miner_agrees_with_node_genesis :
    (genesisState NetworkConfig.permissive 0).createBlockTemplate "miner" ⟨0, 0, 0⟩ =
        .ok ((genesisState NetworkConfig.permissive 0).templateBlock "miner" ⟨0, 0, 0⟩ 50 0x2200FFFF) ∧
      mineTemplate ((genesisState NetworkConfig.permissive 0).templateBlock "miner" ⟨0, 0, 0⟩ 50 0x2200FFFF) =
        some (((genesisState NetworkConfig.permissive 0).templateBlock "miner" ⟨0, 0, 0⟩ 50 0x2200FFFF).withNonce 0) ∧
      (((genesisState NetworkConfig.permissive 0).templateBlock "miner" ⟨0, 0, 0⟩ 50 0x2200FFFF).withNonce 0).hash =
        (((genesisState NetworkConfig.permissive 0).templateBlock "miner" ⟨0, 0, 0⟩ 50 0x2200FFFF).withNonce
          0).header.computeHash ∧
      checkProofOfWork
        (((genesisState NetworkConfig.permissive 0).templateBlock "miner" ⟨0, 0, 0⟩ 50 0x2200FFFF).withNonce 0).hash
        (((genesisState NetworkConfig.permissive 0).templateBlock "miner" ⟨0, 0, 0⟩ 50 0x2200FFFF).withNonce
          0).header.bits = true := by
  have hpow : checkProofOfWork
      (((genesisState NetworkConfig.permissive 0).templateBlock "miner" ⟨0, 0, 0⟩ 50 0x2200FFFF).withNonce 0).hash
      (((genesisState NetworkConfig.permissive 0).templateBlock "miner" ⟨0, 0, 0⟩ 50 0x2200FFFF).withNonce
        0).header.bits = true :=
    checkProofOfWork_computeHash (show 2 ^ 256 ≤ bitsToTarget 0x2200FFFF by decide)
  have hmine : mineTemplate ((genesisState NetworkConfig.permissive 0).templateBlock "miner" ⟨0, 0, 0⟩ 50 0x2200FFFF) =
      some (((genesisState NetworkConfig.permissive 0).templateBlock "miner" ⟨0, 0, 0⟩ 50 0x2200FFFF).withNonce 0) := by
    rw [mineTemplate, show (0 : UInt64) = UInt64.ofNat 0 from rfl, searchNonces_eq_some]
    refine ⟨0, le_rfl, by decide, ?_, fun m _ hm => absurd hm (Nat.not_lt_zero m)⟩
    rw [trySolve_eq]
    exact if_pos hpow
  exact ⟨Blockchain.createBlockTemplate_genesis_permissive _ _, hmine, miner_agrees_with_node.2.2 _ _ hmine⟩

theorem validateBlock_mineTemplate {bc : Blockchain} {minerAddress : String} {clock : TemplateClock}
    {template block : Block} (ht : bc.createBlockTemplate minerAddress clock = .ok template)
    (hmine : mineTemplate template = some block)
    (hcount : ∀ totalReward, bc.calcBlockReward bc.store.getBlockCount = .ok totalReward →
      (bc.rewardTransactions minerAddress clock bc.store.getBlockCount totalReward).length ≤
        bc.config.maxBlockTransactions.toNat)
    (hsize : UInt64.ofNat block.marshal.utf8ByteSize ≤ bc.config.maxBlockSize) : bc.validateBlock block = .ok () := by
  obtain ⟨n, rfl, hpow⟩ := searchNonces_solved template _ _ hmine
  exact Blockchain.validateBlock_eq_ok.2 (Blockchain.valid_solvedTemplate ht hpow hcount hsize)

end Miner

end DevInsiderCoin
