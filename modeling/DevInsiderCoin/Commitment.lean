import DevInsiderCoin.Block

/-! What a block header commits to.

`Serialize` writes every header in 88 bytes, and for hashes written as `hex.EncodeToString`
writes them (64 lowercase digits) it determines the six fields it writes. `ComputeMerkleRoot`
determines a transaction list of a given length up to a collision of the hash or of the
transaction encoding, but it does not determine the length: the odd last hash of a level is
paired with itself, so every list of an odd number of transactions, three or more, has the
root of the list that repeats its last transaction.
-/

set_option autoImplicit false

namespace DevInsiderCoin

/-- Two different inputs, one among `as` and one among `bs`, with one image. -/
def CollidesOn {α β : Type} (f : α → β) (as bs : List α) : Prop := ∃ a ∈ as, ∃ b ∈ bs, a ≠ b ∧ f a = f b

theorem CollidesOn.mono {α β : Type} {f : α → β} {as bs as' bs' : List α} (h : CollidesOn f as bs)
    (has : as ⊆ as') (hbs : bs ⊆ bs') : CollidesOn f as' bs' := by
  obtain ⟨a, ha, b, hb, hne, heq⟩ := h
  exact ⟨a, has ha, b, hbs hb, hne, heq⟩

theorem eq_or_collidesOn_of_map_eq {α β : Type} {f : α → β} :
    ∀ {xs ys : List α}, xs.map f = ys.map f → xs = ys ∨ CollidesOn f xs ys
  | [], [], _ => .inl rfl
  | [], _ :: _, h => absurd h (by simp)
  | _ :: _, [], h => absurd h (by simp)
  | x :: xs, y :: ys, h => by
    simp only [List.map_cons, List.cons.injEq] at h
    by_cases hxy : x = y
    · subst hxy
      exact (eq_or_collidesOn_of_map_eq h.2).imp (congrArg _) fun hc =>
        hc.mono (List.subset_cons_self _ _) (List.subset_cons_self _ _)
    · exact .inr ⟨x, List.mem_cons_self _ _, y, List.mem_cons_self _ _, hxy, h.1⟩

/-! ## The header pre-image -/

/-- The value of bytes read least significant first, as `binary.LittleEndian` reads a field. -/
def getLE : List UInt8 → Nat
  | [] => 0
  | b :: bs => b.toNat + 256 * getLE bs

theorem getLE_putLE (width n : Nat) : getLE (putLE width n) = n % 256 ^ width := by
  induction width generalizing n with
  | zero => simp [putLE, getLE, Nat.mod_one]
  | succ w ih => rw [putLE, getLE, ih, toNat_toUInt8, Nat.pow_succ', Nat.mod_mul]

theorem eq_of_putLE_eq {width a b : Nat} (ha : a < 256 ^ width) (hb : b < 256 ^ width)
    (h : putLE width a = putLE width b) : a = b := by
  have := congrArg getLE h
  rwa [getLE_putLE, getLE_putLE, Nat.mod_eq_of_lt ha, Nat.mod_eq_of_lt hb] at this

@[simp] theorem length_padHashBytes (hexStr : String) : (padHashBytes hexStr).length = 32 := by
  unfold padHashBytes
  dsimp only
  split <;> simp <;> omega

theorem length_serialize (h : BlockHeader) : h.serialize.length = 88 := by
  simp [BlockHeader.serialize]

/-- A hash as the node writes it: 64 characters, each one of the sixteen lowercase digits
of `hex.EncodeToString`. -/
def IsHashHex (s : String) : Prop := s.length = 64 ∧ ∀ c ∈ s.toList, ∃ n < 16, hexDigit n = c

instance (s : String) : Decidable (IsHashHex s) := inferInstanceAs (Decidable (_ ∧ _))

set_option maxRecDepth 4000 in
theorem toNat_nibbles : ∀ i j : Fin 16, (i.val.toUInt8 <<< 4 ||| j.val.toUInt8).toNat = 16 * i.val + j.val := by
  decide

theorem encodeToString_cons (b : UInt8) (bs : List UInt8) :
    encodeToString (b :: bs) = ⟨hexDigit (b.toNat / 16) :: hexDigit (b.toNat % 16) :: (encodeToString bs).data⟩ :=
  rfl

theorem encodeToString_hexDecode (cs : List Char) (hcs : ∀ c ∈ cs, ∃ n < 16, hexDigit n = c)
    (heven : cs.length % 2 = 0) : encodeToString (hexDecode cs).1 = ⟨cs⟩ := by
  induction cs using hexDecode.induct with
  | case1 => rfl
  | case2 => simp at heven
  | case3 p q rest a b hq hp ih =>
    obtain ⟨i, hi, rfl⟩ := hcs p (by simp)
    obtain ⟨j, hj, rfl⟩ := hcs q (by simp)
    obtain rfl := Option.some.inj ((hexDigitValue_hexDigit i hi).symm.trans hp)
    obtain rfl := Option.some.inj ((hexDigitValue_hexDigit j hj).symm.trans hq)
    have hrest := ih (fun c hc => hcs c (by simp [hc])) (by simp only [List.length_cons] at heven; omega)
    have hbyte := toNat_nibbles ⟨i, hi⟩ ⟨j, hj⟩
    simp only [hexDecode, hexDigitValue_hexDigit i hi, hexDigitValue_hexDigit j hj, encodeToString_cons, hrest]
    rw [hbyte, show (16 * i + j) / 16 = i by omega, show (16 * i + j) % 16 = j by omega]
  | case4 p q rest hbad =>
    obtain ⟨i, hi, rfl⟩ := hcs p (by simp)
    obtain ⟨j, hj, rfl⟩ := hcs q (by simp)
    exact absurd (hbad _ _ (hexDigitValue_hexDigit i hi) (hexDigitValue_hexDigit j hj)) (by simp)

theorem encodeToString_padHashBytes {s : String} (hs : IsHashHex s) : encodeToString (padHashBytes s) = s := by
  have hround : encodeToString (decodeString s).1 = s := encodeToString_hexDecode s.data hs.2 (by
    rw [show s.data.length = s.length from rfl, hs.1])
  have hlen : (decodeString s).1.length = 32 := by
    have := congrArg String.length hround
    rw [length_encodeToString, hs.1] at this
    omega
  unfold padHashBytes
  rw [if_neg (by omega), List.take_of_length_le (by omega), hround]

theorem isHashHex_encodeToString {bytes : List UInt8} (hlen : bytes.length = 32) :
    IsHashHex (encodeToString bytes) := by
  refine ⟨by rw [length_encodeToString, hlen], fun c hc => ?_⟩
  simp only [encodeToString, String.toList, List.mem_flatMap, List.mem_cons, List.mem_singleton,
    List.not_mem_nil, or_false] at hc
  obtain ⟨b, -, rfl | rfl⟩ := hc
  · exact ⟨b.toNat / 16, by have : b.toNat < 256 := b.toNat_lt_size; omega, rfl⟩
  · exact ⟨b.toNat % 16, Nat.mod_lt _ (by omega), rfl⟩

theorem serialize_eq_parts {h₁ h₂ : BlockHeader} (h : h₁.serialize = h₂.serialize) :
    putLE 4 h₁.version.toNat = putLE 4 h₂.version.toNat ∧ padHashBytes h₁.prevHash = padHashBytes h₂.prevHash ∧
      padHashBytes h₁.merkleRoot = padHashBytes h₂.merkleRoot ∧
      putLE 8 h₁.timestamp.toNat = putLE 8 h₂.timestamp.toNat ∧ putLE 4 h₁.bits.toNat = putLE 4 h₂.bits.toNat ∧
      putLE 8 h₁.nonce.toNat = putLE 8 h₂.nonce.toNat := by
  unfold BlockHeader.serialize at h
  obtain ⟨h, hnonce⟩ := List.append_inj h (by simp)
  obtain ⟨h, hbits⟩ := List.append_inj h (by simp)
  obtain ⟨h, htime⟩ := List.append_inj h (by simp)
  obtain ⟨h, hroot⟩ := List.append_inj h (by simp)
  obtain ⟨hversion, hprev⟩ := List.append_inj h (by simp)
  exact ⟨hversion, hprev, hroot, htime, hbits, hnonce⟩

theorem prevHash_eq_of_serialize_eq {h₁ h₂ : BlockHeader} (hp₁ : IsHashHex h₁.prevHash)
    (hp₂ : IsHashHex h₂.prevHash) (h : h₁.serialize = h₂.serialize) : h₁.prevHash = h₂.prevHash := by
  rw [← encodeToString_padHashBytes hp₁, (serialize_eq_parts h).2.1, encodeToString_padHashBytes hp₂]

/-- `Serialize` is a fixed-length encoding, injective on the six fields it writes. -/
theorem serialize_length_and_injective :
    (∀ h : BlockHeader, h.serialize.length = 88) ∧
      ∀ h₁ h₂ : BlockHeader, IsHashHex h₁.prevHash → IsHashHex h₁.merkleRoot →
        IsHashHex h₂.prevHash → IsHashHex h₂.merkleRoot →
        (h₁.serialize = h₂.serialize ↔
          h₁.version = h₂.version ∧ h₁.prevHash = h₂.prevHash ∧ h₁.merkleRoot = h₂.merkleRoot ∧
            h₁.timestamp = h₂.timestamp ∧ h₁.bits = h₂.bits ∧ h₁.nonce = h₂.nonce) := by
  refine ⟨length_serialize, fun h₁ h₂ hp₁ hm₁ hp₂ hm₂ => ⟨fun h => ?_, ?_⟩⟩
  · obtain ⟨hversion, -, hroot, htime, hbits, hnonce⟩ := serialize_eq_parts h
    refine ⟨UInt32.toNat.inj (eq_of_putLE_eq h₁.version.toNat_lt_size h₂.version.toNat_lt_size hversion),
      ?_, ?_, BitVec.eq_of_toNat_eq (eq_of_putLE_eq h₁.timestamp.isLt h₂.timestamp.isLt htime),
      UInt32.toNat.inj (eq_of_putLE_eq h₁.bits.toNat_lt_size h₂.bits.toNat_lt_size hbits),
      UInt64.toNat.inj (eq_of_putLE_eq h₁.nonce.toNat_lt_size h₂.nonce.toNat_lt_size hnonce)⟩
    · exact prevHash_eq_of_serialize_eq hp₁ hp₂ h
    · rw [← encodeToString_padHashBytes hm₁, hroot, encodeToString_padHashBytes hm₂]
  · rintro ⟨hv, hp, hm, ht, hb, hn⟩
    simp only [BlockHeader.serialize, hv, hp, hm, ht, hb, hn]

theorem serialize_length_and_injective_emptyHash :
    IsHashHex (encodeToString (sha256d [])) ∧
      ((∀ h : BlockHeader, h.serialize.length = 88) ∧
        (({ version := 2, prevHash := encodeToString (sha256d []),
                merkleRoot := encodeToString (sha256d []), timestamp := 0, bits := 0, nonce := 0,
                height := 0 } : BlockHeader).serialize =
            ({ version := 2, prevHash := encodeToString (sha256d []),
                merkleRoot := encodeToString (sha256d []), timestamp := 0, bits := 0, nonce := 1,
                height := 0 } : BlockHeader).serialize ↔
          (2 : UInt32) = 2 ∧ encodeToString (sha256d []) = encodeToString (sha256d []) ∧
            encodeToString (sha256d []) = encodeToString (sha256d []) ∧ (0 : BitVec 64) = 0 ∧
            (0 : UInt32) = 0 ∧ (0 : UInt64) = 1)) := by
  have hhex := isHashHex_encodeToString (length_sha256d [])
  exact ⟨hhex, serialize_length_and_injective.1, serialize_length_and_injective.2 _ _ hhex hhex hhex hhex⟩

/-! ## Merkle roots -/

section Merkle

variable {hash : List UInt8 → List UInt8}

/-- The inputs one level of the reduction hashes: each pair, and an odd last hash with itself. -/
def levelInputs : List (List UInt8) → List (List UInt8)
  | [] => []
  | [x] => [x ++ x]
  | x :: y :: rest => (x ++ y) :: levelInputs rest

theorem merkleLevel_eq_map (hash : List UInt8 → List UInt8) :
    ∀ hs, merkleLevel hash hs = (levelInputs hs).map hash
  | [] => rfl
  | [_] => rfl
  | _ :: _ :: rest => by rw [merkleLevel, levelInputs, List.map_cons, merkleLevel_eq_map hash rest]

theorem levelInputs_inj {n : Nat} : ∀ {hs hs' : List (List UInt8)}, hs.length = hs'.length →
    (∀ x ∈ hs, x.length = n) → (∀ x ∈ hs', x.length = n) → levelInputs hs = levelInputs hs' → hs = hs'
  | [], [], _, _, _, _ => rfl
  | [x], [x'], _, hw, hw', h => by
    have hx : x.length = x'.length := by rw [hw x (by simp), hw' x' (by simp)]
    simp only [levelInputs, List.cons.injEq, and_true] at h
    rw [(List.append_inj h hx).1]
  | x :: y :: rest, x' :: y' :: rest', hlen, hw, hw', h => by
    have hx : x.length = x'.length := by rw [hw x (by simp), hw' x' (by simp)]
    simp only [levelInputs, List.cons.injEq] at h
    obtain ⟨rfl, rfl⟩ := List.append_inj h.1 hx
    rw [levelInputs_inj (by simpa using hlen) (fun z hz => hw z (by simp [hz])) (fun z hz => hw' z (by simp [hz]))
      h.2]
  | [], _ :: _, hlen, _, _, _ | _ :: _, [], hlen, _, _, _ => absurd hlen (by simp)
  | [_], _ :: _ :: _, hlen, _, _, _ | _ :: _ :: _, [_], hlen, _, _, _ => absurd hlen (by simp)

/-- Every input the reduction hashes, level by level. -/
def reduceInputs (hash : List UInt8 → List UInt8) (hs : List (List UInt8)) : List (List UInt8) :=
  if 1 < hs.length then levelInputs hs ++ reduceInputs hash (merkleLevel hash hs) else []
termination_by hs.length
decreasing_by rw [length_merkleLevel]; omega

theorem merkleReduce_of_lt {hs : List (List UInt8)} (h : 1 < hs.length) :
    merkleReduce hash hs = merkleReduce hash (merkleLevel hash hs) := by
  rw [merkleReduce, if_pos h]

theorem merkleReduce_of_not_lt {hs : List (List UInt8)} (h : ¬ 1 < hs.length) : merkleReduce hash hs = hs := by
  rw [merkleReduce, if_neg h]

theorem reduceInputs_of_lt {hs : List (List UInt8)} (h : 1 < hs.length) :
    reduceInputs hash hs = levelInputs hs ++ reduceInputs hash (merkleLevel hash hs) := by
  rw [reduceInputs, if_pos h]

theorem length_of_mem_merkleLevel {n : Nat} (hn : ∀ d, (hash d).length = n) (hs : List (List UInt8)) :
    ∀ x ∈ merkleLevel hash hs, x.length = n := by
  rw [merkleLevel_eq_map]
  intro x hx
  obtain ⟨d, -, rfl⟩ := List.mem_map.1 hx
  exact hn d

theorem merkleReduce_eq_singleton (hash : List UInt8 → List UInt8) (hs : List (List UInt8)) (hne : hs ≠ []) :
    ∃ r, merkleReduce hash hs = [r] := by
  induction hs using merkleReduce.induct hash with
  | case1 hs hlt ih =>
    rw [merkleReduce_of_lt hlt]
    exact ih (List.ne_nil_of_length_pos (by rw [length_merkleLevel]; omega))
  | case2 hs hle =>
    rw [merkleReduce_of_not_lt hle]
    match hs, hne, hle with
    | [r], _, _ => exact ⟨r, rfl⟩
    | [], hne, _ => exact absurd rfl hne
    | _ :: _ :: _, _, hle => exact absurd (by simp) hle

theorem eq_or_collides_of_merkleReduce {n : Nat} (hn : ∀ d, (hash d).length = n) (hs : List (List UInt8))
    {hs' : List (List UInt8)} (hlen : hs.length = hs'.length) (hw : ∀ x ∈ hs, x.length = n)
    (hw' : ∀ x ∈ hs', x.length = n) (h : merkleReduce hash hs = merkleReduce hash hs') :
    hs = hs' ∨ CollidesOn hash (reduceInputs hash hs) (reduceInputs hash hs') := by
  induction hs using merkleReduce.induct hash generalizing hs' with
  | case1 hs hlt ih =>
    have hlt' : 1 < hs'.length := hlen ▸ hlt
    rw [merkleReduce_of_lt hlt, merkleReduce_of_lt hlt'] at h
    rw [reduceInputs_of_lt hlt, reduceInputs_of_lt hlt']
    rcases ih (by rw [length_merkleLevel, length_merkleLevel, hlen]) (length_of_mem_merkleLevel hn hs)
      (length_of_mem_merkleLevel hn hs') h with hl | hc
    · rw [merkleLevel_eq_map, merkleLevel_eq_map] at hl
      exact (eq_or_collidesOn_of_map_eq hl).imp (levelInputs_inj hlen hw hw') fun hc =>
        hc.mono (List.subset_append_left _ _) (List.subset_append_left _ _)
    · exact .inr (hc.mono (List.subset_append_right _ _) (List.subset_append_right _ _))
  | case2 hs hle =>
    have hle' : ¬ 1 < hs'.length := hlen ▸ hle
    rw [merkleReduce_of_not_lt hle, merkleReduce_of_not_lt hle'] at h
    exact .inl h

/-- Every input `merkleRootWith` hashes: each transaction's encoding, then the pairs of every
level. -/
def merkleInputs (hash : List UInt8 → List UInt8) (encode : Transaction → List UInt8) (txs : List Transaction) :
    List (List UInt8) :=
  txs.map encode ++ reduceInputs hash (txs.map fun tx => hash (encode tx))

theorem eq_or_collides_of_merkleRootWith {encode : Transaction → List UInt8} {n : Nat}
    (hn : ∀ d, (hash d).length = n) {xs ys : List Transaction} (hlen : xs.length = ys.length)
    (h : merkleRootWith hash encode xs = merkleRootWith hash encode ys) :
    xs = ys ∨ CollidesOn hash (merkleInputs hash encode xs) (merkleInputs hash encode ys) ∨
      CollidesOn encode xs ys := by
  unfold merkleRootWith at h
  by_cases hxs : xs = []
  · exact .inl (hxs.trans (List.eq_nil_of_length_eq_zero (hlen ▸ congrArg List.length hxs)).symm)
  have hys : ys ≠ [] := fun hys => hxs (List.eq_nil_of_length_eq_zero (hlen.trans (congrArg List.length hys)))
  rw [if_neg hxs, if_neg hys] at h
  have hroot := congrArg (fun s => (decodeString s).1) h
  simp only [decodeString_encodeToString] at hroot
  obtain ⟨r, hr⟩ := merkleReduce_eq_singleton hash (xs.map fun tx => hash (encode tx)) (by simpa using hxs)
  obtain ⟨r', hr'⟩ := merkleReduce_eq_singleton hash (ys.map fun tx => hash (encode tx)) (by simpa using hys)
  rw [hr, hr'] at hroot
  have hleaf : ∀ l : List Transaction, ∀ x ∈ l.map fun tx => hash (encode tx), x.length = n := fun l x hx => by
    obtain ⟨tx, -, rfl⟩ := List.mem_map.1 hx
    exact hn _
  rcases eq_or_collides_of_merkleReduce hn _ (by simpa using hlen) (hleaf xs) (hleaf ys)
      (by rw [hr, hr']; exact congrArg (· :: []) hroot) with hl | hc
  · rcases eq_or_collidesOn_of_map_eq (show (xs.map encode).map hash = (ys.map encode).map hash by
      simpa only [List.map_map] using hl) with he | hc
    · exact (eq_or_collidesOn_of_map_eq he).imp_right .inr
    · exact .inr (.inl (hc.mono (List.subset_append_left _ _) (List.subset_append_left _ _)))
  · exact .inr (.inl (hc.mono (List.subset_append_right _ _) (List.subset_append_right _ _)))

theorem merkleLevel_append_dup (x : List UInt8) :
    ∀ init : List (List UInt8), init.length % 2 = 0 →
      merkleLevel hash (init ++ [x]) = merkleLevel hash (init ++ [x, x])
  | [], _ => rfl
  | [_], h => by simp at h
  | a :: b :: rest, h => by
    rw [List.cons_append, List.cons_append, List.cons_append, List.cons_append, merkleLevel, merkleLevel,
      merkleLevel_append_dup x rest (by simp only [List.length_cons] at h; omega)]

theorem merkleRootWith_append_dup (encode : Transaction → List UInt8) (init : List Transaction)
    (x : Transaction) (heven : init.length % 2 = 0) (hne : init ≠ []) :
    merkleRootWith hash encode (init ++ [x]) = merkleRootWith hash encode (init ++ [x, x]) := by
  have hlen : 0 < init.length := List.length_pos.2 hne
  have hodd : 1 < (init.map (fun tx => hash (encode tx)) ++ [hash (encode x)]).length := by simp; omega
  have hdup : 1 < (init.map (fun tx => hash (encode tx)) ++ [hash (encode x), hash (encode x)]).length := by
    simp
  unfold merkleRootWith
  simp only [List.append_eq_nil, List.cons_ne_nil, and_false, if_false, List.map_append, List.map_cons,
    List.map_nil]
  rw [merkleReduce_of_lt hodd, merkleReduce_of_lt hdup, merkleLevel_append_dup _ _ (by simpa using heven)]

end Merkle

/-- Among lists of one length, the Merkle root fixes the list up to a collision of what it hashes. -/
theorem computeMerkleRoot_eq_or_collides {xs ys : List Transaction} (hlen : xs.length = ys.length)
    (h : computeMerkleRoot xs = computeMerkleRoot ys) :
    xs = ys ∨
      CollidesOn sha256d (merkleInputs sha256d (fun tx => utf8Bytes tx.marshal) xs)
        (merkleInputs sha256d (fun tx => utf8Bytes tx.marshal) ys) ∨
      CollidesOn (fun tx : Transaction => utf8Bytes tx.marshal) xs ys :=
  eq_or_collides_of_merkleRootWith length_sha256d hlen h

theorem computeMerkleRoot_eq_or_collides_coinbase :
    [newCoinbaseTransaction "miner" 50 1 0].length = [newCoinbaseTransaction "miner" 50 1 0].length ∧
      computeMerkleRoot [newCoinbaseTransaction "miner" 50 1 0] =
        computeMerkleRoot [newCoinbaseTransaction "miner" 50 1 0] ∧
      ([newCoinbaseTransaction "miner" 50 1 0] = [newCoinbaseTransaction "miner" 50 1 0] ∨
        CollidesOn sha256d (merkleInputs sha256d (fun tx => utf8Bytes tx.marshal) [newCoinbaseTransaction "miner" 50 1 0])
          (merkleInputs sha256d (fun tx => utf8Bytes tx.marshal) [newCoinbaseTransaction "miner" 50 1 0]) ∨
        CollidesOn (fun tx : Transaction => utf8Bytes tx.marshal) [newCoinbaseTransaction "miner" 50 1 0]
          [newCoinbaseTransaction "miner" 50 1 0]) :=
  ⟨rfl, rfl, computeMerkleRoot_eq_or_collides rfl rfl⟩

theorem computeMerkleRoot_duplicate_last :
    [newCoinbaseTransaction "alice" 50 1 0, newCoinbaseTransaction "bob" 50 1 0,
        newCoinbaseTransaction "carol" 50 1 0] ≠
      [newCoinbaseTransaction "alice" 50 1 0, newCoinbaseTransaction "bob" 50 1 0,
        newCoinbaseTransaction "carol" 50 1 0, newCoinbaseTransaction "carol" 50 1 0] ∧
    computeMerkleRoot [newCoinbaseTransaction "alice" 50 1 0, newCoinbaseTransaction "bob" 50 1 0,
        newCoinbaseTransaction "carol" 50 1 0] =
      computeMerkleRoot [newCoinbaseTransaction "alice" 50 1 0, newCoinbaseTransaction "bob" 50 1 0,
        newCoinbaseTransaction "carol" 50 1 0, newCoinbaseTransaction "carol" 50 1 0] :=
  ⟨by simp, merkleRootWith_append_dup _ [_, _] _ (by simp) (by simp)⟩

end DevInsiderCoin
