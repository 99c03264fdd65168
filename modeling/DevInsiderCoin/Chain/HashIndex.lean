import Mathlib.Data.List.Sort
import DevInsiderCoin.Chain.Migration

/-! The blocks bucket and the `block_hashes` index. `CommitBlock` only adds entries: it
puts the block under its height key and its hash under the same key, and never removes an
older hash. The two agree while every commit lands on a height no stored block has, which
is what a run from a fresh genesis does below a best height of `2 ^ 63`: there the bucket
holds exactly the heights up to the best one, every indexed hash names a block with that
hash, and a cursor from a height's key (BoltDB orders keys bytewise, which for the
big-endian keys is the order of heights) meets only the heights from it to the best.

A migration that fails part way breaks this: `NewBlockchain` writes its genesis block at
height 0 over a legacy block whose hash stays indexed, and leaves the later legacy blocks
above a best height of 0.
-/

set_option autoImplicit false

namespace DevInsiderCoin

/-! ## Key order -/

theorem foldl_bytes (bytes : List UInt8) (acc : Nat) :
    bytes.foldl (fun acc b => acc * 256 + b.toNat) acc = acc * 256 ^ bytes.length + bytesToNat bytes := by
  induction bytes generalizing acc with
  | nil => simp [bytesToNat]
  | cons b bs ih =>
    simp only [bytesToNat, List.foldl_cons, List.length_cons] at ih ⊢
    rw [ih, ih (0 * 256 + b.toNat), pow_succ]
    ring

theorem bytesToNat_cons (b : UInt8) (bytes : List UInt8) :
    bytesToNat (b :: bytes) = b.toNat * 256 ^ bytes.length + bytesToNat bytes := by
  rw [bytesToNat, List.foldl_cons, foldl_bytes, Nat.zero_mul, Nat.zero_add]

theorem mul_add_lt_mul_add_iff {a b x y p : Nat} (hx : x < p) (hy : y < p) :
    a * p + x < b * p + y ↔ a < b ∨ a = b ∧ x < y := by
  rcases Nat.lt_trichotomy a b with hab | rfl | hab
  · have := Nat.mul_le_mul_right p (Nat.succ_le_of_lt hab)
    rw [Nat.succ_mul] at this
    omega
  · omega
  · have := Nat.mul_le_mul_right p (Nat.succ_le_of_lt hab)
    rw [Nat.succ_mul] at this
    omega

theorem keyLt_iff : ∀ {xs ys : List UInt8}, xs.length = ys.length →
    (Store.keyLt xs ys = true ↔ bytesToNat xs < bytesToNat ys)
  | [], [], _ => by simp [Store.keyLt, bytesToNat]
  | a :: as, b :: bs, hlen => by
    have hlen' : as.length = bs.length := Nat.succ.inj hlen
    have hx := bytesToNat_lt as
    have hy := bytesToNat_lt bs
    rw [hlen'] at hx
    rw [Store.keyLt, bytesToNat_cons, bytesToNat_cons, hlen', mul_add_lt_mul_add_iff hx hy, ← keyLt_iff hlen']
    simp

theorem keyLt_heightKey (a b : UInt64) : Store.keyLt (Store.heightKey a) (Store.heightKey b) = decide (a < b) := by
  have hmod : ∀ h : UInt64, h.toNat % 256 ^ 8 = h.toNat := fun h => Nat.mod_eq_of_lt h.toNat_lt_size
  rw [Bool.eq_iff_iff, keyLt_iff (by simp [Store.heightKey]), decide_eq_true_iff, Store.heightKey,
    Store.heightKey, bytesToNat_putBE, bytesToNat_putBE, hmod, hmod]
  rfl

theorem pairwise_lt_mergeSort {α : Type} {l : List (Nat × α)} (hne : l.Pairwise fun p q => p.1 ≠ q.1) :
    (l.mergeSort fun p q => decide (p.1 ≤ q.1)).Pairwise fun p q => p.1 < q.1 := by
  refine ((List.sorted_mergeSort (fun a b c hab hbc => ?_) (fun a b => ?_) _).and
    (((List.mergeSort_perm _ _).pairwise_iff Ne.symm).2 hne)).imp fun ⟨h₁, h₂⟩ => ?_
  · simp only [decide_eq_true_eq] at hab hbc ⊢
    omega
  · simp only [Bool.or_eq_true, decide_eq_true_eq]
    omega
  · simp only [decide_eq_true_eq] at h₁
    omega

def Store.HeightKeyed (s : Store) : Prop := ∀ key ∈ s.blocks, ∃ k : UInt64, key = Store.heightKey k

theorem Store.HeightKeyed.applyCommit {s : Store} (h : s.HeightKeyed) (c : BlockCommit) :
    (s.applyCommit c).HeightKeyed := fun key hkey => by
  rw [Store.applyCommit_blocks, AList.mem_insert] at hkey
  rcases hkey with rfl | hkey
  · exact ⟨c.height, rfl⟩
  · exact h key hkey

theorem Store.getBlocksFrom_heightKeyed {s : Store} (hkeys : s.HeightKeyed) (start : UInt64) :
    ∃ hs : List UInt64, hs.Pairwise (· < ·) ∧ (∀ k, k ∈ hs ↔ start ≤ k ∧ Store.heightKey k ∈ s.blocks) ∧
      hs.map s.getBlockByHeight = (s.getBlocksFrom start).map some := by
  set F := s.blocks.entries.filter fun e => !Store.keyLt e.1 (Store.heightKey start)
  set f : (Σ _ : List UInt8, Block) → Nat × Block := fun e => ((Store.keyToHeight e.1).toNat, e.2)
  have hkey : ∀ e ∈ s.blocks.entries, e.1 = Store.heightKey (Store.keyToHeight e.1) := fun e he => by
    obtain ⟨k, hk⟩ := hkeys e.1 (AList.mem_keys.2 (List.mem_keys_of_mem he))
    rw [hk, Store.keyToHeight_heightKey]
  have hF : ∀ e ∈ F, e ∈ s.blocks.entries := fun e he => (List.mem_filter.1 he).1
  -- on height keys the byte order of keys is the order of heights
  have hle : ∀ a ∈ F, ∀ b ∈ F, (!Store.keyLt b.1 a.1) = decide ((f a).1 ≤ (f b).1) := by
    intro a ha b hb
    rw [hkey a (hF a ha), hkey b (hF b hb)]
    simp only [f, keyLt_heightKey, Store.keyToHeight_heightKey, UInt64.lt_iff_toNat_lt', ← decide_not,
      Nat.not_lt]
  have hne : (F.map f).Pairwise fun p q => p.1 ≠ q.1 := by
    refine List.pairwise_map.2 ((List.nodupKeys_iff_pairwise.1
      (s.blocks.nodupKeys.sublist (List.filter_sublist _))).imp_of_mem fun {a b} ha hb hab h => hab ?_)
    rw [hkey a (hF a ha), hkey b (hF b hb), UInt64.eq_iff_toNat_eq'.2 h]
  set sorted := F.mergeSort fun a b => !Store.keyLt b.1 a.1
  have hmap : sorted.map f = (F.map f).mergeSort fun p q => decide (p.1 ≤ q.1) := List.map_mergeSort hle
  have hmemS : ∀ e, e ∈ sorted ↔ e ∈ F := fun _ => List.mem_mergeSort
  have hsorted : ∀ e ∈ sorted, e ∈ s.blocks.entries := fun e he => hF e ((hmemS e).1 he)
  refine ⟨sorted.map fun e => Store.keyToHeight e.1, ?_, fun k => ?_, ?_⟩
  · have hlt := pairwise_lt_mergeSort hne
    rw [← hmap, List.pairwise_map] at hlt
    exact List.pairwise_map.2 (hlt.imp fun h => UInt64.lt_iff_toNat_lt'.2 h)
  · simp only [List.mem_map, hmemS, F, List.mem_filter]
    constructor
    · rintro ⟨e, ⟨he, hge⟩, rfl⟩
      rw [hkey e he, keyLt_heightKey] at hge
      refine ⟨by simpa [UInt64.lt_iff_toNat_lt', UInt64.le_iff_toNat_le'] using hge, ?_⟩
      rw [← hkey e he]
      exact AList.mem_keys.2 (List.mem_keys_of_mem he)
    · rintro ⟨hk, hmem⟩
      obtain ⟨b, hb⟩ := Option.isSome_iff_exists.1 (AList.lookup_isSome.2 hmem)
      refine ⟨⟨Store.heightKey k, b⟩, ⟨AList.mem_lookup_iff.1 hb, ?_⟩, Store.keyToHeight_heightKey k⟩
      rw [keyLt_heightKey]
      simpa [UInt64.lt_iff_toNat_lt', UInt64.le_iff_toNat_le'] using hk
  · rw [List.map_map, Store.getBlocksFrom, List.map_map]
    refine List.map_congr_left fun e he => ?_
    show s.blocks.lookup (Store.heightKey (Store.keyToHeight e.1)) = some e.2
    rw [← hkey e (hsorted e he)]
    exact AList.mem_lookup_iff.2 (hsorted e he)

theorem Store.getBlocksFrom_of_keys {s : Store} {best : UInt64}
    (hkeys : ∀ key, key ∈ s.blocks ↔ ∃ k : UInt64, k ≤ best ∧ key = Store.heightKey k) (start : UInt64) :
    s.getBlocksFrom start = (List.range' start.toNat (best.toNat + 1 - start.toNat)).filterMap
      fun n => s.getBlockByHeight (UInt64.ofNat n) := by
  obtain ⟨hs, hsorted, hmem, hmap⟩ :=
    s.getBlocksFrom_heightKeyed (fun key hk => ((hkeys key).1 hk).imp fun _ => And.right) start
  have hbest : best.toNat < 2 ^ 64 := best.toNat_lt_size
  have hofNat : ∀ m ≤ best.toNat, (UInt64.ofNat m).toNat = m := fun m hm => by
    rw [UInt64.toNat_ofNat', Nat.mod_eq_of_lt (by omega)]
  have hR : ((List.range' start.toNat (best.toNat + 1 - start.toNat)).map UInt64.ofNat).Pairwise (· < ·) :=
    List.pairwise_map.2 ((List.pairwise_lt_range' _ _).imp_of_mem fun ha hb hab => by
      rw [List.mem_range'_1] at ha hb
      rwa [UInt64.lt_iff_toNat_lt', hofNat _ (by omega), hofNat _ (by omega)])
  have hnodup : ∀ {l : List UInt64}, l.Pairwise (· < ·) → l.Nodup := fun h =>
    h.imp fun hab he => by subst he; exact UInt64.lt_irrefl _ hab
  have hanti : IsAntisymm UInt64 (· < ·) := ⟨fun a _ h h' => absurd (UInt64.lt_trans h h') (UInt64.lt_irrefl a)⟩
  -- the cursor reads each height from `start` to `best` once, in increasing order
  have hrange : hs = (List.range' start.toNat (best.toNat + 1 - start.toNat)).map UInt64.ofNat := by
    refine List.eq_of_perm_of_sorted ((List.perm_ext_iff_of_nodup (hnodup hsorted) (hnodup hR)).2 fun k => ?_)
      hsorted hR
    simp only [hmem, hkeys, Store.heightKey_inj, exists_eq_right', List.mem_map, List.mem_range'_1,
      UInt64.le_iff_toNat_le']
    constructor
    · rintro ⟨hk, hb⟩
      exact ⟨k.toNat, ⟨hk, by omega⟩, UInt64.ofNat_toNat' k⟩
    · rintro ⟨m, ⟨h1, h2⟩, rfl⟩
      rw [hofNat m (by omega)]
      omega
  calc s.getBlocksFrom start = ((s.getBlocksFrom start).map some).filterMap id := by simp
    _ = _ := by rw [← hmap, hrange, List.map_map, List.filterMap_map]; rfl

namespace Blockchain

/-- The blocks bucket holds exactly the heights up to a best height below `2 ^ 63`, and
every entry of `block_hashes` names a stored block with that hash. -/
structure HashIndexSound (bc : Blockchain) : Prop where
  best : ∃ best : UInt64, bc.store.bestHeight = some (Store.heightKey best) ∧ best.toNat < 2 ^ 63 ∧
    ∀ key, key ∈ bc.store.blocks ↔ ∃ h : UInt64, h ≤ best ∧ key = Store.heightKey h
  hashes : ∀ x key, bc.store.blockHashes.lookup x = some key →
    ∃ b, bc.store.blocks.lookup key = some b ∧ b.hash = x

theorem HashIndexSound.of_store_eq {bc bc' : Blockchain} (h : bc.HashIndexSound) (hstore : bc'.store = bc.store) :
    bc'.HashIndexSound := by
  obtain ⟨h₁, h₂⟩ := h
  exact ⟨hstore ▸ h₁, hstore ▸ h₂⟩

theorem hashIndexSound_genesisState (cfg : NetworkConfig) (now : BitVec 64) :
    (genesisState cfg now).HashIndexSound where
  best := ⟨0, rfl, by decide, fun key => by
    show key ∈ (∅ : Bucket (List UInt8) Block).insert _ _ ↔ _
    rw [AList.mem_insert]
    constructor
    · rintro (rfl | hmem)
      · exact ⟨0, Nat.le_refl _, rfl⟩
      · exact absurd hmem (AList.not_mem_empty _)
    · rintro ⟨h, hh, rfl⟩
      exact .inl (congrArg Store.heightKey (UInt64.eq_iff_toNat_eq'.2 (Nat.le_zero.1 hh)))⟩
  hashes x key hx := by
    change ((∅ : Bucket String (List UInt8)).insert (createGenesisBlock cfg now).hash _).lookup x = _ at hx
    by_cases hxg : x = (createGenesisBlock cfg now).hash
    · subst hxg
      rw [AList.lookup_insert] at hx
      obtain rfl := Option.some.inj hx
      exact ⟨_, AList.lookup_insert _, rfl⟩
    · rw [AList.lookup_insert_ne hxg] at hx
      exact absurd hx (by simp)

theorem HashIndexSound.fresh {bc : Blockchain} {block : Block} (h : bc.HashIndexSound) (hv : bc.Valid block) :
    ∃ best : UInt64, best.toNat < 2 ^ 63 ∧ (∀ key, key ∈ bc.store.blocks ↔ ∃ k : UInt64, k ≤ best ∧ key = Store.heightKey k) ∧
      block.header.height.toNat = best.toNat + 1 ∧ Store.heightKey block.header.height ∉ bc.store.blocks := by
  obtain ⟨best, hbest, hlt, hkeys⟩ := h.best
  have hheight : block.header.height.toNat = best.toNat + 1 := by
    rw [hv.height, Store.toNat_getBlockCount_of hbest hlt]
  refine ⟨best, hlt, hkeys, hheight, fun hmem => ?_⟩
  obtain ⟨k, hk, heq⟩ := (hkeys _).1 hmem
  rw [Store.heightKey_inj] at heq
  rw [UInt64.le_iff_toNat_le', ← heq] at hk
  omega

theorem HashIndexSound.committed_of_lt {bc : Blockchain} {block : Block} (h : bc.HashIndexSound)
    (hv : bc.Valid block) (hnew : block.header.height.toNat < 2 ^ 63) : (bc.committed block).HashIndexSound := by
  obtain ⟨best, -, hkeys, hheight, hfresh⟩ := h.fresh hv
  refine ⟨⟨block.header.height, rfl, hnew, fun key => ?_⟩, fun x key hx => ?_⟩
  · show key ∈ bc.store.blocks.insert _ block ↔ _
    rw [AList.mem_insert, hkeys]
    constructor
    · rintro (rfl | ⟨k, hk, rfl⟩)
      · exact ⟨_, Nat.le_refl _, rfl⟩
      · exact ⟨k, UInt64.le_iff_toNat_le'.2 (by rw [UInt64.le_iff_toNat_le'] at hk; omega), rfl⟩
    · rintro ⟨k, hk, rfl⟩
      by_cases hkc : k = block.header.height
      · exact .inl (congrArg Store.heightKey hkc)
      · have hkc' : k.toNat ≠ block.header.height.toNat := mt UInt64.eq_iff_toNat_eq'.2 hkc
        rw [UInt64.le_iff_toNat_le'] at hk
        exact .inr ⟨k, UInt64.le_iff_toNat_le'.2 (by omega), rfl⟩
  · change (bc.store.blockHashes.insert block.hash _).lookup x = _ at hx
    show ∃ b, (bc.store.blocks.insert (Store.heightKey block.header.height) block).lookup key = some b ∧ b.hash = x
    by_cases hxb : x = block.hash
    · subst hxb
      rw [AList.lookup_insert] at hx
      obtain rfl := Option.some.inj hx
      exact ⟨block, AList.lookup_insert _, rfl⟩
    · rw [AList.lookup_insert_ne hxb] at hx
      obtain ⟨b, hb, rfl⟩ := h.hashes x key hx
      have hkey : key ≠ Store.heightKey block.header.height := fun heq =>
        hfresh (heq ▸ AList.lookup_isSome.1 (by rw [hb]; rfl))
      exact ⟨b, by rw [AList.lookup_insert_ne hkey, hb], rfl⟩

theorem HashIndexSound.committed {bc : Blockchain} {block : Block} (h : bc.HashIndexSound) (hv : bc.Valid block)
    (hbelow : (bc.committed block).store.getBlockByHeight (UInt64.ofNat (2 ^ 63)) = none) :
    (bc.committed block).HashIndexSound := by
  obtain ⟨best, hlt, -, hheight, -⟩ := h.fresh hv
  have := (below_of_committed_below hbelow).1
  exact h.committed_of_lt hv (by omega)

theorem reachable_hashIndexSound {cfg : NetworkConfig} {bc : Blockchain} (h : Reachable cfg bc) :
    bc.store.getBlockByHeight (UInt64.ofNat (2 ^ 63)) = none → bc.HashIndexSound := by
  induction h with
  | genesis now _ _ hnew =>
    obtain ⟨-, rfl⟩ := newBlockchain_empty.1 hnew
    exact fun _ => hashIndexSound_genesisState cfg now
  | submit tx _ ih =>
    rw [submit_store]
    exact fun hbelow => (ih hbelow).of_store_eq (submit_store _ tx)
  | @addBlock bc block disk _ ih =>
    intro hbelow
    rcases addBlock_cases bc block disk with ⟨-, hs, -⟩ | ⟨-, hs, -⟩ | ⟨hv, -, -, hs⟩ <;> rw [hs] at hbelow ⊢
    · exact ih hbelow
    · exact (ih hbelow).of_store_eq (applied_store _ _)
    · exact (ih (below_of_committed_below hbelow).2).committed hv hbelow

theorem HashIndexSound.getBestHeight {bc : Blockchain} (h : bc.HashIndexSound) :
    ∃ best : UInt64, bc.store.getBestHeight = best.toNat ∧
      ∀ key, key ∈ bc.store.blocks ↔ ∃ k : UInt64, k ≤ best ∧ key = Store.heightKey k := by
  obtain ⟨best, hbest, hlt, hkeys⟩ := h.best
  refine ⟨best, ?_, hkeys⟩
  simp only [Store.getBestHeight, hbest, Store.keyToHeight_heightKey, int64OfUInt64_eq, if_pos hlt]

theorem HashIndexSound.getBlockByHash {bc : Blockchain} (h : bc.HashIndexSound) (x : String) :
    bc.store.getBlockByHash x = none ∨ ∃ b, bc.store.getBlockByHash x = some b ∧ b.hash = x := by
  unfold Store.getBlockByHash
  cases hx : bc.store.blockHashes.lookup x with
  | none => exact .inl rfl
  | some key =>
    obtain ⟨b, hb, hhash⟩ := h.hashes x key hx
    exact .inr ⟨b, by rw [Option.some_bind, hb], hhash⟩

theorem HashIndexSound.mem_getBlocksFrom {bc : Blockchain} (h : bc.HashIndexSound) {start : UInt64} {b : Block}
    (hb : b ∈ bc.store.getBlocksFrom start) :
    ∃ k : UInt64, start ≤ k ∧ (k.toNat : Int) ≤ bc.store.getBestHeight ∧ bc.store.getBlockByHeight k = some b := by
  obtain ⟨best, hread, hkeys⟩ := h.getBestHeight
  obtain ⟨e, he, rfl⟩ := List.mem_map.1 hb
  rw [List.mem_mergeSort, List.mem_filter] at he
  obtain ⟨hmem, hge⟩ := he
  obtain ⟨k, hk, hkey⟩ := (hkeys e.1).1 (AList.mem_keys.2 (List.mem_keys_of_mem hmem))
  have hstart : start ≤ k := by
    rw [hkey, keyLt_heightKey] at hge
    simp only [Bool.not_eq_true', decide_eq_false_iff_not, UInt64.lt_iff_toNat_lt'] at hge
    exact UInt64.le_iff_toNat_le'.2 (Nat.le_of_not_lt hge)
  refine ⟨k, hstart, by rw [hread]; exact_mod_cast hk, ?_⟩
  rw [Store.getBlockByHeight, ← hkey]
  exact AList.mem_lookup_iff.2 hmem

/-- The blocks bucket and the hash index stay consistent on every reachable state. -/
theorem reachable_block_indexes {cfg : NetworkConfig} {bc : Blockchain} (h : Reachable cfg bc)
    (hbelow : bc.store.getBlockByHeight (UInt64.ofNat (2 ^ 63)) = none) :
    (∀ key, key ∈ bc.store.blocks ↔ ∃ k : UInt64, (k.toNat : Int) ≤ bc.store.getBestHeight ∧ key = Store.heightKey k) ∧
      (∀ x key, bc.store.blockHashes.lookup x = some key → ∃ b, bc.store.blocks.lookup key = some b ∧ b.hash = x) ∧
      (∀ x, bc.store.getBlockByHash x = none ∨ ∃ b, bc.store.getBlockByHash x = some b ∧ b.hash = x) ∧
      (∀ start b, b ∈ bc.store.getBlocksFrom start → ∃ k : UInt64, start ≤ k ∧
        (k.toNat : Int) ≤ bc.store.getBestHeight ∧ bc.store.getBlockByHeight k = some b) := by
  have hs := reachable_hashIndexSound h hbelow
  obtain ⟨best, hread, hkeys⟩ := hs.getBestHeight
  refine ⟨fun key => (hkeys key).trans (exists_congr fun k => ?_), hs.hashes, hs.getBlockByHash,
    fun _ _ hb => hs.mem_getBlocksFrom hb⟩
  rw [hread, Nat.cast_le]
  rfl

theorem reachable_block_indexes_spendsBlock :
    Reachable NetworkConfig.permissive ((twoSpends "t1" "t2").committed (spendsBlock "t1" "t2")) ∧
      ((twoSpends "t1" "t2").committed (spendsBlock "t1" "t2")).store.getBlockByHeight (UInt64.ofNat (2 ^ 63)) = none ∧
      (∀ key, key ∈ ((twoSpends "t1" "t2").committed (spendsBlock "t1" "t2")).store.blocks ↔
        ∃ k : UInt64, (k.toNat : Int) ≤ ((twoSpends "t1" "t2").committed (spendsBlock "t1" "t2")).store.getBestHeight ∧
          key = Store.heightKey k) ∧
      (∀ x key, ((twoSpends "t1" "t2").committed (spendsBlock "t1" "t2")).store.blockHashes.lookup x = some key →
        ∃ b, ((twoSpends "t1" "t2").committed (spendsBlock "t1" "t2")).store.blocks.lookup key = some b ∧ b.hash = x) ∧
      (∀ x, ((twoSpends "t1" "t2").committed (spendsBlock "t1" "t2")).store.getBlockByHash x = none ∨
        ∃ b, ((twoSpends "t1" "t2").committed (spendsBlock "t1" "t2")).store.getBlockByHash x = some b ∧ b.hash = x) ∧
      (∀ start b, b ∈ ((twoSpends "t1" "t2").committed (spendsBlock "t1" "t2")).store.getBlocksFrom start →
        ∃ k : UInt64, start ≤ k ∧
          (k.toNat : Int) ≤ ((twoSpends "t1" "t2").committed (spendsBlock "t1" "t2")).store.getBestHeight ∧
          ((twoSpends "t1" "t2").committed (spendsBlock "t1" "t2")).store.getBlockByHeight k = some b) := by
  have hbelow : ((twoSpends "t1" "t2").committed (spendsBlock "t1" "t2")).store.getBlockByHeight
      (UInt64.ofNat (2 ^ 63)) = none := by
    rw [getBlockByHeight_committed_of_ne (by rw [spendsBlock_header_height]; decide), twoSpends_eq]
    show ((genesisState NetworkConfig.permissive 0).committed firstBlock).store.getBlockByHeight _ = none
    rw [getBlockByHeight_committed_of_ne (by rw [firstBlock_header_height]; decide)]
    exact getBlockByHeight_genesisState_of_ne _ _ (by decide)
  exact ⟨reachable_spendsBlock, hbelow, reachable_block_indexes reachable_spendsBlock hbelow⟩

theorem reachable_heightKeyed {cfg : NetworkConfig} {bc : Blockchain} (h : Reachable cfg bc) :
    bc.store.HeightKeyed := by
  induction h with
  | genesis now _ _ hnew =>
    obtain ⟨-, rfl⟩ := newBlockchain_empty.1 hnew
    exact Store.HeightKeyed.applyCommit (fun _ hkey => absurd hkey (AList.not_mem_empty _)) _
  | submit tx _ ih => rwa [submit_store]
  | @addBlock bc block disk _ ih =>
    rcases addBlock_cases bc block disk with ⟨-, hs, -⟩ | ⟨-, hs, -⟩ | ⟨-, -, -, hs⟩ <;> rw [hs]
    · exact ih
    · exact ih
    · exact ih.applyCommit _

/-- Height keys sort as the heights do, so `GetBlocksFrom` reads the blocks in height order. -/
theorem heightKey_order_cursor :
    (∀ a : UInt64, Store.keyToHeight (Store.heightKey a) = a) ∧
      (∀ a b : UInt64, a < b ↔ Store.keyLt (Store.heightKey a) (Store.heightKey b) = true) ∧
      (∀ s : Store, s.HeightKeyed → ∀ start : UInt64,
        ∃ hs : List UInt64, hs.Pairwise (· < ·) ∧ (∀ k, k ∈ hs ↔ start ≤ k ∧ Store.heightKey k ∈ s.blocks) ∧
          hs.map s.getBlockByHeight = (s.getBlocksFrom start).map some) ∧
      ∀ (cfg : NetworkConfig) (bc : Blockchain), Reachable cfg bc → bc.store.HeightKeyed :=
  ⟨Store.keyToHeight_heightKey, fun a b => by rw [keyLt_heightKey, decide_eq_true_iff],
    fun _ hkeys start => Store.getBlocksFrom_heightKeyed hkeys start, fun _ _ h => reachable_heightKeyed h⟩

theorem heightKey_order_cursor_spendsBlock :
    Reachable NetworkConfig.permissive ((twoSpends "t1" "t2").committed (spendsBlock "t1" "t2")) ∧
      ((twoSpends "t1" "t2").committed (spendsBlock "t1" "t2")).store.HeightKeyed ∧
      ∃ hs : List UInt64, hs.Pairwise (· < ·) ∧
        (∀ k, k ∈ hs ↔ 1 ≤ k ∧
          Store.heightKey k ∈ ((twoSpends "t1" "t2").committed (spendsBlock "t1" "t2")).store.blocks) ∧
        hs.map ((twoSpends "t1" "t2").committed (spendsBlock "t1" "t2")).store.getBlockByHeight =
          (((twoSpends "t1" "t2").committed (spendsBlock "t1" "t2")).store.getBlocksFrom 1).map some := by
  have hkeys := heightKey_order_cursor.2.2.2 _ _ reachable_spendsBlock
  exact ⟨reachable_spendsBlock, hkeys, heightKey_order_cursor.2.2.1 _ hkeys 1⟩

end Blockchain

theorem failed_migration_breaks_block_indexes :
    ∃ bc, newBlockchain NetworkConfig.permissive Store.empty (some legacyChain) 0 failsThirdCommit .ok = some bc ∧
      bc.store.getBlockByHash "legacy-0" = some (createGenesisBlock NetworkConfig.permissive 0) ∧
      (createGenesisBlock NetworkConfig.permissive 0).hash ≠ "legacy-0" ∧
      bc.store.getBestHeight = 0 ∧ bc.store.getBlockByHeight 1 = some (legacyBlock 1 "legacy-1" "cb-1") ∧
      legacyBlock 1 "legacy-1" "cb-1" ∈ bc.store.getBlocksFrom 0 := by
  have hok : ∀ j < 2, failsThirdCommit j = .ok := fun _ hj => if_pos hj
  have hsecond : (legacyChain.blocks.take 2).getLast? = some (legacyBlock 1 "legacy-1" "cb-1") := rfl
  have hlen : (createGenesisBlock NetworkConfig.permissive 0).hash.length = 64 := length_computeHash _
  have hne : (createGenesisBlock NetworkConfig.permissive 0).hash ≠ "legacy-0" := fun heq => by
    rw [heq] at hlen
    exact absurd hlen (by decide)
  set store := (migrationStop legacyChain 2).applyCommit (genesisCommit (createGenesisBlock NetworkConfig.permissive 0))
  have hone : store.getBlockByHeight 1 = some (legacyBlock 1 "legacy-1" "cb-1") := by
    rw [Store.getBlockByHeight_applyCommit, if_neg (by decide)]
    exact (migrationStop_store hsecond).2.1
  refine ⟨_, newBlockchain_migration_fault keysValid_legacyChain (by decide) hok rfl 0, ?_, hne, ?_, hone, ?_⟩
  · show (store.blockHashes.lookup "legacy-0").bind (fun hk => store.blocks.lookup hk) = _
    have hlegacy : (migrationStop legacyChain 2).blockHashes.lookup "legacy-0" = some (Store.heightKey 0) := rfl
    rw [show store.blockHashes = AList.insert (createGenesisBlock NetworkConfig.permissive 0).hash (Store.heightKey 0)
      (migrationStop legacyChain 2).blockHashes from rfl,
      AList.lookup_insert_ne (Ne.symm hne), hlegacy, Option.some_bind]
    exact AList.lookup_insert _
  · show store.getBestHeight = 0
    simp only [Store.getBestHeight, show store.bestHeight = some (Store.heightKey 0) from rfl,
      Store.keyToHeight_heightKey]
    rfl
  · refine List.mem_map.2 ⟨⟨Store.heightKey 1, legacyBlock 1 "legacy-1" "cb-1"⟩, ?_, rfl⟩
    rw [List.mem_mergeSort, List.mem_filter, keyLt_heightKey]
    exact ⟨AList.mem_lookup_iff.1 hone, by decide⟩

end DevInsiderCoin
