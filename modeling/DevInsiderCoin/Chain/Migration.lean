import DevInsiderCoin.Chain.Reload

/-! Migration from a legacy `blockchain.json`. `migrateFromJSON` commits the legacy blocks
one write transaction each, and writes the balances, the stakes and the minted total only
with the last one. The store has data from the first commit on, so wherever the migration
stops short of the last commit the next `NewBlockchain` loads what is there: the blocks
committed so far, with no balances, no stakes and nothing minted. A failed commit does not
leave even that: `NewBlockchain` falls back to its genesis path and commits a genesis
block at height 0 over the blocks already migrated.
-/

set_option autoImplicit false

namespace DevInsiderCoin

namespace LegacyChain

def commitPrefix (data : LegacyChain) (blocks : List Block) (s : Store) : Store :=
  blocks.foldl (fun s b => s.applyCommit (data.commitFor b false)) s

@[simp] theorem commitPrefix_nil (data : LegacyChain) (s : Store) : data.commitPrefix [] s = s := rfl

theorem commitPrefix_cons (data : LegacyChain) (b : Block) (blocks : List Block) (s : Store) :
    data.commitPrefix (b :: blocks) s = data.commitPrefix blocks (s.applyCommit (data.commitFor b false)) := rfl

theorem commitPrefix_concat (data : LegacyChain) (blocks : List Block) (b : Block) (s : Store) :
    data.commitPrefix (blocks ++ [b]) s = (data.commitPrefix blocks s).applyCommit (data.commitFor b false) :=
  List.foldl_concat _ _ _ _

@[simp] theorem commitPrefix_balances (data : LegacyChain) (blocks : List Block) (s : Store) :
    (data.commitPrefix blocks s).balances = s.balances := by
  induction blocks generalizing s with
  | nil => rfl
  | cons b blocks ih => exact ih _

@[simp] theorem commitPrefix_stakes (data : LegacyChain) (blocks : List Block) (s : Store) :
    (data.commitPrefix blocks s).stakes = s.stakes := by
  induction blocks generalizing s with
  | nil => rfl
  | cons b blocks ih => exact ih _

def KeysValid (data : LegacyChain) : Prop :=
  ∀ b ∈ data.blocks, ∀ last, Store.KeysValid (data.commitFor b last)

end LegacyChain

open LegacyChain

theorem migrateCommits_stop {disk : Nat → Disk} {data : LegacyChain} :
    ∀ (blocks : List Block) (i k : Nat) (s : Store), (∀ b ∈ blocks, ∀ last, Store.KeysValid (data.commitFor b last)) →
      k < blocks.length → (∀ j < k, disk (i + j) = .ok) → disk (i + k) = .fault →
      migrateCommits disk data i blocks s = (data.commitPrefix (blocks.take k) s, false)
  | [], _, _, _, _, hk, _, _ => absurd hk (Nat.not_lt_zero _)
  | b :: rest, i, 0, s, hkeys, _, _, hfault => by
    rw [migrateCommits, show disk i = .fault from hfault, Store.commitBlock_fault_of_keysValid _ (hkeys b (List.mem_cons_self _ _) _)]
    rfl
  | b :: rest, i, k + 1, s, hkeys, hk, hok, hfault => by
    have hrest : rest ≠ [] := List.ne_nil_of_length_pos (by simp at hk; omega)
    have hdisk : disk i = .ok := hok 0 (Nat.succ_pos k)
    rw [migrateCommits, hdisk, Store.commitBlock_of_keysValid _ (hkeys b (List.mem_cons_self _ _) _)]
    simp only [hrest, decide_False, List.take_succ_cons, commitPrefix_cons]
    exact migrateCommits_stop rest (i + 1) k _ (fun b' hb' => hkeys b' (List.mem_cons_of_mem _ hb'))
      (by simp at hk; omega) (fun j hj => by rw [Nat.add_right_comm]; exact hok (j + 1) (by omega))
      (by rw [Nat.add_right_comm]; exact hfault)

theorem migrateCommits_complete {disk : Nat → Disk} {data : LegacyChain} (hdisk : ∀ j, disk j = .ok) (tip : Block) :
    ∀ (pre : List Block) (i : Nat) (s : Store), (∀ b ∈ pre ++ [tip], ∀ last, Store.KeysValid (data.commitFor b last)) →
      migrateCommits disk data i (pre ++ [tip]) s = ((data.commitPrefix pre s).applyCommit (data.commitFor tip true), true)
  | [], i, s, hkeys => by
    rw [List.nil_append, migrateCommits, hdisk, Store.commitBlock_of_keysValid _ (hkeys tip (List.mem_singleton_self _) _)]
    rfl
  | b :: pre, i, s, hkeys => by
    rw [List.cons_append, migrateCommits, hdisk, Store.commitBlock_of_keysValid _ (hkeys b (List.mem_cons_self _ _) _)]
    simp only [List.append_ne_nil_of_right_ne_nil pre (List.cons_ne_nil tip []), decide_False, commitPrefix_cons]
    exact migrateCommits_complete hdisk tip pre (i + 1) _ fun b' hb' => hkeys b' (List.mem_cons_of_mem _ hb')

/-! ## Where the migration can stop -/

/-- The store a migration leaves when it stops after its first `k` commits, `k` short of
the last: by a crash between two commits, or by the disk failing commit `k`. -/
def migrationStop (data : LegacyChain) (k : Nat) : Store := data.commitPrefix (data.blocks.take k) Store.empty

theorem migrationStop_store {data : LegacyChain} {k : Nat} {tip : Block}
    (htip : (data.blocks.take k).getLast? = some tip) :
    (migrationStop data k).bestHeight = some (Store.heightKey tip.header.height) ∧
      (migrationStop data k).getBlockByHeight tip.header.height = some tip ∧
      (migrationStop data k).balances = ∅ ∧ (migrationStop data k).stakes = ∅ ∧
      (migrationStop data k).totalMinted = some 0 := by
  obtain ⟨pre, hpre⟩ := List.getLast?_eq_some_iff.1 htip
  rw [migrationStop, hpre, commitPrefix_concat]
  exact ⟨rfl, (Store.getBlockByHeight_applyCommit _ _ _).trans (if_pos rfl), commitPrefix_balances _ _ _,
    commitPrefix_stakes _ _ _, congrArg some (bytesToFloat_floatToBytes finite64_zero)⟩

theorem migrateFromJSON_stop {cfg : NetworkConfig} {data : LegacyChain} {disk : Nat → Disk} {k : Nat}
    (hkeys : data.KeysValid) (hk : k < data.blocks.length) (hok : ∀ j < k, disk j = .ok)
    (hfault : disk k = .fault) :
    migrateFromJSON cfg Store.empty (some data) disk = .inr (migrationStop data k) := by
  have hne : data.blocks ≠ [] := List.ne_nil_of_length_pos (by omega)
  obtain ⟨tip, htip⟩ := Option.ne_none_iff_exists'.1 (mt List.getLast?_eq_none_iff.1 hne)
  have hstop := @migrateCommits_stop disk data data.blocks 0 k Store.empty hkeys hk
    (fun j hj => by simpa using hok j hj) (by simpa using hfault)
  simp only [migrateFromJSON, htip, hstop, Bool.false_eq_true, if_false]
  rfl

theorem newBlockchain_migrationStop {cfg : NetworkConfig} {data : LegacyChain} {k : Nat} {tip : Block}
    (htip : (data.blocks.take k).getLast? = some tip) (hheight : tip.header.height.toNat < 2 ^ 63)
    (legacy : Option LegacyChain) (now : BitVec 64) (migrationDisk : Nat → Disk) (genesisDisk : Disk) :
    newBlockchain cfg (migrationStop data k) legacy now migrationDisk genesisDisk =
      some ⟨cfg, migrationStop data k, ∅, ⟨∅⟩, [], 0, some tip⟩ := by
  obtain ⟨hbest, hblock, hbal, hstakes, hminted⟩ := migrationStop_store htip
  have hread : (migrationStop data k).getBestHeight = tip.header.height.toNat := by
    simp only [Store.getBestHeight, hbest, Store.keyToHeight_heightKey, int64OfUInt64_eq, if_pos hheight]
  rw [newBlockchain, Store.hasData_of hbest, if_pos (decide_eq_true hheight)]
  simp only [Blockchain.load, Blockchain.fresh, hbal, hstakes, Store.getTotalMinted, hminted, Option.getD_some,
    hread, Int.toNat_ofNat, UInt64.ofNat_toNat', hblock]

theorem newBlockchain_migration_fault {cfg : NetworkConfig} {data : LegacyChain} {disk : Nat → Disk} {k : Nat}
    (hkeys : data.KeysValid) (hk : k < data.blocks.length) (hok : ∀ j < k, disk j = .ok)
    (hfault : disk k = .fault) (now : BitVec 64) :
    newBlockchain cfg Store.empty (some data) now disk .ok =
      some { Blockchain.fresh cfg ((migrationStop data k).applyCommit (genesisCommit (createGenesisBlock cfg now))) with
        lastBlock := some (createGenesisBlock cfg now) } := by
  rw [newBlockchain, if_neg (by decide), migrateFromJSON_stop hkeys hk hok hfault]
  exact bootstrapGenesis_eq_some.2 ⟨_, Store.commitBlock_of_keysValid _ (keysValid_genesisCommit cfg now), rfl⟩

theorem newBlockchain_migration_complete {cfg : NetworkConfig} {data : LegacyChain} {disk : Nat → Disk}
    {pre : List Block} {tip : Block} (hblocks : data.blocks = pre ++ [tip]) (hkeys : data.KeysValid)
    (hdisk : ∀ j, disk j = .ok) (now : BitVec 64) (genesisDisk : Disk) :
    newBlockchain cfg Store.empty (some data) now disk genesisDisk =
      some ⟨cfg, (data.commitPrefix pre Store.empty).applyCommit (data.commitFor tip true),
        data.balances.getD ∅, ⟨data.stakes.getD ∅⟩, [], data.totalMinted, some tip⟩ := by
  have hall := migrateCommits_complete hdisk tip pre 0 Store.empty (by rw [← hblocks]; exact hkeys)
  rw [← hblocks] at hall
  rw [newBlockchain, if_neg (by decide), migrateFromJSON]
  simp only [hblocks, List.getLast?_concat]
  rw [← hblocks, hall]
  rfl

theorem lookup_commitFor_stakes (data : LegacyChain) (b : Block) (a : String) :
    (data.commitFor b true).stakes.lookup a = ((data.stakes.getD ∅).lookup a).map stakeJSON :=
  (AList.lookup_to_alist _).trans
    (@List.dlookup_map₂ String _ (fun _ => Stake) (fun _ => Option Stake) _ (fun _ => stakeJSON) a)

theorem LegacyChain.finite_balances (data : LegacyChain) {a : String} {v : ℚ}
    (h : (data.balances.getD ∅).lookup a = some v) : Finite64 v := by
  cases hb : data.balances with
  | none => rw [hb] at h; cases h
  | some bs => rw [hb] at h; exact data.balances_finite bs hb a v h

theorem LegacyChain.finite_stakes (data : LegacyChain) {a : String} {st : Stake}
    (h : (data.stakes.getD ∅).lookup a = some st) : Finite64 st.amount := by
  cases hs : data.stakes with
  | none => rw [hs] at h; cases h
  | some ss => rw [hs] at h; exact data.stakes_finite ss hs a st h

theorem LegacyChain.lookup_balances_roundTrip (data : LegacyChain) (a : String) :
    ((data.balances.getD ∅).lookup a).map (fun v => bytesToFloat (floatToBytes v)) =
      (data.balances.getD ∅).lookup a := by
  cases h : (data.balances.getD ∅).lookup a with
  | none => rfl
  | some v => exact congrArg some (bytesToFloat_floatToBytes (data.finite_balances h))

theorem LegacyChain.lookup_stakes_json (data : LegacyChain) (a : String) :
    ((data.stakes.getD ∅).lookup a).bind stakeJSON = (data.stakes.getD ∅).lookup a := by
  cases h : (data.stakes.getD ∅).lookup a with
  | none => rfl
  | some st => exact stakeJSON_of_finite (data.finite_stakes h)

theorem newBlockchain_migrated {cfg : NetworkConfig} {data : LegacyChain} (pre : List Block) {tip : Block}
    (hheight : tip.header.height.toNat < 2 ^ 63) (legacy : Option LegacyChain) (now : BitVec 64)
    (migrationDisk : Nat → Disk) (genesisDisk : Disk) :
    ∃ bc, newBlockchain cfg ((data.commitPrefix pre Store.empty).applyCommit (data.commitFor tip true)) legacy now
        migrationDisk genesisDisk = some bc ∧
      (∀ a, bc.balances.lookup a = (data.balances.getD ∅).lookup a) ∧
      (∀ a, bc.stakes.stakes.lookup a = (data.stakes.getD ∅).lookup a) ∧
      bc.totalMinted = data.totalMinted ∧ bc.lastBlock = some tip := by
  set store := (data.commitPrefix pre Store.empty).applyCommit (data.commitFor tip true)
  have hbest : store.bestHeight = some (Store.heightKey tip.header.height) := rfl
  have hread : store.getBestHeight = tip.header.height.toNat := by
    simp only [Store.getBestHeight, hbest, Store.keyToHeight_heightKey, int64OfUInt64_eq, if_pos hheight]
  rw [newBlockchain, Store.hasData_of hbest, if_pos (decide_eq_true hheight)]
  refine ⟨_, rfl, fun a => ?_, fun a => ?_, ?_, ?_⟩
  · show store.balances.lookup a = _
    rw [Store.lookup_balances_applyCommit, commitPrefix_balances]
    exact Option.or_none.trans (data.lookup_balances_roundTrip a)
  · show store.stakes.lookup a = _
    rw [Store.lookup_stakes_applyCommit, commitPrefix_stakes, lookup_commitFor_stakes]
    refine Eq.trans ?_ (data.lookup_stakes_json a)
    cases (data.stakes.getD ∅).lookup a <;> rfl
  · exact (Store.getTotalMinted_applyCommit (data.commitPrefix pre Store.empty) _).trans
      (bytesToFloat_floatToBytes data.totalMinted_finite)
  · dsimp only [Blockchain.load]
    rw [hread, Int.toNat_ofNat, UInt64.ofNat_toNat', Store.getBlockByHeight_applyCommit]
    exact if_pos rfl

/-! ## A legacy file -/

def legacyBlock (height : UInt64) (hash txID : String) : Block :=
  ⟨⟨1, "", "", 0, 0x1F00FFFF, 0, height⟩, [⟨txID, "coinbase", "", "miner", 50, 0, 0, "", [⟨"miner", 50⟩]⟩], hash⟩

/-- A `blockchain.json` as the legacy `saveToDisk` writes it: three blocks, the balances,
no stakes, and no `total_minted`, which decodes as 0. -/
def legacyChain : LegacyChain where
  blocks := [legacyBlock 0 "legacy-0" "cb-0", legacyBlock 1 "legacy-1" "cb-1", legacyBlock 2 "legacy-2" "cb-2"]
  balances := some (AList.insert "miner" 150 ∅)
  stakes := some ∅
  totalMinted := 0
  balances_finite bs hbs a v h := by
    rw [Option.mem_def, Option.some_inj] at hbs
    subst hbs
    by_cases ha : a = "miner"
    · subst ha
      rw [AList.lookup_insert, Option.some_inj] at h
      subst h
      unfold Finite64 maxFloat64
      norm_num
    · rw [AList.lookup_insert_ne ha] at h
      cases h
  stakes_finite ss hss a _ h := by
    rw [Option.mem_def, Option.some_inj] at hss
    subst hss
    cases h
  totalMinted_finite := finite64_zero

theorem keysValid_legacyChain : legacyChain.KeysValid := by
  have hminer : checkKey "miner" = .ok () := rfl
  intro b hb last
  simp only [legacyChain, List.mem_cons, List.mem_singleton, List.not_mem_nil, or_false] at hb
  rcases hb with rfl | rfl | rfl <;> cases last <;>
    exact ⟨rfl, by simp [LegacyChain.commitFor, legacyChain, hminer], fun _ he _ => absurd he (List.not_mem_nil _),
      by simp [LegacyChain.commitFor, collectTxIDs, legacyBlock]; rfl⟩

/-! ## Every stop point -/

/-- Where `migrateFromJSON` stops decides what `NewBlockchain` continues from. -/
theorem migration_stop_points {cfg : NetworkConfig} {data : LegacyChain} (hkeys : data.KeysValid)
    {pre : List Block} {tip : Block} (hblocks : data.blocks = pre ++ [tip]) (hheight : ∀ b ∈ data.blocks, b.header.height.toNat < 2 ^ 63)
    (now : BitVec 64) (legacy : Option LegacyChain) (migrationDisk : Nat → Disk) (genesisDisk : Disk) :
    newBlockchain cfg Store.empty (some data) now (fun _ => .ok) genesisDisk =
        some ⟨cfg, (data.commitPrefix pre Store.empty).applyCommit (data.commitFor tip true),
          data.balances.getD ∅, ⟨data.stakes.getD ∅⟩, [], data.totalMinted, some tip⟩ ∧
      (∃ bc, newBlockchain cfg ((data.commitPrefix pre Store.empty).applyCommit (data.commitFor tip true)) legacy now
          migrationDisk genesisDisk = some bc ∧
        (∀ a, bc.balances.lookup a = (data.balances.getD ∅).lookup a) ∧
        (∀ a, bc.stakes.stakes.lookup a = (data.stakes.getD ∅).lookup a) ∧
        bc.totalMinted = data.totalMinted ∧ bc.lastBlock = some tip) ∧
      (∀ k last, k < data.blocks.length → (data.blocks.take k).getLast? = some last →
        newBlockchain cfg (migrationStop data k) legacy now migrationDisk genesisDisk =
          some ⟨cfg, migrationStop data k, ∅, ⟨∅⟩, [], 0, some last⟩) ∧
      (∀ k (disk : Nat → Disk), k < data.blocks.length → (∀ j < k, disk j = .ok) → disk k = .fault →
        newBlockchain cfg Store.empty (some data) now disk .ok =
          some { Blockchain.fresh cfg ((migrationStop data k).applyCommit (genesisCommit (createGenesisBlock cfg now))) with
            lastBlock := some (createGenesisBlock cfg now) }) :=
  ⟨newBlockchain_migration_complete hblocks hkeys (fun _ => rfl) now genesisDisk,
    newBlockchain_migrated pre (hheight tip (by rw [hblocks]; exact List.mem_concat_self _ _)) legacy now
      migrationDisk genesisDisk,
    fun _ _ _ hlast => newBlockchain_migrationStop hlast
      (hheight _ (List.mem_of_mem_take (List.mem_of_getLast?_eq_some hlast))) legacy now migrationDisk genesisDisk,
    fun _ _ hk hok hfault => newBlockchain_migration_fault hkeys hk hok hfault now⟩

theorem migration_stop_points_legacyChain :
    legacyChain.KeysValid ∧
      legacyChain.blocks = [legacyBlock 0 "legacy-0" "cb-0", legacyBlock 1 "legacy-1" "cb-1"] ++
        [legacyBlock 2 "legacy-2" "cb-2"] ∧
      (∀ b ∈ legacyChain.blocks, b.header.height.toNat < 2 ^ 63) ∧
      newBlockchain NetworkConfig.permissive (migrationStop legacyChain 2) none 0 (fun _ => .ok) .ok =
        some ⟨NetworkConfig.permissive, migrationStop legacyChain 2, ∅, ⟨∅⟩, [], 0,
          some (legacyBlock 1 "legacy-1" "cb-1")⟩ := by
  have hblocks : legacyChain.blocks = [legacyBlock 0 "legacy-0" "cb-0", legacyBlock 1 "legacy-1" "cb-1"] ++
      [legacyBlock 2 "legacy-2" "cb-2"] := rfl
  have hheight : ∀ b ∈ legacyChain.blocks, b.header.height.toNat < 2 ^ 63 := by decide
  have hsecond : (legacyChain.blocks.take 2).getLast? = some (legacyBlock 1 "legacy-1" "cb-1") := rfl
  exact ⟨keysValid_legacyChain, hblocks, hheight,
    (migration_stop_points keysValid_legacyChain hblocks hheight 0 none (fun _ => .ok) .ok).2.2.1 2 _ (by decide)
      hsecond⟩

/-! ## Where a legacy file stops -/

def failsThirdCommit (j : Nat) : Disk := if j < 2 then .ok else .fault

theorem legacy_migration_stopped_part_way :
    newBlockchain NetworkConfig.permissive (migrationStop legacyChain 1) (some legacyChain) 0 (fun _ => .ok) .ok =
        some ⟨NetworkConfig.permissive, migrationStop legacyChain 1, ∅, ⟨∅⟩, [], 0,
          some (legacyBlock 0 "legacy-0" "cb-0")⟩ ∧
      (legacyChain.balances.getD ∅).lookup "miner" = some 150 ∧
      ∃ bc, newBlockchain NetworkConfig.permissive Store.empty (some legacyChain) 0 failsThirdCommit .ok = some bc ∧
        bc.lastBlock = some (createGenesisBlock NetworkConfig.permissive 0) ∧
        bc.store.getBlockByHeight 1 = some (legacyBlock 1 "legacy-1" "cb-1") := by
  have hfirst : (legacyChain.blocks.take 1).getLast? = some (legacyBlock 0 "legacy-0" "cb-0") := rfl
  have hsecond : (legacyChain.blocks.take 2).getLast? = some (legacyBlock 1 "legacy-1" "cb-1") := rfl
  have hok : ∀ j < 2, failsThirdCommit j = .ok := fun _ hj => if_pos hj
  refine ⟨newBlockchain_migrationStop hfirst (by decide) _ _ _ _, rfl, _,
    newBlockchain_migration_fault keysValid_legacyChain (by decide) hok rfl 0, rfl, ?_⟩
  show ((migrationStop legacyChain 2).applyCommit _).getBlockByHeight 1 = _
  rw [Store.getBlockByHeight_applyCommit, if_neg (by decide)]
  exact (migrationStop_store hsecond).2.1

end DevInsiderCoin
