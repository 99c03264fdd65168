import DevInsiderCoin.Chain.AddBlock

/-! The delta `AddBlock` commits. For every address a block's transactions touch it records
the balance and the stake the address ends the block with (a stake gone is a delete), and
it mentions no other address: read over the balances and stakes before the block, it
gives back exactly the balances and stakes after it.
-/

set_option autoImplicit false

namespace DevInsiderCoin

def Transaction.touched (tx : Transaction) : List String :=
  if tx.type = "coinbase" ∨ tx.type = "pos_reward" then tx.outputs.map (·.address)
  else if tx.type = "transfer" then [tx.from, tx.to]
  else if tx.type = "stake" ∨ tx.type = "unstake" then [tx.from]
  else []

namespace StakeManager

theorem lookup_addStake_ne (sm : StakeManager) {a b : String} (amount : ℚ) (height : UInt64) (h : b ≠ a) :
    (sm.addStake a amount height).stakes.lookup b = sm.stakes.lookup b := by
  unfold addStake
  split <;> exact AList.lookup_insert_ne h

theorem lookup_removeStake_ne {sm sm' : StakeManager} {a b : String} {amount : ℚ}
    (hr : sm.removeStake a amount = .ok sm') (h : b ≠ a) : sm'.stakes.lookup b = sm.stakes.lookup b := by
  unfold removeStake at hr
  split at hr
  · contradiction
  · split at hr
    · contradiction
    · split at hr <;> cases hr
      · exact AList.lookup_erase_ne h
      · exact AList.lookup_insert_ne h

theorem lookup_removeStakeUnchecked_ne (sm : StakeManager) {a b : String} (amount : ℚ) (h : b ≠ a) :
    (sm.removeStakeUnchecked a amount).stakes.lookup b = sm.stakes.lookup b := by
  unfold removeStakeUnchecked
  split
  · exact lookup_removeStake_ne ‹_› h
  · rfl

end StakeManager

namespace Application

/-- `app` as a delta over the balances `base` and the stakes `baseStakes`: every address
reads as the delta records it, or as the base where the delta does not mention it (a stake
as its JSON), and the delta mentions only addresses in `keys`. -/
structure Tracks (base : Bucket String ℚ) (baseStakes : StakeManager) (keys : String → Prop)
    (app : Application) : Prop where
  balances : ∀ a, app.balances.lookup a = (app.changedBalances.lookup a).or (base.lookup a)
  stakes : ∀ a, (app.stakes.stakes.lookup a).bind stakeJSON =
    (app.changedStakes.lookup a).getD ((baseStakes.stakes.lookup a).bind stakeJSON)
  balanceKeys : ∀ a ∈ app.changedBalances.keys, keys a
  stakeKeys : ∀ a ∈ app.changedStakes.keys, keys a

section Tracks

variable {base : Bucket String ℚ} {baseStakes : StakeManager} {keys : String → Prop} {app : Application}

theorem mem_keys_insert {β : Type} {s : Bucket String β} {a k : String} {v : β}
    (h : k ∈ (s.insert a v).keys) : k = a ∨ k ∈ s.keys := by
  rw [AList.keys_insert, List.mem_cons] at h
  exact h.imp_right List.mem_of_mem_erase

theorem Tracks.setBalance (h : Tracks base baseStakes keys app) {a : String} (ha : keys a) (v : ℚ) :
    Tracks base baseStakes keys (app.setBalance a v) where
  balances b := by
    by_cases hb : b = a
    · subst hb
      simp [Application.setBalance, AList.lookup_insert]
    · simp only [Application.setBalance, AList.lookup_insert_ne hb, h.balances b]
  stakes := h.stakes
  balanceKeys b hb := (mem_keys_insert hb).elim (· ▸ ha) (h.balanceKeys b)
  stakeKeys := h.stakeKeys

theorem Tracks.credit (h : Tracks base baseStakes keys app) {a : String} (ha : keys a) (amount : ℚ) :
    Tracks base baseStakes keys (app.credit a amount) :=
  h.setBalance ha _

theorem Tracks.debit (h : Tracks base baseStakes keys app) {a : String} (ha : keys a) (amount : ℚ) :
    Tracks base baseStakes keys (app.debit a amount) :=
  h.setBalance ha _

theorem Tracks.recordStake (h : Tracks base baseStakes keys app) {a : String} (ha : keys a)
    (sm : StakeManager) (hsm : ∀ b, b ≠ a → sm.stakes.lookup b = app.stakes.stakes.lookup b) :
    Tracks base baseStakes keys ({ app with stakes := sm }.recordStake a) where
  balances := h.balances
  stakes b := by
    by_cases hb : b = a
    · subst hb
      simp [Application.recordStake, AList.lookup_insert]
    · simp only [Application.recordStake, AList.lookup_insert_ne hb, hsm b hb, h.stakes b]
  balanceKeys := h.balanceKeys
  stakeKeys b hb := (mem_keys_insert hb).elim (· ▸ ha) (h.stakeKeys b)

theorem Tracks.mint (h : Tracks base baseStakes keys app) (o : TxOutput) (ho : keys o.address) :
    Tracks base baseStakes keys (app.mint o) :=
  let h' := h.credit ho o.amount
  ⟨h'.balances, h'.stakes, h'.balanceKeys, h'.stakeKeys⟩

theorem Tracks.foldl_mint (outputs : List TxOutput) (h : Tracks base baseStakes keys app)
    (hkeys : ∀ o ∈ outputs, keys o.address) : Tracks base baseStakes keys (outputs.foldl Application.mint app) := by
  induction outputs generalizing app with
  | nil => exact h
  | cons o rest ih =>
    exact ih (h.mint o (hkeys o (List.mem_cons_self _ _))) fun o' ho' => hkeys o' (List.mem_cons_of_mem _ ho')

theorem Tracks.applyTransaction (h : Tracks base baseStakes keys app) (height : UInt64) (tx : Transaction)
    (hkeys : ∀ a ∈ tx.touched, keys a) : Tracks base baseStakes keys (app.applyTransaction height tx) := by
  unfold Application.applyTransaction
  split_ifs with h₁ h₂ h₃ h₄
  · rw [Transaction.touched, if_pos h₁] at hkeys
    exact h.foldl_mint _ fun o ho => hkeys _ (List.mem_map_of_mem _ ho)
  · rw [Transaction.touched, if_neg h₁, if_pos h₂] at hkeys
    exact (h.debit (hkeys _ (by simp)) _).credit (hkeys _ (by simp)) _
  · rw [Transaction.touched, if_neg h₁, if_neg h₂, if_pos (Or.inl h₃)] at hkeys
    have hfrom := hkeys _ (List.mem_singleton_self _)
    exact (h.debit hfrom _).recordStake hfrom _ fun b hb => StakeManager.lookup_addStake_ne _ _ _ hb
  · rw [Transaction.touched, if_neg h₁, if_neg h₂, if_pos (Or.inr h₄)] at hkeys
    have hfrom := hkeys _ (List.mem_singleton_self _)
    exact (h.credit hfrom tx.amount).recordStake hfrom _ fun b hb =>
      StakeManager.lookup_removeStakeUnchecked_ne _ _ hb
  · exact h

end Tracks

theorem mem_changedBalances_applyTransaction (height : UInt64) (app : Application)
    (tx : Transaction) (a : String) :
    a ∈ (app.applyTransaction height tx).changedBalances ↔ a ∈ app.changedBalances ∨ a ∈ tx.touched := by
  have hset : ∀ (app : Application) (k : String) (v : ℚ),
      a ∈ (app.setBalance k v).changedBalances ↔ a = k ∨ a ∈ app.changedBalances :=
    fun app _ _ => AList.mem_insert app.changedBalances
  have hmint : ∀ (outputs : List TxOutput) (app : Application),
      a ∈ (outputs.foldl Application.mint app).changedBalances ↔
        a ∈ app.changedBalances ∨ a ∈ outputs.map (·.address) := by
    intro outputs
    induction outputs with
    | nil => simp
    | cons o rest ih =>
      intro app
      rw [List.foldl_cons, ih, List.map_cons, List.mem_cons]
      show (a ∈ (app.setBalance o.address _).changedBalances ∨ _) ↔ _
      rw [hset]
      tauto
  unfold Application.applyTransaction Transaction.touched
  split_ifs <;> simp only [hmint, Application.recordStake, Application.credit, Application.debit, hset,
    List.mem_cons, List.mem_singleton, List.not_mem_nil, or_false] <;> tauto

end Application

namespace Blockchain

theorem tracks_applyBlock (bc : Blockchain) (block : Block) :
    (bc.applyBlock block).Tracks bc.balances bc.stakes (fun a => ∃ tx ∈ block.transactions, a ∈ tx.touched) := by
  unfold applyBlock
  suffices ∀ (l : List Transaction) (app : Application), (∀ tx ∈ l, tx ∈ block.transactions) →
      app.Tracks bc.balances bc.stakes (fun a => ∃ tx ∈ block.transactions, a ∈ tx.touched) →
      (l.foldl (Application.applyTransaction block.header.height) app).Tracks bc.balances bc.stakes
        (fun a => ∃ tx ∈ block.transactions, a ∈ tx.touched) from
    this _ _ (fun _ h => h) ⟨fun _ => by simp, fun _ => by simp, by simp, by simp⟩
  intro l
  induction l with
  | nil => exact fun _ _ h => h
  | cons tx rest ih =>
    intro app hsub h
    exact ih _ (fun t ht => hsub t (List.mem_cons_of_mem _ ht))
      (h.applyTransaction _ tx fun a ha => ⟨tx, hsub tx (List.mem_cons_self _ _), ha⟩)

theorem mem_changedBalances_applyBlock (bc : Blockchain) (block : Block) (a : String) :
    a ∈ (bc.applyBlock block).changedBalances ↔ ∃ tx ∈ block.transactions, a ∈ tx.touched := by
  unfold applyBlock
  suffices ∀ (l : List Transaction) (app : Application),
      a ∈ (l.foldl (Application.applyTransaction block.header.height) app).changedBalances ↔
        a ∈ app.changedBalances ∨ ∃ tx ∈ l, a ∈ tx.touched by
    rw [this]
    simp [AList.not_mem_empty]
  intro l
  induction l with
  | nil => simp
  | cons tx rest ih =>
    intro app
    rw [List.foldl_cons, ih, Application.mem_changedBalances_applyTransaction]
    simp only [List.mem_cons, or_and_right, exists_or, exists_eq_left]
    tauto

theorem keysValid_commitOf {bc : Blockchain} {block : Block} (hhash : checkKey block.hash = .ok ())
    (htx : ∀ tx ∈ block.transactions, checkKey tx.txID = .ok () ∧ ∀ a ∈ tx.touched, checkKey a = .ok ()) :
    Store.KeysValid (bc.commitOf block) where
  hash := hhash
  balances e he := by
    obtain ⟨tx, hmem, ha⟩ := (tracks_applyBlock bc block).balanceKeys e.1 (List.mem_keys_of_mem he)
    exact (htx tx hmem).2 _ ha
  stakes e he _ := by
    obtain ⟨tx, hmem, ha⟩ := (tracks_applyBlock bc block).stakeKeys e.1 (List.mem_keys_of_mem he)
    exact (htx tx hmem).2 _ ha
  txIDs t ht := by
    obtain ⟨tx, hmem, rfl⟩ := List.mem_map.1 ht
    exact (htx tx hmem).1

end Blockchain

end DevInsiderCoin
