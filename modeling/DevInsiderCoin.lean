import DevInsiderCoin.Config
import DevInsiderCoin.Codec.Bytes
import DevInsiderCoin.Codec.Sha256
import DevInsiderCoin.Codec.Json
import DevInsiderCoin.Block
import DevInsiderCoin.Commitment
import DevInsiderCoin.Basic
import DevInsiderCoin.Difficulty
import DevInsiderCoin.Difficulty.Compact
import DevInsiderCoin.Difficulty.Bounds
import DevInsiderCoin.Difficulty.Pow
import DevInsiderCoin.Stake
import DevInsiderCoin.Store
import DevInsiderCoin.Chain.Basic
import DevInsiderCoin.Chain.Template
import DevInsiderCoin.Chain.AddBlock
import DevInsiderCoin.Chain.Run
import DevInsiderCoin.Chain.StoredChain
import DevInsiderCoin.Chain.Acceptance
import DevInsiderCoin.Chain.Delta
import DevInsiderCoin.Chain.Minting
import DevInsiderCoin.Chain.Balances
import DevInsiderCoin.Chain.TxIndex
import DevInsiderCoin.Chain.Reload
import DevInsiderCoin.Chain.Migration
import DevInsiderCoin.Chain.HashIndex
import DevInsiderCoin.Chain.Supply
import DevInsiderCoin.Chain.History
import DevInsiderCoin.Chain.Retarget
import DevInsiderCoin.Chain.Mempool
import DevInsiderCoin.Chain.Panics
import DevInsiderCoin.Miner
import DevInsiderCoin.Network
import DevInsiderCoin.Network.Gossip
import DevInsiderCoin.Network.Handshake
import DevInsiderCoin.Network.Agreement
import DevInsiderCoin.Network.Ledger
