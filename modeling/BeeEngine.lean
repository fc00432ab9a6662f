import BeeEngine.AbandonedChallenge
import BeeEngine.AccountKeys
import BeeEngine.Accumulator
import BeeEngine.AppIds
import BeeEngine.DexAmounts
import BeeEngine.Envelopes
import BeeEngine.ExactlyOnce
import BeeEngine.FactorCount
import BeeEngine.History
import BeeEngine.HistoryFetch
import BeeEngine.HistoryRuns
import BeeEngine.HistoryStreams
import BeeEngine.LeafBinding
import BeeEngine.MessageCodec
import BeeEngine.MessageDelivery
import BeeEngine.MiningKeys
import BeeEngine.MiningReset
import BeeEngine.MultisigCalls
import BeeEngine.PasswordHash
import BeeEngine.RateLimiter
import BeeEngine.RetryPolicy
import BeeEngine.SeedOrder
import BeeEngine.SeedPhrase
import BeeEngine.SellOrderPages
import BeeEngine.SessionComplexity
import BeeEngine.SessionCreation
import BeeEngine.SessionPages
import BeeEngine.SessionStates
import BeeEngine.StaleEvents
import BeeEngine.TapLedger
import BeeEngine.TypedBodies
import BeeEngine.VerifierSafety
import BeeEngine.WalletName
import BeeEngine.Whitelist
import BeeEngine.ZkLoginKeys
