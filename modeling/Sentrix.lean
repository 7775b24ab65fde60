import Sentrix.Bft.Agreement
import Sentrix.Bft.Certificates
import Sentrix.Bft.LockedBytes
import Sentrix.Bft.GuardRuns
import Sentrix.Core.Replicas
import Sentrix.Core.HeaderBinding
import Sentrix.Core.RootCommitment
import Sentrix.Core.JailBundles
import Sentrix.Core.GenerationalPrune
import Sentrix.Core.TrieVersions
import Sentrix.Tokens.NftAccounting
import Sentrix.Tokens.Src20Ledger
import Sentrix.Core.RewardMint
import Sentrix.Staking.SlashBounds
import Sentrix.Staking.FailedCalls
import Sentrix.Staking.Commission
import Sentrix.Core.Attendance
import Sentrix.Core.EpochValue
import Sentrix.Bft.Payloads
import Sentrix.Core.FeeOrder
import Sentrix.Core.ForeignInput
import Sentrix.Core.EvmMoney
import Sentrix.Core.EvmSettlement
import Sentrix.Core.Snapshots
import Sentrix.Bft.RoundSkips
import Sentrix.Core.BlockStore
