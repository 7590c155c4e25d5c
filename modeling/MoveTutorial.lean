import MoveTutorial.MoveExec
import MoveTutorial.MoveRun
import MoveTutorial.MoveStorage
import MoveTutorial.MoveVector
import MoveTutorial.ReserveShares
import MoveTutorial.OrderedMap
import MoveTutorial.Blocks
import MoveTutorial.PoolModel
import MoveTutorial.PoolWorth
import MoveTutorial.PoolLimits
import MoveTutorial.PoolPrice
import MoveTutorial.PoolDeposits
import MoveTutorial.PoolFairness
import MoveTutorial.CoinModel
import MoveTutorial.CoinSupply
import MoveTutorial.Coin1Ownership
import MoveTutorial.ChenCoin
import MoveTutorial.TutCash
import MoveTutorial.SwapModel
import MoveTutorial.SwapSolvency
import MoveTutorial.SwapPayments
import MoveTutorial.SwapLimits
import MoveTutorial.SwapShares
import MoveTutorial.SwapWorth
import MoveTutorial.MarketModel
import MoveTutorial.MarketCustody
import MoveTutorial.Outbox
import MoveTutorial.IterableModel
import MoveTutorial.IterableLinks
import MoveTutorial.IterableRefinement
import MoveTutorial.IterableAppend
import MoveTutorial.BigVectorModel
import MoveTutorial.BigVectorLayout
import MoveTutorial.BigVectorRefinement
import MoveTutorial.BigVectorStorage
import MoveTutorial.BigVectorSearch
import MoveTutorial.BucketModel
import MoveTutorial.BucketAddress
import MoveTutorial.BucketSplit
import MoveTutorial.BucketPlacement
import MoveTutorial.BucketRefinement
import MoveTutorial.BucketGrowth
import MoveTutorial.BoundedWalk
import MoveTutorial.Results
import MoveTutorial.Interleaving
import MoveTutorial.DeltaModel
import MoveTutorial.DeltaMerge
import MoveTutorial.AggregatorModel
import MoveTutorial.AggregatorRefinement
import MoveTutorial.AggregatorTransactions
import MoveTutorial.ChangeSquash
import MoveTutorial.MultiVersion
import MoveTutorial.MultiVersionReads
import MoveTutorial.BlockModel
import MoveTutorial.BlockSerial
import MoveTutorial.SchedulerModel
import MoveTutorial.TaskOwnership
import MoveTutorial.SchedulerSafety
import MoveTutorial.SchedulerDone
import MoveTutorial.SchedulerProgress
import MoveTutorial.SchedulerTasks
import MoveTutorial.ExecutorModel
import MoveTutorial.MultiVersionEntries
import MoveTutorial.ExecutorData
import MoveTutorial.ExecutorWork
import MoveTutorial.ExecutorRuns
import MoveTutorial.ExecutorValidation
import MoveTutorial.BlockOutputs
import MoveTutorial.ExecutorSerial
import MoveTutorial.ModuleRaces
