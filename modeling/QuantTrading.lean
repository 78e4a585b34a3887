import QuantTrading.AlertQuota
import QuantTrading.Approvals
import QuantTrading.ArchiveSelection
import QuantTrading.BookLiquidity
import QuantTrading.Collector
import QuantTrading.Commands
import QuantTrading.CompositeProvider
import QuantTrading.ContractHashes
import QuantTrading.DailyBudget
import QuantTrading.Deployments
import QuantTrading.Experiments
import QuantTrading.FillRounding
import QuantTrading.ForecastLedger
import QuantTrading.Forecasts
import QuantTrading.FreqtradeDecisions
import QuantTrading.FreqtradeTrades
import QuantTrading.FundingStreak
import QuantTrading.GridRebalance
import QuantTrading.HolmAdjustment
import QuantTrading.HubCancellation
import QuantTrading.HubCostBasis
import QuantTrading.EquityMetrics
import QuantTrading.Idempotence
import QuantTrading.LabRules
import QuantTrading.MonitorAnomalies
import QuantTrading.MonitorOutbox
import QuantTrading.MonitorWindows
import QuantTrading.NativeBridge
import QuantTrading.NativeDecisions
import QuantTrading.NativeProtections
import QuantTrading.PaperAdapter
import QuantTrading.PurgedSplits
import QuantTrading.RecomputedAverages
import QuantTrading.ReplayBooks
import QuantTrading.ResearchQueue
import QuantTrading.RiskMarks
import QuantTrading.Settlement
import QuantTrading.SignalRanking
import QuantTrading.DatasetGaps
import QuantTrading.SyncPlan
import QuantTrading.TrialLedger
import QuantTrading.StrategyReuse
import QuantTrading.LabFolds
import QuantTrading.ContextBundles
import QuantTrading.EvidenceChunks
import QuantTrading.Timeframes
import QuantTrading.Calibration
import QuantTrading.CausalSelection
import QuantTrading.TargetPositions
import QuantTrading.MultiFrame
import QuantTrading.TracePages
import QuantTrading.OrderHistory
