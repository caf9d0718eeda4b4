import Slab.Erp.LedgerJournal
import Slab.Erp.LedgerConcurrency
import Slab.Erp.TransferConservation
import Slab.Erp.Sales
import Slab.Erp.Purchase
import Slab.Erp.Production
import Slab.Erp.Fulfilment
import Slab.Erp.ItemAgreement
import Slab.Erp.ReturnBounds
import Slab.Erp.StockSafety
import Slab.EventBus.DeliveryBound
import Slab.EventBus.Aggregation
import Slab.EventBus.Retention
import Slab.JobQueue.Exclusivity
import Slab.JobQueue.Terminal
import Slab.JobQueue.RetryBudget
import Slab.JobQueue.Gc
import Slab.Retry.Policies
import Slab.AuthzKit.PolicyCache
import Slab.Filter.Compile
import Slab.Filter.Agreement
import Slab.Paging.CursorPage
import Slab.Kv.Backend
import Slab.Identity.Deletion
import Slab.Identity.AccountVersions
import Slab.Session.SingleFlight
import Slab.Session.Clobbering
import Slab.Session.Coherence
import Slab.Finance.Payments
import Slab.Finance.IncomeStatement
import Slab.Erp.PurchaseOrders
import Slab.Erp.StockTaking
import Slab.Erp.Approvals
import Slab.Erp.Categories
import Slab.Erp.WorkOrderStatus
import Slab.Txn.Debt
import Slab.Erp.OperationReports
import Slab.Erp.MaterialPicks
import Slab.Erp.PickLines
import Slab.Erp.PickedQuantities
import Slab.Erp.OrderCreation
import Slab.Erp.Inspections
import Slab.Erp.AverageCost
import Slab.Erp.ItemCosts
import Slab.Erp.Patches
import Slab.Erp.ItemChanges
import Slab.Erp.AuditTrail
import Slab.Erp.Demand
import Slab.Audit.Diff
import Slab.Blob.PublicUrl
import Slab.Erp.DocumentTrails
import Slab.EventBus.Drain
import Slab.JobQueue.Completion
import Slab.Erp.CustomerSearch
import Slab.Erp.Replenishment
