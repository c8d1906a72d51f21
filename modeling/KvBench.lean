import KvBench.Key
import KvBench.Store
import KvBench.LevelDB
import KvBench.Pebble
import KvBench.Scan
import KvBench.BulkLoad
import KvBench.Record
import KvBench.Disk
import KvBench.Worker
import KvBench.Driver
import KvBench.Steps
import KvBench.Pool
import KvBench.Deadline
import KvBench.Counts
import KvBench.Metrics
import KvBench.Strides
import KvBench.History
import KvBench.Ledger
import KvBench.Linearizability
import KvBench.Concurrent
import KvBench.Phases
import KvBench.Placement
import KvBench.Campaign
import KvBench.Backends
import KvBench.Progress
import KvBench.Summary
import KvBench.Completion
import KvBench.Setup
import KvBench.Stopping
