import NvmeVirt.Lib.Outcome
import NvmeVirt.Kernel
import NvmeVirt.Pqueue
import NvmeVirt.Laws.Pqueue
import NvmeVirt.Ssd.Channel
import NvmeVirt.Ssd.Params
import NvmeVirt.Ssd.Buffer
import NvmeVirt.Ssd.Nand
import NvmeVirt.Conv.State
import NvmeVirt.Conv.Rl
import NvmeVirt.Conv.Gc
import NvmeVirt.Conv.Init
import NvmeVirt.Conv.Write
import NvmeVirt.Laws.Conv.Geometry
import NvmeVirt.Lib.TwoWay
import NvmeVirt.Laws.Conv.Lines
import NvmeVirt.Laws.Conv.Select
import NvmeVirt.Laws.Conv.Flash
import NvmeVirt.Laws.Conv.Steps
import NvmeVirt.Laws.Conv.Advance
import NvmeVirt.Laws.Conv.Mapping
import NvmeVirt.Laws.Conv.Collect
import NvmeVirt.Laws.Conv.DoGc
import NvmeVirt.Laws.Conv.PageWrite
import NvmeVirt.Lib.System
import NvmeVirt.Laws.Conv.Init
import NvmeVirt.Laws.Conv.Run
import NvmeVirt.Laws.Conv.Capacity
import NvmeVirt.Conv.Cmd
import NvmeVirt.Laws.Conv.Namespace
import NvmeVirt.Laws.Conv.Commands
import NvmeVirt.Laws.Conv.Range
import NvmeVirt.Laws.Conv.WriteBuffer
import NvmeVirt.Conv.Stats
import NvmeVirt.Laws.Conv.Accounting
import NvmeVirt.Zns.State
import NvmeVirt.Zns.ReadWrite
import NvmeVirt.Laws.Zns.Resources
import NvmeVirt.Laws.Zns.Moves
import NvmeVirt.Laws.Zns.Send
import NvmeVirt.Laws.Zns.Writes
import NvmeVirt.Laws.Zns.Zrwa
import NvmeVirt.Laws.Zns.Run
import NvmeVirt.Laws.Zns.ZrwaCount
import NvmeVirt.Laws.Zns.Sequential
import NvmeVirt.Laws.Zns.WriteBuffer
import NvmeVirt.Kv.Io
import NvmeVirt.Laws.Kv.Chains
import NvmeVirt.Laws.Kv.Run
import NvmeVirt.Laws.Kv.Index
import NvmeVirt.Laws.Kv.Values
import NvmeVirt.Io.Worker
import NvmeVirt.Laws.Io.Queue
import NvmeVirt.Laws.Io.Integrity
import NvmeVirt.Io.Queues
import NvmeVirt.Laws.Io.Rings
import NvmeVirt.Io.Dispatch
import NvmeVirt.Laws.Io.Device
import NvmeVirt.Laws.Io.Namespaces
import NvmeVirt.Laws.Io.InOrder
import NvmeVirt.Laws.Io.Refusals
import NvmeVirt.Laws.Io.Handover
import NvmeVirt.Io.Units
import NvmeVirt.Laws.Io.Answers
import NvmeVirt.Laws.Io.Units
import NvmeVirt.Io.Prp
import NvmeVirt.Laws.Io.Prp
import NvmeVirt.Kv.Batch
import NvmeVirt.Laws.Kv.Batches
import NvmeVirt.Laws.Conv.Scores
import NvmeVirt.Laws.Conv.Observed
import NvmeVirt.Laws.Conv.Phases
import NvmeVirt.Laws.Conv.Greedy
import NvmeVirt.Laws.Conv.Learner
import NvmeVirt.Laws.Conv.Rewards
import NvmeVirt.Laws.Conv.WearGap
import NvmeVirt.Laws.Ssd.Params
import NvmeVirt.Laws.Conv.Deviation
import NvmeVirt.Laws.Conv.WearSamples
import NvmeVirt.Laws.Ssd.Credits
import NvmeVirt.Laws.Ssd.LunClocks
import NvmeVirt.Io.Doorbell
import NvmeVirt.Laws.Io.Doorbells
import NvmeVirt.Laws.Zns.Retry
import NvmeVirt.Laws.Zns.Answers
import NvmeVirt.Laws.Conv.Reads
import NvmeVirt.Laws.Conv.LineOrder
import NvmeVirt.Laws.Kv.Tables
import NvmeVirt.Conv.Address
import NvmeVirt.Laws.Conv.PageNumbers
import NvmeVirt.Laws.Io.Transfer
import NvmeVirt.Laws.Zns.Reports
import NvmeVirt.Kv.Iter
import NvmeVirt.Lib.Paging
import NvmeVirt.Laws.Kv.Iterate
import NvmeVirt.Laws.Conv.Traces
import NvmeVirt.Laws.Conv.WriteOrder
import NvmeVirt.Laws.Io.Lifetime
import NvmeVirt.Laws.Zns.Storage
import NvmeVirt.Laws.Io.FailedWrites
import NvmeVirt.Lib.LogStore
import NvmeVirt.Laws.Conv.Contents
import NvmeVirt.Io.Interrupts
import NvmeVirt.Laws.Conv.Amplification
import NvmeVirt.Laws.Io.Interrupts
import NvmeVirt.Laws.Io.Progress
import NvmeVirt.Lib.Overwrites
import NvmeVirt.Laws.Io.DataPath
import NvmeVirt.Laws.Kv.Dictionary
import NvmeVirt.Laws.Io.Handshake
import NvmeVirt.Lib.PriorityMap
import NvmeVirt.Laws.PqueueRuns
import NvmeVirt.Io.PciConfig
import NvmeVirt.Laws.Io.PciConfig
import NvmeVirt.Lib.AppendLog
import NvmeVirt.Laws.Zns.Resets
import NvmeVirt.Laws.Zns.ZoneLogs
import NvmeVirt.Laws.Io.ZoneData
import NvmeVirt.Laws.Io.ZoneRuns
import NvmeVirt.Laws.Io.Completions
import NvmeVirt.Laws.Io.Delivery
import NvmeVirt.Laws.Zns.Behind
import NvmeVirt.Laws.Io.Execute
import NvmeVirt.Laws.Zns.Checks
import NvmeVirt.Laws.Io.Pieces
