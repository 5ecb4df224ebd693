import Tracelet.ByteMemory
import Tracelet.KernelMap
import Tracelet.TransitionRun
import Tracelet.NearestRank
import Tracelet.RustText
import Tracelet.MapOrder
import Tracelet.Ranking
import Tracelet.RustParse
import Tracelet.CounterScan
import Tracelet.Json
import Tracelet.Event
import Tracelet.Clock
import Tracelet.Decode
import Tracelet.Filter
import Tracelet.Kernel
import Tracelet.FilterMatch
import Tracelet.RoundTrip
import Tracelet.TcpEvents
import Tracelet.Hist
import Tracelet.Latency
import Tracelet.Accounting
import Tracelet.Pairing
import Tracelet.EventLoop
import Tracelet.Summary
import Tracelet.CountLimit
import Tracelet.Collector
import Tracelet.RecordKind
import Tracelet.ParseDuration
import Tracelet.Dashboard
import Tracelet.ExitRace
import Tracelet.CollectLoop
import Tracelet.Snapshot
import Tracelet.History
import Tracelet.Panes
import Tracelet.LatencyPane
import Tracelet.Output
import Tracelet.Buckets
import Tracelet.Mean
import Tracelet.BufferSize
import Tracelet.EscapeString
import Tracelet.Delivery
import Tracelet.Warnings
import Tracelet.Firing
import Tracelet.Session
import Tracelet.LatencyTable
import Tracelet.LatencyLoop
import Tracelet.Keys
import Tracelet.DashboardLoop
import Tracelet.Frames
import Tracelet.Turns
import Tracelet.Screen
import Tracelet.Highlight
import Tracelet.FiringRows
import Tracelet.DashboardSession
import Tracelet.Columns
import Tracelet.ReadBack
import Tracelet.LatencySession
import Tracelet.Prereqs
import Tracelet.ScreenText
