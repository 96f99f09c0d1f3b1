import BengalMarket.Library.JsonParser
import BengalMarket.Pipeline.StandardQueue
import BengalMarket.Pipeline.Comparison
import BengalMarket.Reader.Delivery
import BengalMarket.Reader.FieldTypes
import BengalMarket.Capture.Readback
import BengalMarket.Library.Digest
import BengalMarket.Pipeline.HashedBytes
import BengalMarket.Reader.Splitting
import BengalMarket.Reader.Gaps
import BengalMarket.Reader.Insertion
import BengalMarket.Library.Checked
import BengalMarket.Reader.Spelling
import BengalMarket.Reader.DecimalChecked
import BengalMarket.Reader.Canonical
import BengalMarket.Library.Calendar
import BengalMarket.Reader.CivilTime
import BengalMarket.Reader.Stamp
import BengalMarket.Reader.TimestampChecked
import BengalMarket.Fixture.Generator
import BengalMarket.Library.JsonUtf8
import BengalMarket.Fixture.Readback
import BengalMarket.Capture.AtomicOutput
import BengalMarket.Capture.Ownership
import BengalMarket.Capture.Interleaving
import BengalMarket.Capture.Outcome
import BengalMarket.Benchmark.Bundle
import BengalMarket.Benchmark.Evidence
import BengalMarket.Benchmark.Separation
import BengalMarket.Library.OrderStatistics
import BengalMarket.Pipeline.Quantile
import BengalMarket.Pipeline.StartUp
import BengalMarket.Benchmark.Distribution
import BengalMarket.Pipeline.Report
import BengalMarket.Capture.Duration
import BengalMarket.Capture.Budget
import BengalMarket.Capture.Sending
import BengalMarket.Fixture.Stream
import BengalMarket.Benchmark.Files
import BengalMarket.Benchmark.Comparable
import BengalMarket.Pipeline.Engines
import BengalMarket.Pipeline.Shutdown
import BengalMarket.Pipeline.Replay
import BengalMarket.Fixture.Comparison
import BengalMarket.Benchmark.Contents
import BengalMarket.Cli.Invariance
import BengalMarket.Cli.EndToEnd
import BengalMarket.Benchmark.Process
import BengalMarket.Benchmark.Verdict
import BengalMarket.Cli.Recording
import BengalMarket.Benchmark.Published
