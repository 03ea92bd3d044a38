import AdClick.Library.FirstOccurrence
import AdClick.Library.FixedDigits
import AdClick.Library.Gregorian
import AdClick.Library.InsertionMap
import AdClick.Library.Runs
import AdClick.Library.UpsertLog
import AdClick.Library.ConsumerGroup
import AdClick.Library.Redelivery
import AdClick.Library.Topic
import AdClick.Ecma.Date
import AdClick.Ecma.Minute
import AdClick.Ecma.Number
import AdClick.Ecma.Text
import AdClick.Ecma.Value
import AdClick.Counter.Service
import AdClick.Counter.Idempotence
import AdClick.Counter.Snapshot
import AdClick.Counter.Counters
import AdClick.Counter.Report
import AdClick.Counter.Wraparound
import AdClick.Counter.RecordValue
import AdClick.Counter.ConsumeLoop
import AdClick.Counter.Listeners
import AdClick.Counter.ClicksOfAd
import AdClick.Counter.Agreement
import AdClick.Window.Service
import AdClick.Window.System
import AdClick.Window.FlushRace
import AdClick.Window.Ledger
import AdClick.Window.Table
import AdClick.Window.StoredAggregate
import AdClick.Window.Replay
import AdClick.Window.Retry
import AdClick.Window.Overlap
import AdClick.Window.Snapshot
import AdClick.Window.CheckedFlush
import AdClick.Window.AdIsolation
import AdClick.Window.TimeColumn
import AdClick.Watermark.Classifier
import AdClick.Watermark.Service
import AdClick.Watermark.Refinement
import AdClick.Watermark.Closing
import AdClick.Watermark.Influence
import AdClick.Watermark.Quota
import AdClick.Watermark.OrderIndependence
import AdClick.Watermark.Reference
import AdClick.Watermark.IpIsolation
import AdClick.Watermark.Tuning
import AdClick.Watermark.Origins
import AdClick.Ingest.Validation
import AdClick.Ingest.LateData
import AdClick.Ingest.Producers
import AdClick.Ingest.Acknowledgement
import AdClick.Ingest.Contract
import AdClick.Ingest.Appended
import AdClick.Ingest.EventTime
import AdClick.Pipeline.WireFormat
import AdClick.Pipeline.Counting
import AdClick.Pipeline.Delivery
import AdClick.Pipeline.Windowing
import AdClick.Pipeline.Storing
import AdClick.Pipeline.Recovery
import AdClick.Pipeline.Judging
