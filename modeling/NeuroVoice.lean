import NeuroVoice.Lib.Prog
import NeuroVoice.Lib.Machine
import NeuroVoice.Lib.TxTable
import NeuroVoice.Lib.Binary64
import NeuroVoice.Py
import NeuroVoice.Queue
import NeuroVoice.Models
import NeuroVoice.World
import NeuroVoice.Repos
import NeuroVoice.Presets
import NeuroVoice.Pipeline
import NeuroVoice.Consumer
import NeuroVoice.ResultReader
import NeuroVoice.Gateway
import NeuroVoice.Ws
import NeuroVoice.System
import NeuroVoice.Protocol
import NeuroVoice.Discipline
import NeuroVoice.Run
import NeuroVoice.Uuid
import NeuroVoice.Ack
import NeuroVoice.Enqueue
import NeuroVoice.Ledger.Commit
import NeuroVoice.Billing
import NeuroVoice.Marker
import NeuroVoice.ErrorChunk
import NeuroVoice.Tenancy
import NeuroVoice.Quiet
import NeuroVoice.Watermark
import NeuroVoice.Slots
import NeuroVoice.Heartbeat
import NeuroVoice.Load
import NeuroVoice.Bridge
import NeuroVoice.Alignment
import NeuroVoice.Lib.Table
import NeuroVoice.Lib.Sha256
import NeuroVoice.Catalog.State
import NeuroVoice.Catalog.Repos
import NeuroVoice.Catalog.Access
import NeuroVoice.Catalog.Storage
import NeuroVoice.Catalog.Purge
import NeuroVoice.Catalog.Enroll
import NeuroVoice.Catalog.Contract
import NeuroVoice.Lib.Timeline
import NeuroVoice.Catalog.Evolution
import NeuroVoice.Socket
import NeuroVoice.Amid
import NeuroVoice.Gate
import NeuroVoice.Handover
import NeuroVoice.Lib.TwoRuns
import NeuroVoice.Permission
import NeuroVoice.RateLimit
import NeuroVoice.Throttle
import NeuroVoice.Catalog.Lifecycle
import NeuroVoice.Catalog.Tombstone
import NeuroVoice.Catalog.Erasure
import NeuroVoice.Catalog.Cascade
import NeuroVoice.Catalog.Listing
import NeuroVoice.Reserve
import NeuroVoice.Wire
import NeuroVoice.Trim
import NeuroVoice.Segments
import NeuroVoice.Lib.Watch
import NeuroVoice.Replay
import NeuroVoice.Yields
import NeuroVoice.Lib.Members
import NeuroVoice.Config
import NeuroVoice.Ceiling
import NeuroVoice.Knobs
import NeuroVoice.Lib.Regex
import NeuroVoice.Lib.Runs
import NeuroVoice.Frontend.Numbers
import NeuroVoice.Frontend.Normalize
import NeuroVoice.Frontend.Spoken
import NeuroVoice.Frontend.Total
import NeuroVoice.Frontend.Passes
import NeuroVoice.Frontend.Idempotent
import NeuroVoice.Frontend.Segment
import NeuroVoice.Lib.Lines
import NeuroVoice.Frontend.SegmentBounds
import NeuroVoice.Lib.Lru
import NeuroVoice.Engine
import NeuroVoice.Audio.Samples
import NeuroVoice.Audio.Stats
import NeuroVoice.Audio.Postprocess
import NeuroVoice.ApiKeys
import NeuroVoice.Lib.Percent
import NeuroVoice.Storage.ObjectUri
import NeuroVoice.Storage.LocalUri
import NeuroVoice.Storage.CacheLimit
import NeuroVoice.Finetune.Manifest
import NeuroVoice.Lib.ReuseMap
import NeuroVoice.Finetune.Transcribe
import NeuroVoice.Lib.DefaultDict
import NeuroVoice.Eval.Runner
import NeuroVoice.Eval.Report
import NeuroVoice.Lib.Diary
import NeuroVoice.Lib.Lineage
import NeuroVoice.Auth.Directory
import NeuroVoice.Auth.Routes
import NeuroVoice.Auth.Warrants
import NeuroVoice.Auth.Origins
import NeuroVoice.Auth.Trust
import NeuroVoice.Errand
import NeuroVoice.Attribution
import NeuroVoice.Retry
import NeuroVoice.Storage.Download
import NeuroVoice.Storage.SharedCache
import NeuroVoice.Lib.Riff
import NeuroVoice.Audio.Wav
