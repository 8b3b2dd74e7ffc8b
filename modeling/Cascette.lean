import Cascette.Index.Checked
import Cascette.Index.Flush
import Cascette.Index.Directory
import Cascette.Encoding.Lookup
import Cascette.Archive.Chunked
import Cascette.Archive.Edit
import Cascette.Archive.GroupMerge
import Cascette.Root.Rebuild
import Cascette.Storage.SegmentBounds
import Cascette.Storage.KmtFile
import Cascette.Storage.SegmentHeader
import Cascette.Storage.ResidencyRuns
import Cascette.Storage.Resolver
import Cascette.Manifest.Size
import Cascette.Manifest.BuilderRuns
import Cascette.Manifest.Query
import Cascette.Patch.Archive
import Cascette.Patch.Compression
import Cascette.Patch.IndexBuilder
import Cascette.Cdn.BlteStream
import Cascette.Cdn.Coalesce
import Cascette.Cdn.Requests
import Cascette.Protocol.Mime
import Cascette.Installation.Reencode
import Cascette.Agent.Runner
import Cascette.Agent.Flush
import Cascette.Agent.Recovery
import Cascette.Agent.Insertion
import Cascette.Cache.DiskRuns
import Cascette.Cache.Promotion
import Cascette.Bpsv.RoundTrip
import Cascette.Zbsdiff.Positions
import Cascette.Storage.LruRuns
import Cascette.Storage.PidTracking
import Cascette.Crypto.Streams
import Cascette.Crypto.Reference
