import Maxio.RaftLogSpec
import Maxio.KeyPlaces
import Maxio.Retention
import Maxio.RetentionRequests
import Maxio.RejectedPuts
import Maxio.EventSpoolSpec
import Maxio.Checksums
import Maxio.Listing
import Maxio.Multipart
import Maxio.FsSpec
import Maxio.ObjectSpec
import Maxio.StorageSpec
import Maxio.Footprint
import Maxio.PutSpec
import Maxio.Progress
import Maxio.RoundTrip
import Maxio.Damage
import Maxio.Targets
import Maxio.Nonces
import Maxio.KeyHistory
import Maxio.RaftSpec
import Maxio.Replicas
import Maxio.PolicySpec
import Maxio.ConfigRaces
import Maxio.UploadSpec
import Maxio.CompletionSpec
import Maxio.Views
import Maxio.PartChecksums
import Maxio.PartCopies
import Maxio.UploadFootprint
import Maxio.UploadKeys
import Maxio.UploadViews
import Maxio.UploadConfinement
import Maxio.VersionConfinement
import Maxio.WriterProgress
import Maxio.UpdatedReads
import Maxio.Globs
import Maxio.MetadataIndex
import Maxio.Endings
import Maxio.Truncation
import Maxio.Preflight
import Maxio.Loops
import Maxio.Pieces
import Maxio.ChunkLoops
import Maxio.Pagination
import Maxio.BucketDeletion
import Maxio.PublicPolicies
import Maxio.FirstBits
import Maxio.Networks
import Maxio.Escapes
import Maxio.ListedPrefix
import Maxio.PublicBypass
import Maxio.CanonicalQuery
import Maxio.QueryOrder
import Maxio.Signature
import Maxio.SignedHeaders
import Maxio.Addresses
import Maxio.ClientAddress
import Maxio.Bodies
import Maxio.Ranges
import Maxio.Cors
import Maxio.Conditions
import Maxio.ConsoleSession
import Maxio.ReadRequests
import Maxio.RateLimit
import Maxio.Shards
import Maxio.Preimages
import Maxio.ClientUrls
import Maxio.ShardRequests
import Maxio.JsonValues
import Maxio.JsonTexts
import Maxio.SidecarMac
import Maxio.XmlTexts
import Maxio.Tagging
import Maxio.ChunkedBodies
import Maxio.DeleteRequests
import Maxio.VersionSlices
import Maxio.Components
import Maxio.Listings
