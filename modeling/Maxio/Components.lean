import Maxio.BucketDeletion
import Maxio.ChunkLoops
import Maxio.ChunkedBodies
import Maxio.ClientAddress
import Maxio.ConfigRaces
import Maxio.ConsoleSession
import Maxio.Cors
import Maxio.DeleteRequests
import Maxio.KeyHistory
import Maxio.ListedPrefix
import Maxio.Nonces
import Maxio.Pagination
import Maxio.PartChecksums
import Maxio.Preflight
import Maxio.PublicBypass
import Maxio.PublicPolicies
import Maxio.QueryOrder
import Maxio.RaftLogSpec
import Maxio.RateLimit
import Maxio.ShardRequests
import Maxio.SidecarMac
import Maxio.Targets
import Maxio.UpdatedReads
import Maxio.UploadKeys
import Maxio.VersionSlices

/-!
The parts of the server, each with what holds of it alone. The modules that import this one put them together: they follow
a bucket, an upload or a node through any run of calls.
-/
