import Rocsift.Base.Looping
import Rocsift.Base.Numerals
import Rocsift.Base.Numbering
import Rocsift.Base.TextLines
import Rocsift.Pm4.Bounds
import Rocsift.Pm4.Render
import Rocsift.Pm4.Targeted
import Rocsift.Pm4.Cleanup
import Rocsift.Pm4.PacketArrays
import Rocsift.Pm4.BodyFields
import Rocsift.Pm4.Tokens
import Rocsift.Pm4.LastLine
import Rocsift.Pm4.Progress
import Rocsift.Pm4.ParseDestroy
import Rocsift.Pm4.Agreement
import Rocsift.Pm4.Reprint
import Rocsift.Drm.HiveMembers
import Rocsift.Drm.RenderNodes
import Rocsift.Kfd.RoundTrip
import Rocsift.Kfd.OverrideTargets
import Rocsift.Sift.Lifetime
import Rocsift.Sift.Attempts
import Rocsift.Sift.HandleRange
import Rocsift.Sift.Grouping
import Rocsift.Sift.XccDies
import Rocsift.Sift.Hive
import Rocsift.Sift.Forwarding
import Rocsift.Sift.SmnAccess
import Rocsift.Sift.FdOwner
import Rocsift.Sift.HiveMemory
import Rocsift.Sift.Rights
import Rocsift.Sift.DebugDirs
import Rocsift.Kfd.Topology
import Rocsift.Sift.SysFS
import Rocsift.Sift.Interference
import Rocsift.Xlator.Cache
import Rocsift.Xlator.PageTableBase
import Rocsift.Xlator.LargePages
import Rocsift.Xlator.Requested
import Rocsift.Xlator.Homogeneous
import Rocsift.Xlator.OutOfRange
import Rocsift.Xlator.Coalescing
import Rocsift.Xlator.RangeCleanup
import Rocsift.Xlator.Overlap
import Rocsift.Xlator.Create
import Rocsift.Xlator.EntryFields
import Rocsift.Xlator.Mapping
import Rocsift.Cmd.VirtualRead
import Rocsift.Cmd.PhysicalRead
import Rocsift.Cmd.DumpRls
import Rocsift.Cmd.ListPartitions
import Rocsift.Cmd.Va2Pa
import Rocsift.Cmd.CpcScratch
