import CapROS.LogDirectory.Scan
import CapROS.NodeKey.ReadOnly
import CapROS.ObjectCache.PageSafety
import CapROS.ObjectCache.LogSafety
import CapROS.ProcessDirectory.Correctness
import CapROS.Checkpoint.Ensure
import CapROS.Checkpoint.Slots
import CapROS.PhysMem.Coalescing
import CapROS.Restart.Revocation
import CapROS.ArmMapping.DomainIsolation
import CapROS.Depend.Soundness
import CapROS.PageTable.WriteAuthority
import CapROS.ProcessCache.Coherence
import CapROS.Constructor.Confinement
import CapROS.SuperNode.Concurrent
import CapROS.SuperNode.Sequential
import CapROS.RangeAllocator.Grants
import CapROS.Cmte.Locks
import CapROS.Pipe.Stream
import CapROS.KeySet.Algebra
import CapROS.Directory.FailedLinks
import CapROS.NFile.Conservation
import CapROS.NFile.Isolation
import CapROS.Checkpoint.DirtyCounts
import CapROS.LogDirectory.Journal
import CapROS.Cmme.MapsSafety
import CapROS.Cmte.Teleporting
import CapROS.Erosimg.Divisions
import CapROS.ObjectCache.PageReserve
import CapROS.PhysMem.RegionSafety
import CapROS.RangeKey.ObjectIndex
import CapROS.RangeKey.Compare
import CapROS.RangeKey.RangeTable
import CapROS.RangeKey.Retyping
import CapROS.NodeKey.ExtendedWalk
import CapROS.KeyRing.ObjectMoved
import CapROS.KeyRing.DiskNodes
import CapROS.ObjectSource.HomePots
import CapROS.NodeKey.Compare
import CapROS.Sched.Reserves
import CapROS.SpaceBank.Destroying
import CapROS.SpaceBank.Allocation
import CapROS.SigMux.Delivery
import CapROS.Erosimg.ZeroPages
import CapROS.Cmte.Threads
import CapROS.ObjectSource.ObHash
import CapROS.ObjectSource.TagPots
import CapROS.Pipe.Parking
