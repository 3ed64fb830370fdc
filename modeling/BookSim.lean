import BookSim.Admission
import BookSim.Gem5.NetworkInterface
import BookSim.Gem5.PacketMap
import BookSim.PacketConservation
import BookSim.PhaseVCs
import BookSim.Networks.TorusRoutes
import BookSim.Networks.MeshDeadlock
import BookSim.Networks.DragonFlyUgal
import BookSim.Networks.FlatFlyRoutes
import BookSim.Networks.AnyNetFile
import BookSim.Networks.DGX1Wiring
import BookSim.Networks.BinaryTree
import BookSim.Networks.KNFly
import BookSim.Configuration
import BookSim.Channel
import BookSim.Routers.SwitchOutcomes
import BookSim.Routers.VCAllocation
import BookSim.Routers.OutputBuffers
import BookSim.Routers.Speculation
import BookSim.SharedPool
import BookSim.HeldSlots
import BookSim.Probe
import BookSim.Subnets
import BookSim.DelayLine
import BookSim.Priorities
import BookSim.Allocators.ISlip
import BookSim.Allocators.SelAlloc
import BookSim.Allocators.PIM
import BookSim.Allocators.Wavefront
import BookSim.Allocators.MaxSize
import BookSim.Allocators.Separable
import BookSim.Allocators.RequestTable
import BookSim.Arbiters.LeastRecent
import BookSim.Arbiters.OrderFree
