import MetalBond.AnnounceOption
import MetalBond.Announcements
import MetalBond.AppendOnly
import MetalBond.Async.Consumer
import MetalBond.Async.Finish
import MetalBond.Async.Frame
import MetalBond.Async.Guards
import MetalBond.Async.Interleave
import MetalBond.Async.Journal
import MetalBond.Async.Monitor
import MetalBond.Async.Notify
import MetalBond.Async.Outlook
import MetalBond.Async.Owned
import MetalBond.Async.Protocol
import MetalBond.Async.Telling
import MetalBond.Async.Trace
import MetalBond.Backpressure
import MetalBond.ClientSetUp
import MetalBond.ClientTasks
import MetalBond.Codec
import MetalBond.Collections.CatchUp
import MetalBond.Collections.Interleaving
import MetalBond.Collections.Sorted
import MetalBond.Collections.Sweep
import MetalBond.ConnectionTasks
import MetalBond.Convergence
import MetalBond.Deliveries
import MetalBond.Departure
import MetalBond.Discipline
import MetalBond.Disconnection
import MetalBond.FailedCalls
import MetalBond.Feed
import MetalBond.FeedRun
import MetalBond.FirstSubscription
import MetalBond.Framing
import MetalBond.HandlePeer
import MetalBond.HandlerExec
import MetalBond.Handshake
import MetalBond.HeardRoutes
import MetalBond.HttpExport
import MetalBond.InitialSync
import MetalBond.KeepaliveGaps
import MetalBond.KeepaliveTimeout
import MetalBond.KeepaliveValues
import MetalBond.KernelMirror
import MetalBond.KernelRoutes
import MetalBond.KernelTables
import MetalBond.LateInstalls
import MetalBond.Losses
import MetalBond.MessageSizes
import MetalBond.Netlink
import MetalBond.NetworkAtRest
import MetalBond.Networks
import MetalBond.NodeCode
import MetalBond.Ownership
import MetalBond.PeerActs
import MetalBond.PeerEntries
import MetalBond.PeerExec
import MetalBond.PeerFrame
import MetalBond.PeerRemoval
import MetalBond.ProtobufMessages
import MetalBond.Provenance
import MetalBond.QueueGrowth
import MetalBond.Received
import MetalBond.RemoteRole
import MetalBond.Resubscription
import MetalBond.RoundExec
import MetalBond.RouteDocument
import MetalBond.RouteExport
import MetalBond.RouteMaps
import MetalBond.RouteViews
import MetalBond.SaidRoutes
import MetalBond.SelfBlocking
import MetalBond.Shutdown
import MetalBond.SubscribeOrder
import MetalBond.SubscriberRegistry
import MetalBond.SubscriptionRecords
import MetalBond.TableExec
import MetalBond.Teardown
import MetalBond.Transmission
import MetalBond.TwoTables
import MetalBond.UpdateLog
import MetalBond.WireAgreement
import MetalBond.WireGrammar
