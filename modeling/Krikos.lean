import Krikos.Blobs.MemGc
import Krikos.Blobs.Provider
import Krikos.Blobs.Sizes
import Krikos.Docs.Converge
import Krikos.Docs.HeadsCodec
import Krikos.Docs.OpenReplicas
import Krikos.Docs.Reply
import Krikos.Engine.Capacity
import Krikos.Engine.Live
import Krikos.Gossip.Delivery
import Krikos.Gossip.Dispatch
import Krikos.Gossip.PeerData
import Krikos.Gossip.State
import Krikos.Identity.AuditJournal
import Krikos.Identity.Capability
import Krikos.Identity.Migration
import Krikos.Identity.PairingRun
import Krikos.Identity.Recovery
import Krikos.Identity.SyncSessions
import Krikos.Socket.ActiveRelay
import Krikos.Socket.AddressLookup
import Krikos.Socket.DirectAddr
import Krikos.Socket.HomeRelay
import Krikos.Socket.Publish
import Krikos.Socket.RemoteState
