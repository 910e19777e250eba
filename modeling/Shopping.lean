import Shopping.Lib.UnorderedMap
import Shopping.Lib.Rows
import Shopping.Lib.Replication
import Shopping.Lib.Run
import Shopping.Lib.Rumour
import Shopping.Lib.Pacer
import Shopping.Lib.Mirror
import Shopping.Lib.ReqSocket
import Shopping.Lib.Msgpack
import Shopping.Lib.Threads
import Shopping.Base
import Shopping.Crdt.PnCounter
import Shopping.Crdt.OrSet
import Shopping.Model.ShoppingItem
import Shopping.Model.ShoppingList
import Shopping.Util
import Shopping.Message.Message
import Shopping.Persistence.SqliteDb
import Shopping.Persistence.Batch
import Shopping.Message.Packing
import Shopping.Node.Node
import Shopping.Node.Turns
import Shopping.Node.Loop
import Shopping.Node.Members
import Shopping.Node.Peers
import Shopping.Client.Api
import Shopping.Client.Socket
import Shopping.Client.Turns
import Shopping.Client.Update
import Shopping.Client.Threads
import Shopping.System.World
import Shopping.System.Moves
import Shopping.Cluster.Console
import Shopping.System.Trace
import Shopping.System.Shape
import Shopping.System.Matched
import Shopping.Proof.Content
import Shopping.Proof.Copies
import Shopping.Proof.Consistency
import Shopping.Proof.Totals
import Shopping.Proof.SingleWriter
import Shopping.Proof.Membership
import Shopping.Proof.Deletion
import Shopping.Proof.Names
import Shopping.Proof.ListName
import Shopping.Proof.WriteReply
import Shopping.Proof.Frames
import Shopping.Proof.Durability
import Shopping.Proof.Routing
import Shopping.Proof.Setter
import Shopping.Proof.Representation
import Shopping.Proof.Discovery
import Shopping.Proof.Evictions
import Shopping.Proof.Connections
import Shopping.Proof.Store
import Shopping.Proof.Shards
import Shopping.Proof.Quantities
import Shopping.Proof.Socket
import Shopping.Proof.Hash
import Shopping.Proof.Refresh
import Shopping.Proof.Batches
import Shopping.Proof.Packing
import Shopping.Proof.Unpacking
import Shopping.Proof.Relays
import Shopping.Proof.Dissemination
import Shopping.Proof.Heartbeats
import Shopping.Proof.Pacing
import Shopping.Proof.Console
import Shopping.Proof.Managed
import Shopping.System.Wire
import Shopping.Proof.Lengths
import Shopping.Proof.Editing
import Shopping.Proof.NodeBytes
import Shopping.Proof.Bytes
import Shopping.Proof.Locks
import Shopping.Proof.Calls
import Shopping.Proof.Threads
