import Lab1.Library.Exec
import Lab1.Library.Lifo
import Lab1.Library.Bytes
import Lab1.MemDb.Types
import Lab1.MemDb.DataStructs
import Lab1.MemDb.ShmHandler
import Lab1.MemDb.Layouts
import Lab1.MemDb.Equiv.DataStructs
import Lab1.MemDb.Equiv.Stack
import Lab1.MemDb.Equiv.BitMap
import Lab1.MemDb.Equiv.Layouts
import Lab1.MemDb.Equiv.Slots
import Lab1.MemDb.Equiv.FindEntry
import Lab1.Library.While
import Lab1.MemDb.FlowManager
import Lab1.MemDb.Equiv.TupleLoops
import Lab1.MemDb.Equiv.Catalogue
import Lab1.Library.Region
import Lab1.MemDb.Equiv.ShmHandler
import Lab1.Task1.DataStreamManager
import Lab1.Task1.Wire
import Lab1.Task1.SocketServer
import Lab1.Task1.Session
import Lab1.Task1.Equiv.Release
import Lab1.Task1.Equiv.Answers
import Lab1.Task1.Equiv.Delivery
import Lab1.Task1.Equiv.Transmission
import Lab1.Task1.Equiv.Limit
import Lab1.Task1.Equiv.Receiving
import Lab1.Task1.Equiv.Reassembly
import Lab1.Task1.Equiv.Sending
import Lab1.Task1.Equiv.Transport
import Lab1.Task1.Equiv.Session
import Lab1.Nw.Acceptor
import Lab1.Nw.Equiv.Framing
import Lab1.Library.Mailbox
import Lab1.MessageStore.UserManager
import Lab1.MessageStore.StdStreamIODevice
import Lab1.MessageStore.ClientUiTask
import Lab1.MessageStore.Equiv.Lines
import Lab1.MessageStore.Equiv.Names
import Lab1.MessageStore.Equiv.Menu
import Lab1.Library.Lines
import Lab1.MessageStore.Equiv.Mailboxes
import Lab1.MessageStore.Equiv.Separation
import Lab1.MessageStore.Equiv.Sessions
import Lab1.Library.Cas
import Lab1.Library.Carry
import Lab1.MemDb.Equiv.Matching
import Lab1.MemDb.Equiv.Update
import Lab1.MemDb.Equiv.Table
import Lab1.MemDb.Equiv.Delete
import Lab1.Library.Follow
import Lab1.MemDb.Builds
import Lab1.MemDb.Equiv.Builds
import Lab1.MemDb.Equiv.Buffers
import Lab1.MemDb.Equiv.Capacity
import Lab1.MemDb.Equiv.Schema
import Lab1.MemDb.Equiv.Server
import Lab1.Library.Frames
import Lab1.ProducerConsumer.Messages
import Lab1.ProducerConsumer.Tasks
import Lab1.ProducerConsumer.Equiv.Decoding
import Lab1.ProducerConsumer.Equiv.Acks
import Lab1.ProducerConsumer.Equiv.Ids
import Lab1.ProducerConsumer.Equiv.Crashes
import Lab1.Nw.EventLoop
import Lab1.Nw.Equiv.EventLoop
import Lab1.MemDb.Queries
import Lab1.MemDb.Server
import Lab1.MemDb.Equiv.Lookup
import Lab1.MemDb.Equiv.Refusals
import Lab1.MemDb.Equiv.TypeNames
import Lab1.Library.Walk
import Lab1.MemDb.Equiv.ShowObj
import Lab1.MemDb.Equiv.Limits
import Lab1.MemDb.Equiv.Dispose
import Lab1.MemDb.Equiv.Insert
import Lab1.MemDb.Equiv.ChunkSizes
import Lab1.MemDb.ShmControl
import Lab1.MemDb.ControlTool
import Lab1.MemDb.Equiv.ShmControl
import Lab1.MemDb.Equiv.ControlTool
import Lab1.Library.Driven
import Lab1.Shr.Macros
import Lab1.Shr.Equiv.Drain
import Lab1.Shr.TypedUses
import Lab1.Shr.Equiv.TypedUses
import Lab1.Nw.RequestCalls
import Lab1.Nw.Equiv.Overrun
import Lab1.Nw.Equiv.Batch
import Lab1.Nw.Equiv.InOrder
import Lab1.PhoneOfficer.PreloadUtils
import Lab1.PhoneOfficer.Equiv.Environment
import Lab1.PhoneOfficer.Equiv.Calls
import Lab1.Library.CStrings
import Lab1.PhoneOfficer.AgentInterceptionPoints
import Lab1.PhoneOfficer.Equiv.Redirect
import Lab1.Inotify.InotifyTest
import Lab1.Inotify.Equiv.EventWalk
import Lab1.Inotify.Equiv.Watching
import Lab1.Library.Holders
import Lab1.LoaderMagic.LoaderFd
import Lab1.LoaderMagic.Equiv.Handles
import Lab1.Library.Sweep
import Lab1.Pagaya.Game
import Lab1.Pagaya.GameBoard
import Lab1.Pagaya.Equiv.Flood
import Lab1.Pagaya.Equiv.Game
import Lab1.Ibm.Main
import Lab1.Ibm.Equiv.CmdLookup
import Lab1.Ibm.Equiv.Runs
import Lab1.Nw.Equiv.MsgId
import Lab1.Library.Handoff
import Lab1.Task1.Equiv.Listen
