import StompBroker.CString
import StompBroker.AssociativeArray
import StompBroker.BitFlags
import StompBroker.SessionStorage
import StompBroker.StompSession
import StompBroker.ConnectedBitmap
import StompBroker.Message
import StompBroker.StompParser
import StompBroker.PubSub
import StompBroker.Distribute
import StompBroker.Stomp
import StompBroker.DistributeContract
import StompBroker.TransitionSystem
import StompBroker.StompRun
import StompBroker.Isolation
import StompBroker.SubscriptionOwners
import StompBroker.WsBuffer
import StompBroker.Dataframe
import StompBroker.DecodeLoop
import StompBroker.Reassembly
import StompBroker.TextFrame
import StompBroker.Chunking
import StompBroker.GreedyPrefix
import StompBroker.WriterThread
import StompBroker.OutputBuffer
import StompBroker.WriterPool
import StompBroker.AcceptEpoll
import StompBroker.ReaderThread
import StompBroker.Handshake
import StompBroker.Teardown
import StompBroker.SortedAssoc
import StompBroker.HeaderMap
import StompBroker.HeaderDepth
import StompBroker.Replies
import StompBroker.DeliverySet
import StompBroker.Relay
import StompBroker.LateDelivery
import StompBroker.MessageIds
import StompBroker.CyclicCounter
import StompBroker.WorkerQueue
import StompBroker.WriterPurge
import StompBroker.BufferAccount
import StompBroker.FrameCodec
import StompBroker.EpollLoop
import StompBroker.Descriptors
import StompBroker.HeldFrames
import StompBroker.LinkedCells
import StompBroker.Queue
import StompBroker.QueueRuns
import StompBroker.SubscriptionList
import StompBroker.BatchExtraction
import StompBroker.StaleSweep
import StompBroker.ParseArgs
import StompBroker.WriteLoop
import StompBroker.WriterIteration
import StompBroker.FrameText
import StompBroker.SpecialFields
import StompBroker.TracedMemory
import StompBroker.ParserMemory
import StompBroker.InputSplit
import StompBroker.MalformedFrames
import StompBroker.Threads
import StompBroker.Monitor
import StompBroker.WriterWait
import StompBroker.WriterFrames
import StompBroker.ReaderWait
import StompBroker.BlockHash
import StompBroker.Sha1
import StompBroker.Base64
import StompBroker.AcceptKey
import StompBroker.AbstractBroker
import StompBroker.BrokerHistory
import StompBroker.OutputStream
import StompBroker.ClientView
import StompBroker.Diagnostics
import StompBroker.SetupByArgs
import StompBroker.Template
import StompBroker.FrameAllocation
