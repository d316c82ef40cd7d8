import BananaApi.Core.Outcome
import BananaApi.Core.Bytes
import BananaApi.Core.Hexadecimal
import BananaApi.Core.SortedItems
import BananaApi.Core.WrappingCounter
import BananaApi.Core.ByteStream
import BananaApi.Core.Recognizer
import BananaApi.Core.RecordLog
import BananaApi.Core.Mirroring
import BananaApi.Core.Recording
import BananaApi.Core.Repetition
import BananaApi.Core.Serving
import BananaApi.Core.Spending
import BananaApi.Core.Transition
import BananaApi.Core.Replying
import BananaApi.Core.Projection
import BananaApi.Server.DataStream
import BananaApi.Server.ByteQueue
import BananaApi.Server.StreamOperations
import BananaApi.Server.ByteBuffer
import BananaApi.Server.BufferRuns
import BananaApi.Server.Concatenation
import BananaApi.Server.VectorSubset
import BananaApi.Server.Serialize
import BananaApi.Server.Types
import BananaApi.Server.Simulation
import BananaApi.Server.HostileInput
import BananaApi.Server.WidePositions
import BananaApi.Server.Encoding
import BananaApi.Server.SerializeSize
import BananaApi.Server.CompactSize
import BananaApi.Server.LengthForms
import BananaApi.Server.ChunkedReading
import BananaApi.Server.TargetSize
import BananaApi.Server.Grammar
import BananaApi.Server.Consumption
import BananaApi.Server.RoundTrip
import BananaApi.Server.Container
import BananaApi.Server.LengthPrefix
import BananaApi.Server.TypedStream
import BananaApi.Server.Rewinding
import BananaApi.Server.NormalForm
import BananaApi.Server.FixedField
import BananaApi.Server.PairedReaders
import BananaApi.Server.Padding
import BananaApi.Server.AutoFile
import BananaApi.Server.FileReading
import BananaApi.Server.FileWriting
import BananaApi.Server.FileLog
import BananaApi.Server.FileScope
import BananaApi.Server.BananaServer
import BananaApi.Server.Connections
import BananaApi.Server.TestingClient
import BananaApi.Server.HexStr
import BananaApi.Client.BitConverter
import BananaApi.Client.BytesUtils
import BananaApi.Client.WriteSequences
import BananaApi.Client.HexStrings
import BananaApi.Client.BananaMessage
import BananaApi.Client.NetworkAdapter
import BananaApi.Client.Filling
import BananaApi.Client.FillerBounds
import BananaApi.Client.TcpAdapter
import BananaApi.Client.ReceiverFrames
import BananaApi.Client.Receiving
import BananaApi.Client.Framing
import BananaApi.Client.RoomMessages
import BananaApi.Client.Requests
import BananaApi.Client.Threads
import BananaApi.Client.ThreadSteps
import BananaApi.Client.SendingQueue
import BananaApi.Client.ReceivingQueue
import BananaApi.Client.ReceivingLoop
import BananaApi.Client.FirstResponse
import BananaApi.Client.Answering
import BananaApi.Client.WindingDown
import BananaApi.Client.Refusing
import BananaApi.Client.Connecting
import BananaApi.Client.Undelivered
import BananaApi.Client.CleanStop
import BananaApi.Client.Token
import BananaApi.Client.TokenReading
import BananaApi.Client.TokenBounds
import BananaApi.Wire.ConnectRequest
import BananaApi.Wire.ByteOrder
import BananaApi.Wire.ByteSwap
import BananaApi.Wire.HexStrings
