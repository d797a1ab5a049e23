import OmsModbus.Words
import OmsModbus.BitPack
import OmsModbus.Error
import OmsModbus.Frame
import OmsModbus.RequestCodec
import OmsModbus.ResponseCodec
import OmsModbus.StreamFraming
import OmsModbus.Server
import OmsModbus.Tcp
import OmsModbus.TcpFraming
import OmsModbus.TcpRecovery
import OmsModbus.SendRecv
import OmsModbus.TcpClient
import OmsModbus.TcpCorrelation
import OmsModbus.GrowVec
import OmsModbus.SlaveStore
import OmsModbus.SlaveStoreMemory
import OmsModbus.Codec
import OmsModbus.Serial
import OmsModbus.Rtu
import OmsModbus.Ascii
import OmsModbus.EndToEnd
import OmsModbus.BusTiming
import OmsModbus.Broadcast
import OmsModbus.RtuFraming
import OmsModbus.AsciiStream
import OmsModbus.SerialResync
import OmsModbus.RequestCanonical
import OmsModbus.ResponseCanonical
import OmsModbus.DropOldest
import OmsModbus.SniffChannel
import OmsModbus.SniffIo
import OmsModbus.SniffBooks
import OmsModbus.SniffWaker
import OmsModbus.CaptureSetup
import OmsModbus.LostConnection
import OmsModbus.AnswerSize
import OmsModbus.ServerBuffers
import OmsModbus.BusCapture
import OmsModbus.TapEvents
import OmsModbus.AsciiGrammar
import OmsModbus.ReconnectContract
import OmsModbus.ReconnectCounters
import OmsModbus.RtuReceive
import OmsModbus.ModbusClient
import OmsModbus.EncoderContract
import OmsModbus.ReflectedCrc
import OmsModbus.RtuChecksum
import OmsModbus.AsciiChecksum
import OmsModbus.CaptureRecords
import OmsModbus.RecordBuffer
import OmsModbus.TouchExact
import OmsModbus.ServerSpacing
import OmsModbus.PanicChecks
import OmsModbus.PanicFreePdu
import OmsModbus.PanicFree
import OmsModbus.Calendar
import OmsModbus.Timestamp
import OmsModbus.SharedObject
import OmsModbus.TcpServer
import OmsModbus.TcpLinearizable
import OmsModbus.TcpIsolation
import OmsModbus.ServerRuns
import OmsModbus.ServerHook
import OmsModbus.LogFormat
import OmsModbus.ChannelRecorder
import OmsModbus.FileRecorder
import OmsModbus.AtLeastOnce
import OmsModbus.LossyLine
import OmsModbus.RemoteMemory
import OmsModbus.CapturedStream
