import PicoDrone.Library.Machine
import PicoDrone.Library.Family
import PicoDrone.Library.Region
import PicoDrone.Library.CString
import PicoDrone.Library.Tlv
import PicoDrone.Library.DomainName
import PicoDrone.Library.Decimal
import PicoDrone.Library.CircularBuffer
import PicoDrone.Library.ShiftRegister
import PicoDrone.Library.GuardedCalls
import PicoDrone.Model.I2cDriver
import PicoDrone.Model.I2cController
import PicoDrone.Model.I2cRecording
import PicoDrone.Model.I2cWatch
import PicoDrone.Model.I2cClients
import PicoDrone.Model.I2cCalls
import PicoDrone.Model.I2cInstances
import PicoDrone.Model.I2cTasks
import PicoDrone.Model.Eeprom
import PicoDrone.Model.Rtc
import PicoDrone.Model.IPStack
import PicoDrone.Model.OsUart
import PicoDrone.Model.NetworkClass
import PicoDrone.Model.TcpServer
import PicoDrone.Model.TlsClient
import PicoDrone.Model.MqttWifiManager
import PicoDrone.Model.Blinker
import PicoDrone.Model.Irqs
import PicoDrone.Model.DhcpServer
import PicoDrone.Model.DnsServer
import PicoDrone.Analysis.I2cRecording
import PicoDrone.Analysis.I2cCommandStream
import PicoDrone.Analysis.I2cBus
import PicoDrone.Analysis.I2cWilling
import PicoDrone.Analysis.I2cEager
import PicoDrone.Analysis.I2cSuccess
import PicoDrone.Analysis.I2cReception
import PicoDrone.Analysis.I2cProgress
import PicoDrone.Analysis.I2cCallCount
import PicoDrone.Analysis.I2cEarlyStop
import PicoDrone.Analysis.I2cCrossTalk
import PicoDrone.Analysis.I2cRouting
import PicoDrone.Analysis.Crc16
import PicoDrone.Analysis.EepromStore
import PicoDrone.Analysis.BurstErrors
import PicoDrone.Analysis.RtcStore
import PicoDrone.Analysis.UnreceivedBytes
import PicoDrone.Analysis.SharedBus
import PicoDrone.Analysis.IPStackRing
import PicoDrone.Analysis.IPStackPcb
import PicoDrone.Analysis.IPStackSessions
import PicoDrone.Analysis.IPStackWrite
import PicoDrone.Analysis.OsUartTransmit
import PicoDrone.Analysis.OsUartArmed
import PicoDrone.Analysis.OsUartWriters
import PicoDrone.Analysis.CgiHandler
import PicoDrone.Analysis.Provisioning
import PicoDrone.Analysis.TcpOwnership
import PicoDrone.Analysis.TcpResponses
import PicoDrone.Analysis.TlsSetpoint
import PicoDrone.Analysis.MqttValue
import PicoDrone.Analysis.BlinkerCommands
import PicoDrone.Analysis.Debouncing
import PicoDrone.Analysis.RotaryDecoding
import PicoDrone.Analysis.DhcpMessages
import PicoDrone.Analysis.DhcpLeases
import PicoDrone.Analysis.DnsReplies
import PicoDrone.Analysis.QueueTasks
import PicoDrone.Analysis.HeapStatistics
import PicoDrone.Analysis.LedPages
import PicoDrone.Analysis.TlsCalls
