import PgClient.Lib.Block
import PgClient.Lib.BlockReader
import PgClient.Lib.ConsumingLoop
import PgClient.Lib.CrcRegister
import PgClient.Lib.DeviceLog
import PgClient.Lib.HalfCircular
import PgClient.Lib.Interleaving
import PgClient.Lib.KeyedList
import PgClient.Lib.LinkedHeap
import PgClient.Lib.LinkedRing
import PgClient.Lib.OwnedHeap
import PgClient.Lib.PartialRun
import PgClient.Lib.RingBuffer
import PgClient.Lib.SharedHandle
import PgClient.Lib.SlotTable
import PgClient.Lib.Stuffing
import PgClient.Lib.Timeline
import PgClient.Lib.TwoWire
import PgClient.Util.Crc32
import PgClient.Util.LittleEndian
import PgClient.Util.Text
import PgClient.Util.Bitmap
import PgClient.Util.Picture
import PgClient.Util.PictureMemory
import PgClient.Util.MList
import PgClient.PackSocket.Frame
import PgClient.PackSocket.Fifo
import PgClient.PackSocket.RecvList
import PgClient.PackSocket.Parse
import PgClient.Json.Strings
import PgClient.Json.Parse
import PgClient.Json.Print
import PgClient.Json.RoundTrip
import PgClient.PackSocket.ByteQueue
import PgClient.PackSocket.Receiver
import PgClient.PackSocket.Stream
import PgClient.PackSocket.Transparency
import PgClient.PackSocket.Send
import PgClient.PackSocket.Reassembly
import PgClient.PackSocket.Reconnect
import PgClient.PackSocket.Resync
import PgClient.PackSocket.Corruption
import PgClient.Loop.LoopList
import PgClient.Loop.Deque
import PgClient.PgDB.LocalDB
import PgClient.Power.Check
import PgClient.Power.Backlight
import PgClient.Power.ErrorNames
import PgClient.Pg.Device
import PgClient.OpenShort.Gate
import PgClient.Pg.ShutOn
import PgClient.Pg.PowerTiming
import PgClient.Clk.Clock5338
import PgClient.Gpio.Pins
import PgClient.Spi.VirtualSpi
import PgClient.Spi.Wire
import PgClient.I2c.VirtualI2c
import PgClient.I2c.Transactions
import PgClient.Box.PowerKey
import PgClient.Icm.Panel
import PgClient.Icm.Jd9367
import PgClient.Icm.Hi8394
import PgClient.Icm.Icn9706
import PgClient.Icm.Ili9806
import PgClient.Icm.Otm8019a
import PgClient.Icm.Hx8298c
import PgClient.Icm.Isolation
import PgClient.Icm.BurnCheck
import PgClient.Icm.Manager
import PgClient.Icm.GammaEntries
import PgClient.Icm.GammaCheck
import PgClient.Icm.Session
import PgClient.Icm.InitCode
import PgClient.Server.Otp
import PgClient.Server.GammaOtp
import PgClient.Server.Upgrade
import PgClient.Server.UpgradeBytes
import PgClient.Server.FirmwareWalk
import PgClient.Server.GammaText
import PgClient.Server.GammaParse
import PgClient.Server.ChannelIndex
import PgClient.Client.Reports
import PgClient.Client.Delivery
import PgClient.Client.Link
import PgClient.Server.Settings
import PgClient.Server.General
import PgClient.Ini.Dictionary
import PgClient.Ini.Parser
import PgClient.Ini.RoundTrip
import PgClient.Ini.Config
import PgClient.Ini.Reading
import PgClient.Sync.Receive
import PgClient.Sync.Records
import PgClient.Sync.Run
import PgClient.Serial.Codec
import PgClient.Serial.Unpack
import PgClient.Serial.Decoders
import PgClient.Serial.RingBuf
import PgClient.Serial.SerialDev
import PgClient.Serial.Uart
import PgClient.Mes.Server
import PgClient.Mes.Receive
import PgClient.Mipi.Flick
import PgClient.Mipi.LongWrite
import PgClient.Mipi.Timing
import PgClient.Mipi.FlickEnds
import PgClient.Lcd.Probe
import PgClient.Lcd.Registry
import PgClient.Fpga.Transfer
import PgClient.Serial.Capture
import PgClient.Serial.UnpackMemory
import PgClient.Serial.CodecMemory
import PgClient.Pgos.Queue
import PgClient.Pgos.Accounting
import PgClient.Pgos.Delivery
import PgClient.Pgos.Event
import PgClient.Pgos.EventWaits
import PgClient.Pgos.EventRuns
import PgClient.Pgos.EventModes
import PgClient.Pgos.EventRegistry
import PgClient.Lib.Deadlines
import PgClient.Pgos.Timer
import PgClient.Lib.RowCursor
import PgClient.PgDB.ResultTable
import PgClient.PgDB.ModuleDB
import PgClient.ThreadPool.Pool
import PgClient.ThreadPool.Jobs
