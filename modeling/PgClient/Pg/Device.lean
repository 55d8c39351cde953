import PgClient.Lib.DeviceLog
import PgClient.Power.Check

/-!
# The client around the panel's power

What `client_pg_shutON`, the open/short test and the box handler do to the
outside, in the source's own calls, and the static data they share. The
readings of the open/short test are the answers of the world.
-/

namespace PgClient.Pg

open DeviceLog Power

/-! ## The outside -/

/-- The two sides of a TTL or LVDS panel. -/
inductive TtlLvdsChannel
  | left
  | right
  deriving DecidableEq

/-- `PIN_STATU_OK`, `PIN_STATU_OPEN` and `PIN_STATU_SHORT`. -/
inductive PinStatu
  | ok
  | opened
  | shorted
  deriving DecidableEq

/-- The messages `client_notify_msg` sends to the PC. -/
inductive PcMsg
  | powerOn
  | powerOff
  | testing (channel : TtlLvdsChannel)
  | failed (channel : TtlLvdsChannel)
  | line
  | pin (pin : Nat) (status : PinStatu)
  | gpio (pin : Nat) (status : PinStatu)
  deriving DecidableEq

/-- Their texts. There is none for a GPIO that is ok. -/
def PcMsg.text : PcMsg → String
  | .powerOn => "开电成功!"
  | .powerOff => "设备关电!"
  | .testing .left => "++++++++++++++++开短路检测左侧通道++++++++++++++++\r\n"
  | .testing .right => "++++++++++++++++开短路检测右侧通道++++++++++++++++\r\n"
  | .failed .left => "\r\n*警告：开短路检测左侧通道未通过\r\n"
  | .failed .right => "\r\n*警告：开短路检测右侧通道未通过\r\n"
  | .line => "\r\n++++++++++++++++++++++++++++++++++++++++++++++++++\r\n"
  | .pin i .opened => s!"NG: 开短路检测：PIN {i + 1} 处于开路状态!"
  | .pin i .shorted => s!"NG: 开短路检测：PIN {i + 1} 处于短路状态!"
  | .pin i .ok => s!"OK: 开短路检测：PIN {i + 1} 处于正常状态!"
  | .gpio i .opened => s!"NG: 开短路检测：GPIO {i + 1} 处于开路状态!"
  | .gpio i .shorted => s!"NG: 开短路检测：GPIO {i + 1} 处于短路状态!"
  | .gpio _ .ok => ""

/-- `NOTIFY_ERROR_OPEN_SHORT_CHECK`. -/
def notifyErrorOpenShortCheck : Int := -2

/-- `PWR_CMD_POWER_ON` and `PWR_CMD_POWER_OFF`. -/
inductive PwrCmd
  | powerOn
  | powerOff
  deriving DecidableEq

/-- What the client does to the outside. -/
inductive Event
  | pwrSnd2Serial (cmd : PwrCmd) (channel : Int)
  | clientNotifyMsg (msgFlag : Int) (msg : PcMsg)
  | clientRebackPower (power : Int)
  | boxShowBeingPowerOnMsg
  | boxNotifyPowerOnEnd
  | boxNotifyPowerDown
  | boxNotifyOpenshortErrorDown
  | boxCmdTransferPowerKey (pgPwrStatus : Int)
  | boxSavePwrData
  | pwrErrorProcess (error : Int)
  | sp6EntryOpenShortMode
  | sp6LeaveOpenShortMode
  | sp6OpenTtlSignal
  | sp6CloseTtlSignal
  | sp6OpenLvdsSignal
  | sp6CloseLvdsSignal
  | sp6SetOpenShortData (channel : TtlLvdsChannel) (pinValue : BitVec 32)
  | mcuReadOpenShortData (channel : TtlLvdsChannel) (value : BitVec 16)
  | gpioSetOutputValue (gpio value : Nat)
  | msleep (msecond : Nat)
  | doIcNonePowerTiming (bOn : Bool)
  | setCurrentPicture (ptnId : Int)
  | lvdsSignalInterfaceInit
  | dpSignalInterfaceInit
  | mipiSiganlInterfaceInit
  | mipi2828Open (channel : Int)
  | mipi2828Close
  | icMgrSndInitCode (channel : Fin 4)
  | mcuSetVcomMaxVolt (volt : Nat)
  | mcuSetVcomVolt (volt : Nat)
  | mcuSetVcomEnable (enable : Bool)
  | fpgaWrite16bits (reg value : Nat)
  | fpgaWrite (reg value : Nat)

/-! ## Static data -/

/-- The fields of `monitor_cfg_info_t` that are used. -/
structure MonitorCfg where
  ntcEnable : Int
  openShortEnable : Int
  openShortCheckOpenValue : Int
  openShortCheckShortValue : Int

/-- What loading a module sets up: `s_timing_info`, `s_monitor_cfg_info`,
`s_power_info`; and which module files there are. -/
structure Setup where
  timsignaltype : Int
  monitorCfg : MonitorCfg
  vcomMaxVolt : Nat
  vcomSetVolt : Nat
  fileExists : String → Bool

/-- The fields of `box_cur_state_t` that are used. -/
structure BoxCurState where
  isConnected : Int
  pgPwrStatus : Int
  boxLayer : Int
  curModuleName : String
  curPtnId : Int

/-- The static data. `sBoxPowerOnStatus` is not set where `client_pg_shutON` returns
no value. -/
structure Mem where
  setup : Setup
  pgPwrStatus : Int
  pgCurPtnId : Int
  bPwrUpdatePaused : Bool
  bNtcCheckPaused : Bool
  boxCurState : BoxCurState
  sBoxPowerOnStatus : Option Int
  mCurrentModuleFilename : String

/-- The client with its panel. -/
abbrev Board := World Event (BitVec 16) Mem

/-- A call into the client. -/
abbrev Call := Prog Event (BitVec 16) Mem

/-! ## Calls -/

def clientNotifyMsg (msgFlag : Int) (msg : PcMsg) : Call Unit := emit (.clientNotifyMsg msgFlag msg)

def msleep (msecond : Nat) : Call Unit := emit (.msleep msecond)

def gpioSetOutputValue (gpio value : Nat) : Call Unit := emit (.gpioSetOutputValue gpio value)

def sp6SetOpenShortData (channel : TtlLvdsChannel) (pinValue : BitVec 32) : Call Unit :=
  emit (.sp6SetOpenShortData channel pinValue)

def mcuReadOpenShortData (channel : TtlLvdsChannel) : Call (BitVec 16) :=
  ask (.mcuReadOpenShortData channel)

section Runs

variable (w : Board)

@[simp] theorem run_clientNotifyMsg (msgFlag : Int) (msg : PcMsg) :
    clientNotifyMsg msgFlag msg w = .ok () (w.after 0 [.clientNotifyMsg msgFlag msg]) := rfl

@[simp] theorem run_msleep (msecond : Nat) : msleep msecond w = .ok () (w.after 0 [.msleep msecond]) :=
  rfl

@[simp] theorem run_gpioSetOutputValue (gpio value : Nat) :
    gpioSetOutputValue gpio value w = .ok () (w.after 0 [.gpioSetOutputValue gpio value]) := rfl

@[simp] theorem run_sp6SetOpenShortData (channel : TtlLvdsChannel) (pinValue : BitVec 32) :
    sp6SetOpenShortData channel pinValue w =
      .ok () (w.after 0 [.sp6SetOpenShortData channel pinValue]) := rfl

@[simp] theorem run_mcuReadOpenShortData (channel : TtlLvdsChannel) :
    mcuReadOpenShortData channel w =
      .ok (w.reply 0) (w.after 1 [.mcuReadOpenShortData channel (w.reply 0)]) := rfl

end Runs

end PgClient.Pg
