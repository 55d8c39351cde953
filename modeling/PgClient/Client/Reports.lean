import PgClient.Json.Print
import PgClient.PackSocket.Frame
import PgClient.Server.GammaText

/-!
# Reports to the server

`client.c` and `net_general_command.c` report to the server with JSON objects: an object is made,
printed and sent in one frame.

* `Report` — an object, and the command it is sent under.
* `Call` — the calls that report, with their arguments.
-/

namespace PgClient.Client

open BlockReader Text Json PackSocket PartialRun
open Server.GammaText (clientEndReadGamma strcat)

/-! ## Objects -/

/-- What is added to an object: `cJSON_AddNumberToObject`, `cJSON_AddStringToObject`, and
`cJSON_AddItemToObject` with `cJSON_CreateIntArray`. -/
inductive Field
  | number (key : String) (n : Int)
  | string (key : String) (s : List Byte)
  | ints (key : String) (numbers : List Int)

namespace Field

def key : Field → String
  | .number key _ => key
  | .string key _ => key
  | .ints key _ => key

/-- The name of the member. -/
def name (f : Field) : List Byte := ascii f.key

def item : Field → Item
  | .number _ n => createNumber n
  | .string _ s => .string s
  | .ints _ numbers => createIntArray numbers

/-- An `int`. -/
def int (key : String) (n : BitVec 32) : Field := .number key n.toInt

/-- A `short`. -/
def short (key : String) (n : BitVec 16) : Field := .number key n.toInt

/-- An `unsigned short`. -/
def ushort (key : String) (n : BitVec 16) : Field := .number key n.toNat

/-- An `unsigned char`, or a `char`, which is unsigned on this machine. -/
def uchar (key : String) (n : Byte) : Field := .number key n.toNat

end Field

/-- A report: what is sent, and under what command. -/
structure Report where
  typeCmd : BitVec 32
  fields : List Field
  ipnum : BitVec 32 := 0
  /-- The NUL is sent as well. -/
  nul : Bool := false

namespace Report

/-- The object, after `cJSON_CreateObject` and the calls that add to it. -/
def object (r : Report) : Item :=
  r.fields.foldl (fun object f => addItemToObject object f.name f.item) (.object .nil)

/-- The bytes that are handed to `sendSocketCmd`: `out` is printed, and `strlen(out)` counted. -/
def payload (r : Report) : Option (List Byte) :=
  (cJSONPrint r.object).map fun out => cstr out ++ if r.nul then [0] else []

/-- The call of `sendSocketCmd`. -/
def send (sendFd : Int) (r : Report) : Option (List Byte) := do
  let pData ← r.payload
  sendSocketCmd sendFd r.typeCmd r.ipnum 0 0 pData

end Report

/-! ## The functions -/

/-- `CLIENT_MSG_REBACK` with a type. -/
def reback (type : BitVec 32) : BitVec 32 := (type <<< 16) ||| 0x2020

/-- `sync_info_t`. -/
structure SyncInfo where
  syncProcess : BitVec 32
  timeStamp : BitVec 32
  deriving DecidableEq

/-- `client_register`; the sync information is what `read_sync_config` read. -/
def clientRegister (syncInfo : SyncInfo) (pSoftVer pHardVer pgCode : List Byte) : Report where
  typeCmd := 0x2000
  fields := [.int "syncStatus" syncInfo.syncProcess, .int "syncTimeStamp" syncInfo.timeStamp,
    .string "pgCode" pgCode, .string "hardVersion" pHardVer, .string "softVersion" pSoftVer]

/-- Numbers with points between them. -/
def dotted : List Nat → List Byte
  | [] => []
  | [n] => formatD n
  | n :: ns => formatD n ++ ch '.' :: dotted ns

/-- `client_register_ex`: every version is printed into 32 bytes. `buildTime` is what
`get_data_time_from_macro` makes of the date of the build. -/
def clientRegisterEx (fpgaVersion boxVersion powerVersion : BitVec 32) (buildTime : List Byte) :
    Option Report := do
  let part (v : BitVec 32) (k m : Nat) : Nat := ((v >>> k) &&& BitVec.ofNat 32 m).toNat
  let arm ← fits 32 (dotted [0, 0, 2])
  let fpga ← fits 32 (dotted [part fpgaVersion 12 0xf, part fpgaVersion 8 0xf,
    part fpgaVersion 4 0xf, part fpgaVersion 0 0xf])
  let box ← fits 32 (dotted [part boxVersion 16 0xff, part boxVersion 8 0xff,
    part boxVersion 0 0xff])
  let power ← fits 32 (dotted [part powerVersion 16 0xff, part powerVersion 8 0xff,
    part powerVersion 0 0xff])
  let build ← fits 32 buildTime
  some {
    typeCmd := 0x200A
    fields := [.string "arm_ver" arm, .string "fpga_ver" fpga, .string "box_ver" box,
      .string "power_ver" power, .string "build_time" build,
      .string "soft_desc" (ascii "Release: "),
      .string "ic_list" (ascii "OTM8019A, ILI9806E, ICN9706."),
      .string "hard_model" (ascii "ETS-1011"), .string "hard_ver" (ascii "1.0.0"),
      .string "SN" (ascii "0000-0000-000000")] }

/-- `client_getFile`: the address of the set goes into the frame as `ipnum`. -/
def clientGetFile (pFileName : List Byte) (infoSet : BitVec 32) : Report where
  typeCmd := 0x2001
  fields := [.string "fileName" pFileName]
  ipnum := infoSet

/-- `client_syncStatu`. -/
def clientSyncStatu (syncInfo : SyncInfo) : Report where
  typeCmd := 0x2002
  fields := [.int "syncStatus" syncInfo.syncProcess, .int "syncTimeStamp" syncInfo.timeStamp]

/-- `client_sendVcom`. -/
def clientSendVcom (channel vcom otp flick : BitVec 32) : Report where
  typeCmd := 0x2005
  fields := [.int "channel" channel, .int "vcom" vcom, .int "otp" otp, .int "flick" flick]

/-- `client_sendOtp`. -/
def clientSendOtp (channel otpResult maxOtpTimes : BitVec 32) : Report where
  typeCmd := 0x2039
  fields := [.int "channel" channel, .int "otp_result" otpResult, .int "max_otp_times" maxOtpTimes]

/-- `client_send_id_Otp_end`. -/
def clientSendIdOtpEnd (channel result maxOtpTimes : BitVec 32) : Report where
  typeCmd := 0x2049
  fields := [.int "channel" channel, .int "result" result, .int "max_otp_times" maxOtpTimes]

/-- `client_end_gamma_write`. -/
def clientEndGammaWrite (channel writeType : BitVec 32) : Report where
  typeCmd := 0x203A
  fields := [.int "channel" channel, .int "write_type" writeType]

/-- `client_end_read_gamma`, with the text that `clientEndReadGamma` builds. -/
def clientEndReadGammaReport (channel : BitVec 32) (data : List Byte)
    (otpp otpn readType : BitVec 32) : Option Report := do
  let strData ← clientEndReadGamma data
  some {
    typeCmd := 0x203B
    fields := [.int "channel" channel, .string "data" (cstr strData), .int "otpp" otpp,
      .int "otpn" otpn, .int "read_type" readType] }

/-- `client_end_gamma_otp`. -/
def clientEndGammaOtp (channel : BitVec 32) (msg : List Byte) : Report where
  typeCmd := 0x203C
  fields := [.int "channel" channel, .string "msg" msg]

/-- `client_end_realtime_control`: the text is built as in `client_end_read_gamma`. -/
def clientEndRealtimeControl (channel : BitVec 32) (data : List Byte) : Option Report := do
  let strData ← clientEndReadGamma data
  some {
    typeCmd := 0x203D
    fields := [.int "channel" channel, .string "data" (cstr strData)] }

/-- `client_end_firmware_upgrade`. -/
def clientEndFirmwareUpgrade (upgradeType upgradeState : BitVec 32) : Report where
  typeCmd := 0x2050
  fields := [.int "upgrade_type" upgradeType, .int "upgrade_state" upgradeState]

/-- What `sByPtnPwrInfo` has of a rail. -/
structure Rail where
  volt : BitVec 16
  voltHigh : BitVec 16
  voltLow : BitVec 16
  current : BitVec 32
  currentHigh : BitVec 32
  currentLow : BitVec 32

/-- What `sByPtnPwrInfo` has of all the rails, and of the backlight. -/
structure PwrReport where
  vdd : Rail
  vddio : Rail
  elvdd : Rail
  elvss : Rail
  vbl : BitVec 16
  iVbl : BitVec 16
  vsp : Rail
  vsn : Rail
  mtp : Rail

/-- `client_sendPower`. -/
def clientSendPower (channel : BitVec 32) (pwrInfo : PwrReport) : Report where
  typeCmd := 0x2007
  fields := [.int "Channel" channel,
    .short "VDD" pwrInfo.vdd.volt, .short "VDDh" pwrInfo.vdd.voltHigh,
    .short "VDDl" pwrInfo.vdd.voltLow, .int "iVDD" pwrInfo.vdd.current,
    .int "iVDDh" pwrInfo.vdd.currentHigh, .int "iVDDl" pwrInfo.vdd.currentLow,
    .short "VDDIO" pwrInfo.vddio.volt, .short "VDDIOh" pwrInfo.vddio.voltHigh,
    .short "VDDIOl" pwrInfo.vddio.voltLow, .int "iVDDIO" pwrInfo.vddio.current,
    .int "iVDDIOh" pwrInfo.vddio.currentHigh, .int "iVDDIOl" pwrInfo.vddio.currentLow,
    .short "ELVDD" pwrInfo.elvdd.volt, .short "ELVDDh" pwrInfo.elvdd.voltHigh,
    .short "ELVDDl" pwrInfo.elvdd.voltLow, .int "iELVDD" pwrInfo.elvdd.current,
    .int "iELVDDh" pwrInfo.elvdd.currentHigh, .int "iELVDDl" pwrInfo.elvdd.currentLow,
    .short "ELVSS" pwrInfo.elvss.volt, .short "ELVSSh" pwrInfo.elvss.voltHigh,
    .short "ELVSSl" pwrInfo.elvss.voltLow, .int "iELVSS" pwrInfo.elvss.current,
    .int "iELVSSh" pwrInfo.elvss.currentHigh, .int "iELVSSl" pwrInfo.elvss.currentLow,
    .ushort "VBL" pwrInfo.vbl, .short "iVBL" pwrInfo.iVbl,
    .number "VBLh" 0, .number "VBLl" 0, .number "iVBLh" 0, .number "iVBLl" 0,
    .short "VSP" pwrInfo.vsp.volt, .short "VSPh" pwrInfo.vsp.voltHigh,
    .short "VSPl" pwrInfo.vsp.voltLow, .int "iVSP" pwrInfo.vsp.current,
    .int "iVSPh" pwrInfo.vsp.currentHigh, .int "iVSPl" pwrInfo.vsp.currentLow,
    .short "VSN" pwrInfo.vsn.volt, .short "VSNh" pwrInfo.vsn.voltHigh,
    .short "VSNl" pwrInfo.vsn.voltLow, .int "iVSN" pwrInfo.vsn.current,
    .int "iVSNh" pwrInfo.vsn.currentHigh, .int "iVSNl" pwrInfo.vsn.currentLow,
    .short "MTP" pwrInfo.mtp.volt, .short "MTPh" pwrInfo.mtp.voltHigh,
    .short "MTPl" pwrInfo.mtp.voltLow, .int "iMTP" pwrInfo.mtp.current,
    .int "iMTPh" pwrInfo.mtp.currentHigh, .int "iMTPl" pwrInfo.mtp.currentLow]

/-- `client_sendReg`. -/
def clientSendReg (regAddr regValue : BitVec 32) : Report where
  typeCmd := 0x2008
  fields := [.int "regAddr" regAddr, .int "regValue" regValue]

/-- `client_sendRegStatus`. -/
def clientSendRegStatus (regAddr regStatu : BitVec 32) : Report where
  typeCmd := 0x2009
  fields := [.int "regAddr" regAddr, .int "regStatu" regStatu]

/-- `client_rebackPower`. -/
def clientRebackPower (powerOn : BitVec 32) : Report where
  typeCmd := reback 1
  fields := [.number "whatInfo" 1, .int "powerOn" powerOn]

/-- `client_notify_msg`; `none` is NULL. -/
def clientNotifyMsg (msgFlag : BitVec 32) (pMsg : Option (List Byte)) : Report where
  typeCmd := 0x2023
  fields := [.int "msg_flag" msgFlag,
    match pMsg with
    | some msg => .string "msg" msg
    | none => .string "msg" (ascii "OK!")]

/-- `client_rebackError`. -/
def clientRebackError (errorNo : BitVec 32) : Report where
  typeCmd := reback 3
  fields := [.int "errorNo" errorNo]

/-- `client_rebackFlick`. -/
def clientRebackFlick (flick polar : Byte) : Report where
  typeCmd := reback 4
  fields := [.uchar "curflick" flick, .uchar "curpolar" polar]

/-- `client_rebackautoFlick`. -/
def clientRebackautoFlick (channel index autoflick : BitVec 32) : Report where
  typeCmd := reback 5
  fields := [.int "index" index, .int "autoflick" autoflick, .int "Channel" channel]

/-- `client_rebackFlickOver`. -/
def clientRebackFlickOver (channel vcom flick : BitVec 32) : Report where
  typeCmd := reback 6
  fields := [.int "Channel" channel, .int "vcom" vcom, .int "flicker" flick]

/-- `client_sendPowerVersion`. -/
def clientSendPowerVersion (channel version : BitVec 32) : Report where
  typeCmd := 0x2021
  fields := [.number "channel" channel.toNat, .number "version" version.toNat]

/-- `client_sendBoxVersion`. -/
def clientSendBoxVersion (channel version : BitVec 32) : Report where
  typeCmd := 0x2022
  fields := [.number "channel" channel.toNat, .number "version" version.toNat]

/-- A register of `client_lcd_read_reg_ack`: `"\r\n"` in front of every sixteenth but the first,
and `"%02X "`. -/
def lcdPieces (i : Nat) : List Byte → List (List Byte)
  | [] => []
  | x :: data =>
    (if i ≠ 0 ∧ i % 16 = 0 then [[0x0d, 0x0a]] else []) ++
      [Server.GammaText.hexDigit (x.toNat / 16), Server.GammaText.hexDigit (x.toNat % 16), 0x20] :: lcdPieces (i + 1) data

/-- `str_data` of `client_lcd_read_reg_ack`. -/
def lcdStrData (data : List Byte) : Option (List Byte) :=
  runAll (fun piece strData => strcat strData (piece ++ [0])) (lcdPieces 0 data)
    (List.replicate 2048 0)

/-- `client_lcd_read_reg_ack`. -/
def clientLcdReadRegAck (channel : BitVec 32) (data : List Byte) : Option Report := do
  let strData ← lcdStrData data
  some {
    typeCmd := 0x2040
    fields := [.int "channel" channel, .string "read_data" (cstr strData)] }

/-- `client_power_test_read_open_short_mode_ack`. -/
def clientPowerTestReadOpenShortModeAck (mode : Byte) : Report where
  typeCmd := 0x204C
  fields := [.uchar "mode" mode]

/-- `client_power_test_read_vcom_volt_ack`. -/
def clientPowerTestReadVcomVoltAck (vcomVolt : BitVec 16) : Report where
  typeCmd := 0x2062
  fields := [.short "volt_vcom" vcomVolt]

/-- `client_power_test_read_vcom_status_ack`. -/
def clientPowerTestReadVcomStatusAck (vcomStatus : BitVec 16) : Report where
  typeCmd := 0x2063
  fields := [.short "vcom_enable" vcomStatus]

/-- `client_power_test_read_otp_volt_ack`. -/
def clientPowerTestReadOtpVoltAck (otpVolt : BitVec 16) : Report where
  typeCmd := 0x2066
  fields := [.ushort "volt_otp" otpVolt]

/-- `client_power_test_read_otp_status_ack`. -/
def clientPowerTestReadOtpStatusAck (otpStatus : BitVec 16) : Report where
  typeCmd := 0x2067
  fields := [.short "otp_enable" otpStatus]

/-- `client_power_test_read_open_short_ack`. -/
def clientPowerTestReadOpenShortAck (openShort : BitVec 16) : Report where
  typeCmd := 0x2068
  fields := [.ushort "open_short" openShort]

/-- `client_power_test_read_ntc_ag_ack`. -/
def clientPowerTestReadNtcAgAck (ntcAg : BitVec 16) : Report where
  typeCmd := 0x2069
  fields := [.ushort "ntc_ag" ntcAg]

/-- `client_gpio_get_state_ack`. -/
def clientGpioGetStateAck (index pin dir value : Byte) : Report where
  typeCmd := 0x206A
  fields := [.uchar "index" index, .uchar "pin" pin, .uchar "dir" dir, .uchar "value" value]

/-- `client_send_gen_cmd_ack_read_cabc_end`. -/
def clientSendGenCmdAckReadCabcEnd (channel : BitVec 32) (cabcFreq cabcDuty : BitVec 16) :
    Report where
  typeCmd := 0x2080
  fields := [.number "gen_cmd_id" 2, .string "gen_cmd_tag" (ascii "gen_ack_read_cabc_info"),
    .int "channel" channel, .ushort "cabc_freq" cabcFreq, .ushort "cabc_duty" cabcDuty]

/-- `client_send_gen_cmd_read_lcd_id_notify`: the array on the stack has 32 elements. -/
def clientSendGenCmdReadLcdIdNotify (channel : BitVec 32) (pIdData : List Byte) (otpTimes : Byte) :
    Option Report :=
  if pIdData.length ≤ 32 then
    some {
      typeCmd := 0x2080
      fields := [.number "gen_cmd_id" 3, .string "gen_cmd_tag" (ascii "gen_ack_read_display_id"),
        .int "channel" channel, .ints "id_array" (pIdData.map fun b => (b.toNat : Int)),
        .uchar "otp_times" otpTimes]
      nul := true }
  else none

/-! ## The calls -/

/-- A call of one of the functions. -/
inductive Call
  | register (syncInfo : SyncInfo) (pSoftVer pHardVer pgCode : List Byte)
  | registerEx (fpgaVersion boxVersion powerVersion : BitVec 32) (buildTime : List Byte)
  | getFile (pFileName : List Byte) (infoSet : BitVec 32)
  | syncStatu (syncInfo : SyncInfo)
  | sendVcom (channel vcom otp flick : BitVec 32)
  | sendOtp (channel otpResult maxOtpTimes : BitVec 32)
  | sendIdOtpEnd (channel result maxOtpTimes : BitVec 32)
  | endGammaWrite (channel writeType : BitVec 32)
  | endReadGamma (channel : BitVec 32) (data : List Byte) (otpp otpn readType : BitVec 32)
  | endGammaOtp (channel : BitVec 32) (msg : List Byte)
  | endRealtimeControl (channel : BitVec 32) (data : List Byte)
  | endFirmwareUpgrade (upgradeType upgradeState : BitVec 32)
  | sendPower (channel : BitVec 32) (pwrInfo : PwrReport)
  | sendReg (regAddr regValue : BitVec 32)
  | sendRegStatus (regAddr regStatu : BitVec 32)
  | rebackPower (powerOn : BitVec 32)
  | notifyMsg (msgFlag : BitVec 32) (pMsg : Option (List Byte))
  | rebackError (errorNo : BitVec 32)
  | rebackFlick (flick polar : Byte)
  | rebackautoFlick (channel index autoflick : BitVec 32)
  | rebackFlickOver (channel vcom flick : BitVec 32)
  | sendPowerVersion (channel version : BitVec 32)
  | sendBoxVersion (channel version : BitVec 32)
  | lcdReadRegAck (channel : BitVec 32) (data : List Byte)
  | readOpenShortModeAck (mode : Byte)
  | readVcomVoltAck (vcomVolt : BitVec 16)
  | readVcomStatusAck (vcomStatus : BitVec 16)
  | readOtpVoltAck (otpVolt : BitVec 16)
  | readOtpStatusAck (otpStatus : BitVec 16)
  | readOpenShortAck (openShort : BitVec 16)
  | readNtcAgAck (ntcAg : BitVec 16)
  | gpioGetStateAck (index pin dir value : Byte)
  | readCabcEnd (channel : BitVec 32) (cabcFreq cabcDuty : BitVec 16)
  | readLcdIdNotify (channel : BitVec 32) (pIdData : List Byte) (otpTimes : Byte)

namespace Call

/-- What a call reports; `none` is an access outside of a buffer. -/
def report : Call → Option Report
  | register syncInfo pSoftVer pHardVer pgCode =>
    some (clientRegister syncInfo pSoftVer pHardVer pgCode)
  | registerEx fpga box power buildTime => clientRegisterEx fpga box power buildTime
  | getFile pFileName infoSet => some (clientGetFile pFileName infoSet)
  | syncStatu syncInfo => some (clientSyncStatu syncInfo)
  | sendVcom channel vcom otp flick => some (clientSendVcom channel vcom otp flick)
  | sendOtp channel result times => some (clientSendOtp channel result times)
  | sendIdOtpEnd channel result times => some (clientSendIdOtpEnd channel result times)
  | endGammaWrite channel type => some (clientEndGammaWrite channel type)
  | endReadGamma channel data otpp otpn type =>
    clientEndReadGammaReport channel data otpp otpn type
  | endGammaOtp channel msg => some (clientEndGammaOtp channel msg)
  | endRealtimeControl channel data => clientEndRealtimeControl channel data
  | endFirmwareUpgrade type state => some (clientEndFirmwareUpgrade type state)
  | sendPower channel pwrInfo => some (clientSendPower channel pwrInfo)
  | sendReg addr value => some (clientSendReg addr value)
  | sendRegStatus addr statu => some (clientSendRegStatus addr statu)
  | rebackPower powerOn => some (clientRebackPower powerOn)
  | notifyMsg flag pMsg => some (clientNotifyMsg flag pMsg)
  | rebackError errorNo => some (clientRebackError errorNo)
  | rebackFlick flick polar => some (clientRebackFlick flick polar)
  | rebackautoFlick channel index flick => some (clientRebackautoFlick channel index flick)
  | rebackFlickOver channel vcom flick => some (clientRebackFlickOver channel vcom flick)
  | sendPowerVersion channel version => some (clientSendPowerVersion channel version)
  | sendBoxVersion channel version => some (clientSendBoxVersion channel version)
  | lcdReadRegAck channel data => clientLcdReadRegAck channel data
  | readOpenShortModeAck mode => some (clientPowerTestReadOpenShortModeAck mode)
  | readVcomVoltAck volt => some (clientPowerTestReadVcomVoltAck volt)
  | readVcomStatusAck status => some (clientPowerTestReadVcomStatusAck status)
  | readOtpVoltAck volt => some (clientPowerTestReadOtpVoltAck volt)
  | readOtpStatusAck status => some (clientPowerTestReadOtpStatusAck status)
  | readOpenShortAck openShort => some (clientPowerTestReadOpenShortAck openShort)
  | readNtcAgAck ntcAg => some (clientPowerTestReadNtcAgAck ntcAg)
  | gpioGetStateAck index pin dir value => some (clientGpioGetStateAck index pin dir value)
  | readCabcEnd channel freq duty => some (clientSendGenCmdAckReadCabcEnd channel freq duty)
  | readLcdIdNotify channel data times => clientSendGenCmdReadLcdIdNotify channel data times

/-- What the callers keep to: strings are no longer than 3000 bytes together, blocks fit the
buffers that they are printed into, and channels and versions fit an `int`. -/
def Fits : Call → Prop
  | register _ pSoftVer pHardVer pgCode => Plain pSoftVer ∧ Plain pHardVer ∧ Plain pgCode ∧
    pSoftVer.length + pHardVer.length + pgCode.length ≤ 3000
  | registerEx _ _ _ buildTime => Plain buildTime ∧ buildTime.length ≤ 31
  | getFile pFileName _ => Plain pFileName ∧ pFileName.length ≤ 3000
  | endReadGamma _ data _ _ _ => data.length ≤ 333
  | endGammaOtp _ msg => Plain msg ∧ msg.length ≤ 3000
  | endRealtimeControl _ data => data.length ≤ 333
  | notifyMsg _ pMsg => ∀ msg ∈ pMsg, Plain msg ∧ msg.length ≤ 3000
  | sendPowerVersion channel version => channel.toNat ≤ 2147483647 ∧ version.toNat ≤ 2147483647
  | sendBoxVersion channel version => channel.toNat ≤ 2147483647 ∧ version.toNat ≤ 2147483647
  | lcdReadRegAck _ data => data.length ≤ 655
  | readLcdIdNotify _ pIdData _ => pIdData.length ≤ 32
  | _ => True

end Call

end PgClient.Client
