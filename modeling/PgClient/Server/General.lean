import PgClient.Client.Delivery
import PgClient.Server.Settings
import PgClient.Util.LittleEndian

/-!
# General commands

`net_general_command.c`: the server sends an object with a number for the command and what the
command needs. Here the requests go through the whole client: the frames of the server over
`parseSocketCmd`, `cJSON_Parse` and `net_general_command_proc` to the files of `main.c`, the
messages for the power boards and the answers.

* `requests_done` — every request that fits is done, in order, up to the first that reboots,
  wherever the stream is cut.
* `burn_misses` — what is calibrated for a channel is never what is burnt for it.
-/

namespace PgClient.Server.General

open BlockReader Text Json PackSocket PartialRun Settings Client

/-! ## The code -/

/-- `initPwrMsgHead` of `pubPwrTask.c`: 20 bytes without gaps. -/
def initPwrMsgHead (cmd type : Byte) (len dAddr signalType signalFd : BitVec 16)
    (ipaddr : BitVec 32) (channel : BitVec 16) (result : BitVec 32) : List Byte :=
  [cmd, type] ++ le16Bytes len ++ le16Bytes dAddr ++ le16Bytes signalType ++ le16Bytes signalFd ++
    le32Bytes ipaddr ++ le16Bytes channel ++ le32Bytes result

/-- `powerCmdCalibrationPowerItem`: what it hands to `pwrSnd2Serial`. `abs` is not defined on the
least `int`. -/
def powerCmdCalibrationPowerItem (channel powerType action : Byte) (powerData : BitVec 32) :
    Option (List Byte) :=
  if powerData = 0x80000000 then none
  else some (initPwrMsgHead 0x80 0x05 (20 - 4 + 8) 0 0x03 0 0 (channel.setWidth 16) 0 ++
    [0, powerType, action, if 0 ≤ powerData.toInt then 1 else 2] ++
    le32Bytes (if 0 ≤ powerData.toInt then powerData else -powerData))

/-- What the commands act on. -/
structure Device where
  ethCfg : Option (List Byte)
  macCfg : Option (List Byte)
  /-- `do_factory_reset` has removed the modules and the database. -/
  cleared : Bool
  /-- `system("reboot")` has been called. -/
  rebooting : Bool
  /-- The messages for the power boards. -/
  serial : List (List Byte)
  /-- The answers. -/
  acks : List Report

/-- `net_work_config_save`: nothing is written for a text that is NULL. -/
def netWorkConfigSave (ip netmask gateway : Option (List Byte)) (d : Device) : Option Device :=
  match ip, netmask, gateway with
  | some ip, some netmask, some gateway =>
    (netWorkConfigWrite ip netmask gateway).map fun file => { d with ethCfg := some file }
  | _, _, _ => some d

/-- `net_work_mac_config_save`. -/
def netWorkMacConfigSave (mac : Option (List Byte)) (d : Device) : Option Device :=
  match mac with
  | some mac => (netWorkMacConfigWrite mac).map fun file => { d with macCfg := some file }
  | none => some d

/-- `do_factory_reset`. -/
def doFactoryReset (d : Device) : Device :=
  { d with ethCfg := none, macCfg := none, cleared := true }

/-- `system("reboot")`. -/
def reboot (d : Device) : Device := { d with rebooting := true }

/-- `pwrSnd2Serial`, of a message that could be made. -/
def pwrSnd2Serial (message : Option (List Byte)) (d : Device) : Option Device :=
  message.map fun message => { d with serial := d.serial ++ [message] }

/-- What `qc_cabc_test` stores for a channel, the second time that it is called for an answer. -/
abbrev Measurement := Nat → BitVec 32 → BitVec 16 × BitVec 16

/-- The branches of `net_general_command_proc`. -/
def generalCommand (cabc : Measurement) (root : Item) (d : Device) :
    Int → Option Device
  | 1 =>
    let mipiChannel : Int := match root.getObjectItem (ascii "channel") with
      | some channel => channel.valueint
      | none => 1
    let (freq, duty) := cabc d.acks.length (if mipiChannel = 1 then 1 else if mipiChannel = 4 then 4 else 1)
    -- the answer is always for channel 1
    some { d with acks := d.acks ++ [clientSendGenCmdAckReadCabcEnd 1 freq duty] }
  | 4 =>
    match root.getObjectItem (ascii "ip"), root.getObjectItem (ascii "net_mask"),
      root.getObjectItem (ascii "gateway") with
    | some ip, some netmask, some gateway =>
      (netWorkConfigSave ip.valuestring netmask.valuestring gateway.valuestring d).map reboot
    | _, _, _ => some d
  | 5 =>
    match root.getObjectItem (ascii "mac") with
    | some mac => (netWorkMacConfigSave mac.valuestring d).map reboot
    | none => some d
  | 6 => some (reboot (doFactoryReset d))
  | 7 =>
    match root.getObjectItem (ascii "power_channel"), root.getObjectItem (ascii "power_type"),
      root.getObjectItem (ascii "power_data") with
    | some channel, some type, some data =>
      let powerChannel := BitVec.ofInt 8 channel.valueint
      pwrSnd2Serial (powerCmdCalibrationPowerItem (if powerChannel = 2 then 3 else 2)
        (BitVec.ofInt 8 type.valueint) 1 (BitVec.ofInt 32 data.valueint)) d
    | _, _, _ => some d
  | 8 =>
    match root.getObjectItem (ascii "power_channel") with
    | some channel =>
      let powerChannel := BitVec.ofInt 8 channel.valueint
      pwrSnd2Serial (powerCmdCalibrationPowerItem (if powerChannel = 2 then 2 else 3) 0 2 0) d
    | none => some d
  | _ => some d

/-- `net_general_command_proc`; `none` is a fault. Without data the pointer is NULL. An object that
cannot be read is followed by `cJSON_GetObjectItem`, before it is tested. -/
def netGeneralCommandProc (stack : Nat) (cabc : Measurement)
    (pJsonCommandData : List Byte) (d : Device) : Option (Int × Device) :=
  if pJsonCommandData = [] then some (-1, d)
  else
    match cJSONParse stack pJsonCommandData with
    | .ok root _ =>
      match root.getObjectItem (ascii "gen_cmd_id") with
      | none => some (-4, d)
      | some id => (generalCommand cabc root d id.valueint).map fun d => (0, d)
    | _ => none

/-- `msgProc`, of the command `SERVER2CLI_MSG_GENERAL_CMD`. -/
def msgProc (stack : Nat) (cabc : Measurement) (c : SocketCmd) (d : Device) :
    Option Device :=
  if c.cmd = 0x4080 then (netGeneralCommandProc stack cabc c.pcmd d).map Prod.snd else some d

/-- A turn of the thread that receives: what comes after the reboot finds no process. -/
def turn (stack : Nat) (cabc : Measurement) (c : SocketCmd) (d : Device) : Option Device :=
  if d.rebooting then some d else msgProc stack cabc c d

/-! ## Requests -/

/-- What a server asks for. -/
inductive Request
  | readCabc (channel : BitVec 32)
  | setIpInfo (ip netmask gateway : List Byte)
  | setMacInfo (mac : List Byte)
  | factoryReset
  | powerCalibration (channel type : Byte) (data : BitVec 32)
  | powerSettingBurn (channel : Byte)

namespace Request

/-- `gen_cmd_id`. -/
def id : Request → Int
  | readCabc _ => 1
  | setIpInfo _ _ _ => 4
  | setMacInfo _ => 5
  | factoryReset => 6
  | powerCalibration _ _ _ => 7
  | powerSettingBurn _ => 8

/-- What the command needs. -/
def params : Request → List Field
  | readCabc channel => [.int "channel" channel]
  | setIpInfo ip netmask gateway =>
    [.string "ip" ip, .string "net_mask" netmask, .string "gateway" gateway]
  | setMacInfo mac => [.string "mac" mac]
  | factoryReset => []
  | powerCalibration channel type data =>
    [.uchar "power_channel" channel, .uchar "power_type" type, .int "power_data" data]
  | powerSettingBurn channel => [.uchar "power_channel" channel, .number "power_type" 0]

/-- A request as it is sent. -/
def message (r : Request) : Report where
  typeCmd := 0x4080
  fields := .number "gen_cmd_id" r.id :: .string "gen_cmd_tag" (ascii "gen_cmd") :: r.params
  nul := true

/-- The panel has the channels 1 and 4, the texts fit into the records, and the size of a
calibration is an `int`. -/
def Fits : Request → Prop
  | readCabc channel => channel = 1 ∨ channel = 4
  | powerCalibration _ _ data => data ≠ 0x80000000
  | setIpInfo ip netmask gateway => (Plain ip ∧ ip.length < 16) ∧
      (Plain netmask ∧ netmask.length < 16) ∧ Plain gateway ∧ gateway.length < 16
  | setMacInfo mac => Plain mac ∧ mac.length < 18
  | _ => True

end Request

/-- What a power board is told. -/
inductive Order
  | calibrate (type : Byte) (delta : Int)
  | burn
  deriving DecidableEq

/-- The channel, the action and the item in a message. -/
def boardOf (message : List Byte) : Byte := message.getD 14 0

def actionOf (message : List Byte) : Byte := message.getD 22 0

def itemOf (message : List Byte) : Byte := message.getD 21 0

/-- The difference in a message: 1 is up, and 2 is down. -/
def deltaOf (message : List Byte) : Option Int :=
  let size : Int := (le32 (message.drop 24)).toNat
  if message.getD 23 0 = 1 then some size
  else if message.getD 23 0 = 2 then some (-size)
  else none

/-- A message, as a board reads it. -/
def orderOf (message : List Byte) : Option Order :=
  if actionOf message = 1 then (deltaOf message).map (.calibrate (itemOf message))
  else if actionOf message = 2 then some .burn
  else none

/-- What a server has asked for, until the device reboots. -/
structure Asked where
  address : Option (List Byte × List Byte × List Byte)
  mac : Option (List Byte)
  cleared : Bool
  rebooted : Bool
  orders : List Order
  /-- The channels of the panel to measure. -/
  measured : List (BitVec 32)

/-- A request means what it says. -/
def Asked.ask (a : Asked) : Request → Asked
  | .readCabc channel => { a with measured := a.measured ++ [channel] }
  | .setIpInfo ip netmask gateway =>
    { a with address := some (ip, netmask, gateway), rebooted := true }
  | .setMacInfo mac => { a with mac := some mac, rebooted := true }
  | .factoryReset => { a with address := none, mac := none, cleared := true, rebooted := true }
  | .powerCalibration _ type data => { a with orders := a.orders ++ [.calibrate type data.toInt] }
  | .powerSettingBurn _ => { a with orders := a.orders ++ [.burn] }

/-- After a reboot nothing is left that could do it. -/
def Asked.next (a : Asked) (r : Request) : Asked := if a.rebooted then a else a.ask r

/-- Before the first request. -/
def Asked.none : Asked := ⟨.none, .none, false, false, [], []⟩

/-- An answer with what has been measured. -/
def Answers (ack : Report) (freq duty : BitVec 16) : Prop :=
  ack.typeCmd = 0x2080 ∧ .number "gen_cmd_id" 2 ∈ ack.fields ∧
    .ushort "cabc_freq" freq ∈ ack.fields ∧ .ushort "cabc_duty" duty ∈ ack.fields

/-- The device is as the server has asked for: the settings that it finds when it starts, its other
files, what the power boards, 2 and 3, have been told, and an answer for every measurement. -/
structure Shows (cabc : Measurement) (d : Device) (a : Asked) : Prop where
  address : d.ethCfg.bind netWorkConfigRead = a.address
  ethCfg : a.address = .none → d.ethCfg = .none
  mac : d.macCfg.bind netWorkMacConfigRead = a.mac
  macCfg : a.mac = .none → d.macCfg = .none
  cleared : d.cleared = a.cleared
  rebooted : d.rebooting = a.rebooted
  serial : List.Forall₂ (fun message order => orderOf message = some order ∧
    (boardOf message = 2 ∨ boardOf message = 3)) d.serial a.orders
  acks : List.Forall₂ (fun ack (value : BitVec 16 × BitVec 16) => Answers ack value.1 value.2)
    d.acks (a.measured.mapIdx cabc)

/-- A device without files. -/
def Device.fresh : Device := ⟨none, none, false, false, [], []⟩

/-- The device at boot shows nothing. -/
theorem shows_fresh (cabc : Measurement) : Shows cabc .fresh .none :=
  ⟨rfl, fun _ => rfl, rfl, fun _ => rfl, rfl, rfl, .nil, .nil⟩

/-! ## One request -/

/-- A request that fits is a JSON text that can be read back. -/
theorem Request.message_sound {r : Request} (h : r.Fits) : r.message.Sound := by
  have htag : Plain (ascii "gen_cmd") := by decide
  -- as for the calls of the client, each against a message of its shape with empty fields
  cases r with
  | readCabc channel =>
    refine .of_like ⟨0x4080, [.number "gen_cmd_id" 1, .string "gen_cmd_tag" [], .int "channel" 0],
      0, true⟩ rfl (by decide +kernel) ?_ ?_
    · simp [Request.message, Request.params, Request.id, htag]
    · simp [Request.message, Request.params, ascii]
  | setIpInfo ip netmask gateway =>
    obtain ⟨⟨hip, hiplen⟩, ⟨hmask, hmasklen⟩, hgw, hgwlen⟩ := h
    refine .of_like ⟨0x4080, [.number "gen_cmd_id" 1, .string "gen_cmd_tag" [], .string "ip" [],
      .string "net_mask" [], .string "gateway" []], 0, true⟩ rfl (by decide +kernel) ?_ ?_
    · simp [Request.message, Request.params, Request.id, htag, hip, hmask, hgw]
    · simp [Request.message, Request.params, ascii]
      omega
  | setMacInfo mac =>
    obtain ⟨hmac, hlen⟩ := h
    refine .of_like ⟨0x4080, [.number "gen_cmd_id" 1, .string "gen_cmd_tag" [], .string "mac" []],
      0, true⟩ rfl (by decide +kernel) ?_ ?_
    · simp [Request.message, Request.params, Request.id, htag, hmac]
    · simp [Request.message, Request.params, ascii]
      omega
  | factoryReset =>
    refine .of_like ⟨0x4080, [.number "gen_cmd_id" 1, .string "gen_cmd_tag" []], 0, true⟩ rfl
      (by decide +kernel) ?_ ?_
    · simp [Request.message, Request.params, Request.id, htag]
    · simp [Request.message, Request.params, ascii]
  | powerCalibration channel type data =>
    refine .of_like ⟨0x4080, [.number "gen_cmd_id" 1, .string "gen_cmd_tag" [],
      .uchar "power_channel" 0, .uchar "power_type" 0, .int "power_data" 0], 0, true⟩ rfl
      (by decide +kernel) ?_ ?_
    · simp [Request.message, Request.params, Request.id, htag]
    · simp [Request.message, Request.params, ascii]
  | powerSettingBurn channel =>
    refine .of_like ⟨0x4080, [.number "gen_cmd_id" 1, .string "gen_cmd_tag" [],
      .uchar "power_channel" 0, .number "power_type" 0], 0, true⟩ rfl (by decide +kernel) ?_ ?_
    · simp [Request.message, Request.params, Request.id, htag]
    · simp [Request.message, Request.params, ascii]

/-- A calibration has action 1. -/
theorem actionOf_calibrate {message : List Byte} {type : Byte} {delta : Int}
    (h : orderOf message = some (.calibrate type delta)) : actionOf message = 1 := by
  unfold orderOf at h
  split at h
  · assumption
  · split at h <;> cases h

/-- A burn has action 2. -/
theorem actionOf_burn {message : List Byte} (h : orderOf message = some .burn) :
    actionOf message = 2 := by
  unfold orderOf at h
  split at h
  · obtain ⟨delta, -, heq⟩ := Option.map_eq_some_iff.mp h
    cases heq
  · split at h
    · assumption
    · cases h

/-- A message reads as what it was made of. -/
theorem powerCmd_spec (channel powerType action : Byte) {powerData : BitVec 32}
    (h : powerData ≠ 0x80000000) : ∃ message,
      powerCmdCalibrationPowerItem channel powerType action powerData = some message ∧
      boardOf message = channel ∧ actionOf message = action ∧ itemOf message = powerType ∧
      deltaOf message = some powerData.toInt := by
  refine ⟨_, if_neg h, ?_, rfl, rfl, ?_⟩
  · show (channel.setWidth 16).setWidth 8 = channel
    simp
  · rw [deltaOf]
    have hdirection (b : Byte) (bs : List Byte) :
        (initPwrMsgHead 0x80 0x05 (20 - 4 + 8) 0 0x03 0 0 (channel.setWidth 16) 0 ++
          [0, powerType, action, b] ++ bs).getD 23 0 = b := rfl
    have hsize (b : Byte) (bs : List Byte) :
        (initPwrMsgHead 0x80 0x05 (20 - 4 + 8) 0 0x03 0 0 (channel.setWidth 16) 0 ++
          [0, powerType, action, b] ++ bs).drop 24 = bs := rfl
    rw [hdirection, hsize, le32_le32Bytes]
    have hint := BitVec.toInt_eq_toNat_cond powerData
    have hlt := powerData.isLt
    by_cases hsign : 0 ≤ powerData.toInt
    · rw [if_pos hsign, if_pos hsign, if_pos rfl]
      congr 1
      omega
    · -- a negative number goes with its size, which is that of an `int`
      have hne : powerData.toNat ≠ 0 := by omega
      rw [if_neg hsign, if_neg hsign, if_neg (by decide), if_pos rfl, BitVec.toNat_neg]
      congr 1
      omega

section Done

variable {cabc : Measurement} {d : Device} {a : Asked}

/-- Another message, that reads as another order. -/
theorem Shows.order (h : Shows cabc d a) {message : List Byte} {order : Order}
    (horder : orderOf message = some order) (hboard : boardOf message = 2 ∨ boardOf message = 3) :
    Shows cabc { d with serial := d.serial ++ [message] } { a with orders := a.orders ++ [order] } :=
  { h with serial := List.rel_append h.serial (.cons ⟨horder, hboard⟩ .nil) }

/-- A reading is answered with what was measured. -/
theorem readCabc_done (h : Shows cabc d a) {channel : BitVec 32} (hr : channel = 1 ∨ channel = 4)
    {root : Item}
    (hchannel : root.getObjectItem (ascii "channel") = some (createNumber channel.toInt)) :
    ∃ d', generalCommand cabc root d (Request.readCabc channel).id = some d' ∧
      Shows cabc d' (a.ask (.readCabc channel)) := by
  have hselect : (if channel.toInt = 1 then (1 : BitVec 32)
      else if channel.toInt = 4 then 4 else 1) = channel := by
    rcases hr with rfl | rfl <;> rfl
  -- the answers so far are as many as the measurements
  have hlength : d.acks.length = a.measured.length := by
    rw [h.acks.length_eq, List.length_mapIdx]
  obtain ⟨value, hvalue⟩ : ∃ value, value = cabc d.acks.length channel := ⟨_, rfl⟩
  refine ⟨{ d with acks := d.acks ++ [clientSendGenCmdAckReadCabcEnd 1 value.1 value.2] }, ?_,
    { h with acks := ?_ }⟩
  · rw [Request.id, generalCommand, hchannel, hvalue]
    show some { d with acks := d.acks ++ [clientSendGenCmdAckReadCabcEnd 1
      (cabc d.acks.length (if channel.toInt = 1 then 1 else if channel.toInt = 4 then 4 else 1)).1
      (cabc d.acks.length (if channel.toInt = 1 then 1 else if channel.toInt = 4 then 4 else 1)).2]
      } = _
    rw [hselect]
  · rw [Asked.ask, List.mapIdx_concat, ← hlength, ← hvalue]
    refine List.rel_append h.acks (.cons ⟨rfl, ?_, ?_, ?_⟩ .nil) <;>
      simp [clientSendGenCmdAckReadCabcEnd]

/-- The branch of a request, on an object that has its fields. -/
theorem generalCommand_done (h : Shows cabc d a) {r : Request} (hr : r.Fits) {root : Item}
    (hget : ∀ f ∈ r.message.fields, root.getObjectItem f.name = some f.item) :
    ∃ d', generalCommand cabc root d r.id = some d' ∧ Shows cabc d' (a.ask r) := by
  cases r with
  | readCabc channel =>
    exact readCabc_done h hr
      (hget (.int "channel" channel) (by simp [Request.message, Request.params]))
  | setIpInfo ip netmask gateway =>
    have hip : root.getObjectItem (ascii "ip") = some (.string ip) :=
      hget (.string "ip" ip) (by simp [Request.message, Request.params])
    have hmask : root.getObjectItem (ascii "net_mask") = some (.string netmask) :=
      hget (.string "net_mask" netmask) (by simp [Request.message, Request.params])
    have hgw : root.getObjectItem (ascii "gateway") = some (.string gateway) :=
      hget (.string "gateway" gateway) (by simp [Request.message, Request.params])
    obtain ⟨⟨hpip, hiplen⟩, ⟨hpmask, hmasklen⟩, hpgw, hgwlen⟩ := hr
    -- the settings that are saved are those that are read after the reboot
    obtain ⟨file, hwrite, hread⟩ := config_kept hpip hpmask hpgw hiplen hmasklen hgwlen
    refine ⟨reboot { d with ethCfg := some file }, ?_,
      { h with address := hread, ethCfg := fun h => (by cases h), rebooted := rfl }⟩
    rw [Request.id, generalCommand, hip, hmask, hgw]
    simp [netWorkConfigSave, Item.valuestring, hwrite]
  | setMacInfo mac =>
    have hmac : root.getObjectItem (ascii "mac") = some (.string mac) :=
      hget (.string "mac" mac) (by simp [Request.message, Request.params])
    obtain ⟨file, hwrite, hread⟩ := mac_kept hr.1 hr.2
    refine ⟨reboot { d with macCfg := some file }, ?_,
      { h with mac := hread, macCfg := fun h => (by cases h), rebooted := rfl }⟩
    rw [Request.id, generalCommand, hmac]
    simp [netWorkMacConfigSave, Item.valuestring, hwrite]
  | factoryReset =>
    exact ⟨_, rfl, { h with
      address := rfl, ethCfg := fun _ => rfl, mac := rfl, macCfg := fun _ => rfl,
      cleared := rfl, rebooted := rfl }⟩
  | powerCalibration channel type data =>
    have hchannel : root.getObjectItem (ascii "power_channel") =
        some (createNumber channel.toNat) :=
      hget (.uchar "power_channel" channel) (by simp [Request.message, Request.params])
    have htype : root.getObjectItem (ascii "power_type") = some (createNumber type.toNat) :=
      hget (.uchar "power_type" type) (by simp [Request.message, Request.params])
    have hdata : root.getObjectItem (ascii "power_data") = some (createNumber data.toInt) :=
      hget (.int "power_data" data) (by simp [Request.message, Request.params])
    obtain ⟨message, hmessage, hboard, haction, hitem, hdelta⟩ :=
      powerCmd_spec (if channel = 2 then 3 else 2) type 1 hr
    refine ⟨{ d with serial := d.serial ++ [message] }, ?_, h.order ?_ ?_⟩
    · rw [Request.id, generalCommand, hchannel, htype, hdata]
      simp only [createNumber, Item.valueint, pwrSnd2Serial, BitVec.ofInt_toInt, BitVec.ofInt_natCast,
        BitVec.ofNat_toNat, BitVec.setWidth_eq, hmessage, Option.map_some]
    · rw [orderOf, if_pos haction, hitem, hdelta]
      rfl
    · rw [hboard]
      split <;> simp
  | powerSettingBurn channel =>
    have hchannel : root.getObjectItem (ascii "power_channel") =
        some (createNumber channel.toNat) :=
      hget (.uchar "power_channel" channel) (by simp [Request.message, Request.params])
    obtain ⟨message, hmessage, hboard, haction, -⟩ :=
      @powerCmd_spec (if channel = 2 then 2 else 3) 0 2 0 (by decide)
    refine ⟨{ d with serial := d.serial ++ [message] }, ?_, h.order ?_ ?_⟩
    · rw [Request.id, generalCommand, hchannel]
      simp only [createNumber, Item.valueint, pwrSnd2Serial, BitVec.ofInt_natCast,
        BitVec.ofNat_toNat, BitVec.setWidth_eq, hmessage, Option.map_some]
    · rw [orderOf, haction]
      rfl
    · rw [hboard]
      split <;> simp

/-- A block without bytes is read behind its end. -/
theorem cJSONParse_nil (stack : Nat) : cJSONParse stack [] = .fault := by
  have hskip : skip [] = .fault := loop_of_fault rfl
  exact bind_fault hskip _

/-- A request, in the command that it arrives as. -/
theorem proc_done (h : Shows cabc d a) {r : Request} (hr : r.Fits) {stack : Nat}
    (hstack : 3 ≤ stack) {c : SocketCmd} (hc : r.message.Reads c) :
    ∃ d', netGeneralCommandProc stack cabc c.pcmd d = some (0, d') ∧ Shows cabc d' (a.ask r) := by
  obtain ⟨-, -, -, hreads⟩ := hc
  obtain ⟨root, rest, hparse, hfields⟩ := hreads stack hstack
  have hget : ∀ f ∈ r.message.fields, root.getObjectItem f.name = some f.item :=
    fun f hf => hfields f hf f.name (sameName_self f.name)
  have hid : root.getObjectItem (ascii "gen_cmd_id") = some (createNumber r.id) :=
    hget (.number "gen_cmd_id" r.id) List.mem_cons_self
  -- an empty text would not have been parsed
  have hne : c.pcmd ≠ [] := by
    intro hnil
    rw [hnil, cJSONParse_nil] at hparse
    cases hparse
  obtain ⟨d', hd', hshows⟩ := generalCommand_done h hr hget
  refine ⟨d', ?_, hshows⟩
  rw [netGeneralCommandProc, if_neg hne, hparse]
  dsimp only
  rw [hid]
  show Option.map _ (generalCommand cabc root d r.id) = some (0, d')
  rw [hd']
  rfl

/-- Once the device reboots, neither it nor what is asked of it changes any more. -/
theorem turn_done (h : Shows cabc d a) {r : Request} (hr : r.Fits) {stack : Nat}
    (hstack : 3 ≤ stack) {c : SocketCmd} (hc : r.message.Reads c) :
    ∃ d', turn stack cabc c d = some d' ∧ Shows cabc d' (a.next r) := by
  rw [turn, Asked.next, h.rebooted]
  by_cases hover : a.rebooted
  · rw [if_pos hover, if_pos hover]
    exact ⟨d, rfl, h⟩
  -- the message is one for the general commands
  · have hgeneral : c.cmd = 0x4080 := by
      have htype : r.message.typeCmd = 0x4080 := rfl
      rw [hc.1, htype]
      decide
    obtain ⟨d', hproc, hshows⟩ := proc_done h hr hstack hc
    rw [if_neg hover, if_neg hover, msgProc, if_pos hgeneral, hproc]
    exact ⟨d', rfl, hshows⟩

/-- The commands that requests arrive as. -/
theorem run_done (h : Shows cabc d a) {requests : List Request} (hfits : ∀ r ∈ requests, r.Fits)
    {stack : Nat} (hstack : 3 ≤ stack) {cmds : List SocketCmd}
    (hcmds : List.Forall₂ (fun r c => r.message.Reads c) requests cmds) :
    ∃ d', runAll (turn stack cabc) cmds d = some d' ∧
      Shows cabc d' (requests.foldl Asked.next a) := by
  -- the induction is on the deliveries, one for each request
  induction hcmds generalizing d a with
  | nil => exact ⟨d, rfl, h⟩
  | cons hc hcmds ih =>
    obtain ⟨hr, hrest⟩ := List.forall_mem_cons.mp hfits
    obtain ⟨d₁, hturn, h₁⟩ := turn_done h hr hstack hc
    obtain ⟨d', hrun, h'⟩ := ih h₁ hrest
    exact ⟨d', by rw [runAll, hturn]; exact hrun, h'⟩

end Done

/-! ## Over the stream -/

/-- What a server puts on the wire. -/
def sendRequests (sendFd : Int) (requests : List Request) : Option (List Byte) :=
  (requests.mapM fun r : Request => r.message.send sendFd).map List.flatten

/-- What is sent is the frames of the requests in order. -/
theorem sendRequests_eq {sendFd : Int} (hfd : sendFd ≠ -1) {requests : List Request}
    (hfits : ∀ r ∈ requests, r.Fits) : sendRequests sendFd requests =
      some (streamBytes ((requests.map fun r => r.message.msg).flatMap Msg.frags)) := by
  induction requests with
  | nil => rfl
  | cons r requests ih =>
    obtain ⟨hr, hrest⟩ := List.forall_mem_cons.mp hfits
    obtain ⟨frames, hframes, hflat⟩ := Option.map_eq_some_iff.mp (ih hrest)
    rw [sendRequests, List.mapM_cons, (Request.message_sound hr).send_eq hfd, hframes]
    simp [streamBytes, hflat]

/-- **Requests are done**: for all requests that fit, and for all ways of cutting what the server
sends into chunks, the settings that the device finds when it starts, its other files, what the
power boards are told and the answers are what has been asked for, in order, up to the first request
that reboots the device. -/
theorem requests_done {s : SocketCmdClass} (hs : Idle s) {cabc : Measurement} {d : Device}
    {a : Asked} (h : Shows cabc d a) {requests : List Request} (hfits : ∀ r ∈ requests, r.Fits)
    {chunks : List (List Byte)} (hchunks : ∀ c ∈ chunks, c ≠ [] ∧ c.length ≤ fifoMaxLen / 2)
    {sendFd : Int} (hfd : sendFd ≠ -1) (hsent : sendRequests sendFd requests = some chunks.flatten)
    {stack : Nat} (hstack : 3 ≤ stack) : ∃ s' cmds d',
      serverConnection s chunks = some ⟨s', cmds, true⟩ ∧
      runAll (turn stack cabc) cmds d = some d' ∧ Shows cabc d' (requests.foldl Asked.next a) := by
  have hshort : ∀ m ∈ requests.map fun r => r.message.msg, m.Short := by
    intro m hm
    obtain ⟨r, hr, rfl⟩ := List.mem_map.mp hm
    exact (Request.message_sound (hfits r hr)).msg_short
  rw [sendRequests_eq hfd hfits] at hsent
  obtain ⟨s', hconn⟩ := serverConnection_msgs hs hshort (fun c hc => (hchunks c hc).2)
    (Option.some.inj hsent).symm
  -- what is delivered reads as what was sent, message by message
  have harrive : List.Forall₂ (fun (r : Request) c => r.message.Reads c) requests
      ((requests.map fun r => r.message.msg).map Msg.delivery) := by
    rw [List.map_map, List.forall₂_map_right_iff, List.forall₂_same]
    exact fun r hr => (Request.message_sound (hfits r hr)).reads
  obtain ⟨d', hrun, hshows⟩ := run_done h hfits hstack harrive
  exact ⟨s', _, d', hconn, hrun, hshows⟩

/-- A measurement of channel 4, a calibration and an address, in pieces; the burn behind them comes
too late. -/
theorem requests_done_address :
    let requests := [Request.readCabc 4, .powerCalibration 2 1 (-5),
      .setIpInfo (ascii "10.0.0.2") (ascii "255.0.0.0") (ascii "10.0.0.1"), .powerSettingBurn 2]
    ∃ chunks s' cmds d', sendRequests 3 requests = some chunks.flatten ∧ chunks.length = 8 ∧
      serverConnection bootClass chunks = some ⟨s', cmds, true⟩ ∧
      runAll (turn 3 fun _ channel => (channel.setWidth 16, 50)) cmds .fresh = some d' ∧
      Shows (fun _ channel => (channel.setWidth 16, 50)) d'
        ⟨some (ascii "10.0.0.2", ascii "255.0.0.0", ascii "10.0.0.1"), none, false, true,
          [.calibrate 1 (-5)], [4]⟩ := by
  intro requests
  have hfits : ∀ r ∈ requests, r.Fits := by
    rw [List.forall_mem_cons, List.forall_mem_cons, List.forall_mem_cons, List.forall_mem_singleton]
    exact ⟨.inr rfl, (by decide : (-5 : BitVec 32) ≠ 0x80000000),
      ⟨⟨by decide, by decide⟩, ⟨by decide, by decide⟩, by decide, by decide⟩, trivial⟩
  have hfd : (3 : Int) ≠ -1 := by decide
  have hsound : ∀ m ∈ requests.map Request.message, m.Sound := by
    intro m hm
    obtain ⟨r, hr, rfl⟩ := List.mem_map.mp hm
    exact Request.message_sound (hfits r hr)
  -- the stream of the four messages, each cut in its header
  have hsent : sendRequests 3 requests =
      some (inPieces (requests.map Request.message)).flatten := by
    rw [sendRequests_eq hfd hfits, flatten_inPieces, List.map_map]
    rfl
  obtain ⟨s', cmds, d', hconn, hrun, hshows⟩ :=
    requests_done idle_bootClass (shows_fresh _) hfits (inPieces_short hsound) hfd hsent le_rfl
  exact ⟨_, s', cmds, d', hsent, rfl, hconn, hrun, hshows⟩

/-! ## Calibration -/

/-- The board that is calibrated for a channel. -/
def calibratedBoard (channel : Byte) : Byte := if channel = 2 then 3 else 2

/-- The board whose settings are burnt for it. -/
def burntBoard (channel : Byte) : Byte := if channel = 2 then 2 else 3

/-- The messages of one channel. -/
def OfChannel (channel : Byte) (d : Device) : Prop := ∀ m ∈ d.serial,
  (actionOf m = 1 → boardOf m = calibratedBoard channel) ∧
    (actionOf m = 2 → boardOf m = burntBoard channel)

/-- An order to the power board goes to the board its action has. -/
theorem ofChannel_send {channel board item action : Byte} {delta : BitVec 32} {d d' : Device}
    (h : OfChannel channel d) (haction : (action = 1 → board = calibratedBoard channel) ∧
      (action = 2 → board = burntBoard channel))
    (hd : pwrSnd2Serial (powerCmdCalibrationPowerItem board item action delta) d = some d') :
    OfChannel channel d' := by
  obtain ⟨message, hmessage, rfl⟩ := Option.map_eq_some_iff.mp hd
  -- the order could be printed, so its delta has an absolute value
  have hdelta : delta ≠ 0x80000000 := fun hmin => by
    rw [powerCmdCalibrationPowerItem, if_pos hmin] at hmessage
    cases hmessage
  obtain ⟨message', hmessage', hboard, hact, -⟩ := powerCmd_spec board item action hdelta
  cases hmessage.symm.trans hmessage'
  intro m hm
  -- the orders before, and this one
  rcases List.mem_append.mp hm with hm | hm
  · exact h m hm
  · rw [List.mem_singleton.mp hm, hboard, hact]
    exact haction

/-- Saving the net settings sends nothing to the serial line, -/
theorem serial_save {ip netmask gateway : Option (List Byte)} {d d' : Device}
    (h : netWorkConfigSave ip netmask gateway d = some d') : d'.serial = d.serial := by
  unfold netWorkConfigSave at h
  split at h
  · obtain ⟨file, -, rfl⟩ := Option.map_eq_some_iff.mp h
    rfl
  · cases h
    rfl

/-- Saving the MAC sends nothing to it either. -/
theorem serial_saveMac {mac : Option (List Byte)} {d d' : Device}
    (h : netWorkMacConfigSave mac d = some d') : d'.serial = d.serial := by
  unfold netWorkMacConfigSave at h
  split at h
  · obtain ⟨file, -, rfl⟩ := Option.map_eq_some_iff.mp h
    rfl
  · cases h
    rfl

/-- A command with the channel, or with none. -/
theorem ofChannel_command {channel : Byte} {cabc : Measurement} {root : Item} {id : Int}
    {d d' : Device} (h : OfChannel channel d) (hchannel : ∀ item,
      root.getObjectItem (ascii "power_channel") = some item →
        BitVec.ofInt 8 item.valueint = channel)
    (hd : generalCommand cabc root d id = some d') : OfChannel channel d' := by
  unfold generalCommand at hd
  split at hd
  · cases hd
    exact h
  · split at hd
    · obtain ⟨d₁, hd₁, rfl⟩ := Option.map_eq_some_iff.mp hd
      have hserial := serial_save hd₁
      exact fun m hm => h m (hserial ▸ hm)
    · cases hd
      exact h
  · split at hd
    · obtain ⟨d₁, hd₁, rfl⟩ := Option.map_eq_some_iff.mp hd
      have hserial := serial_saveMac hd₁
      exact fun m hm => h m (hserial ▸ hm)
    · cases hd
      exact h
  · cases hd
    exact h
  · split at hd
    · -- a calibration goes to the board of the channel
      next item _ _ hitem _ _ =>
      dsimp only at hd
      rw [hchannel item hitem] at hd
      exact ofChannel_send h ⟨fun _ => rfl, fun h => absurd h (by decide)⟩ hd
    · cases hd
      exact h
  · split at hd
    · -- a burn goes to the other board
      next item hitem =>
      dsimp only at hd
      rw [hchannel item hitem] at hd
      exact ofChannel_send h ⟨fun h => absurd h (by decide), fun _ => rfl⟩ hd
    · cases hd
      exact h
  · cases hd
    exact h

/-- So a request leaves only such orders on the line. -/
theorem ofChannel_proc {channel : Byte} {stack : Nat} {cabc : Measurement} {text : List Byte}
    {d d' : Device} {ret : Int} (h : OfChannel channel d) (hchannel : ∀ root rest,
      cJSONParse stack text = .ok root rest → ∀ item,
        root.getObjectItem (ascii "power_channel") = some item →
          BitVec.ofInt 8 item.valueint = channel)
    (hproc : netGeneralCommandProc stack cabc text d = some (ret, d')) : OfChannel channel d' := by
  -- no text, no JSON, no command, or one that is carried out
  unfold netGeneralCommandProc at hproc
  split at hproc
  · cases hproc
    exact h
  · split at hproc
    · next root rest hparse =>
      split at hproc
      · cases hproc
        exact h
      · obtain ⟨d₁, hcommand, heq⟩ := Option.map_eq_some_iff.mp hproc
        cases heq
        exact ofChannel_command h (hchannel root rest hparse) hcommand
    · cases hproc

/-- The commands of a run are for one channel, where they are for a channel. -/
def ForChannel (stack : Nat) (channel : Byte) (c : SocketCmd) : Prop :=
  ∀ root rest, cJSONParse stack c.pcmd = .ok root rest → ∀ item,
    root.getObjectItem (ascii "power_channel") = some item →
      BitVec.ofInt 8 item.valueint = channel

/-- **What is calibrated is not what is burnt**: however often the items of a channel are
calibrated and their settings burnt, in whatever order and among whatever other commands, the
first all go to one board, the second all to another. -/
theorem burn_misses {stack : Nat} {cabc : Measurement} {channel : Byte} {cmds : List SocketCmd}
    {d : Device} (hcmds : ∀ c ∈ cmds, ForChannel stack channel c)
    (hrun : runAll (turn stack cabc) cmds .fresh = some d) :
    (∀ m ∈ d.serial, (actionOf m = 1 → boardOf m = calibratedBoard channel) ∧
      (actionOf m = 2 → boardOf m = burntBoard channel)) ∧
    calibratedBoard channel ≠ burntBoard channel := by
  have halong : Along (turn stack cabc) (fun c _ => ForChannel stack channel c) cmds .fresh :=
    along_of_inv (fun _ _ _ _ _ => trivial) (fun c h _ (_ : True) => hcmds c h) trivial
  have hfresh : OfChannel channel .fresh := fun m hm => absurd hm List.not_mem_nil
  constructor
  · -- the invariant along the run: what went to the serial line went to the board of its action
    refine runAll_inv_along (fun c d d' hc hd hturn => ?_) halong hfresh hrun
    unfold turn at hturn
    split at hturn
    · cases hturn
      exact hd
    · unfold msgProc at hturn
      split at hturn
      · obtain ⟨⟨ret, d₁⟩, hproc, rfl⟩ := Option.map_eq_some_iff.mp hturn
        exact ofChannel_proc hd hc hproc
      · cases hturn
        exact hd
  · -- whichever the channel, the two boards differ
    rw [calibratedBoard, burntBoard]
    split <;> decide

/-- A calibration of channel 2 goes to board 3, and the burn behind it to board 2. -/
theorem burn_misses_two :
    let cmds := [(Request.powerCalibration 2 1 5).message.msg.delivery,
      (Request.powerSettingBurn 2).message.msg.delivery]
    ∃ calibration burn d, runAll (turn 3 fun _ _ => (0, 0)) cmds .fresh = some d ∧
      d.serial = [calibration, burn] ∧
      (orderOf calibration = some (.calibrate 1 5) ∧ boardOf calibration = 3) ∧
      orderOf burn = some .burn ∧ boardOf burn = 2 := by
  intro cmds
  have hfits : ∀ r ∈ [Request.powerCalibration 2 1 5, .powerSettingBurn 2], r.Fits := by
    rw [List.forall_mem_cons, List.forall_mem_singleton]
    exact ⟨(by decide : (5 : BitVec 32) ≠ 0x80000000), trivial⟩
  have hcal := (Request.message_sound (hfits _ List.mem_cons_self)).reads
  have hburn := (Request.message_sound (hfits _ (List.mem_cons_of_mem _ List.mem_cons_self))).reads
  obtain ⟨d, hrun, hshows⟩ := run_done (shows_fresh fun _ _ => (0, 0)) hfits le_rfl
    (.cons hcal (.cons hburn .nil))
  -- both objects have the channel
  have hchannel {r : Request} {c : SocketCmd} (hc : r.message.Reads c)
      (hf : Field.uchar "power_channel" 2 ∈ r.message.fields) : ForChannel 3 2 c := by
    intro root rest hparse item hitem
    obtain ⟨root', rest', hparse', hfields⟩ := hc.2.2.2 3 le_rfl
    cases hparse.symm.trans hparse'
    cases hitem.symm.trans (hfields _ hf _ (sameName_self _))
    rfl
  have hcmds : ∀ c ∈ cmds, ForChannel 3 2 c := by
    rw [List.forall_mem_cons, List.forall_mem_singleton]
    exact ⟨hchannel hcal (by simp [Request.message, Request.params]),
      hchannel hburn (by simp [Request.message, Request.params])⟩
  have hmisses := (burn_misses hcmds hrun).1
  -- what is asked for are the two orders
  have hserial := hshows.serial
  change List.Forall₂ _ d.serial [Order.calibrate 1 5, .burn] at hserial
  obtain ⟨calibration, rest, ⟨hcalibration, -⟩, hrest, hd⟩ := List.forall₂_cons_right_iff.mp hserial
  obtain ⟨burn, rest', ⟨hburnt, -⟩, hnil, rfl⟩ := List.forall₂_cons_right_iff.mp hrest
  obtain rfl := List.forall₂_nil_right_iff.mp hnil
  rw [hd, List.forall_mem_cons, List.forall_mem_singleton] at hmisses
  exact ⟨calibration, burn, d, hrun, hd, ⟨hcalibration, hmisses.1.1 (actionOf_calibrate hcalibration)⟩,
    hburnt, hmisses.2.2 (actionOf_burn hburnt)⟩

end PgClient.Server.General
