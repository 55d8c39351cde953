import PgClient.Icm.GammaEntries

/-!
# The gamma OTP message — burning what was tuned

`SERVER2CLI_MSG_GAMMA_OTP` of `msgProc`: the tables stored by the gamma writes
are fetched and burnt, with the VCOM that the flick search found. What the
chip is sent is read off the log, up to the first OTP power command
(`hxRegs`).

* `storeAll_hx8394` — the writes leave the last tables in the private info.
* `run_server2cliMsgGammaOtp` — what a hi8394 is sent.
* `gammaOtp_burnsTuned_iff` — the burn is of what was tuned when blue is
  green, and the VCOM goes along in the first burn only; with a good id the burn
  count is stored behind its variable before that.
-/

namespace PgClient.Server

open DeviceLog Icm
open scoped Numerals

/-! ## The flick search's results -/

/-- `mipi_channel_get_vcom_and_flick`: the first of the four is never looked at,
and channel 4 is behind the last one. -/
def mipiChannelGetVcomAndFlick (mipiChannel : Int) : Call (Int × Option (CInt × CInt)) :=
  if 0 < mipiChannel ∧ mipiChannel ≤ 4 then do
    let i ← devChannel mipiChannel
    let m ← getMem
    pure (0, some (m.sFindVcom i, m.sFindFlick i))
  else pure (-1, none)

/-- `mipi_channel_set_vcom_and_flick`. -/
def mipiChannelSetVcomAndFlick (mipiChannel : Int) (vcom flick : CInt) : Call Int :=
  if 0 < mipiChannel ∧ mipiChannel ≤ 4 then do
    let i ← devChannel mipiChannel
    modMem fun m => { m with
      sFindVcom := Function.update m.sFindVcom i vcom
      sFindFlick := Function.update m.sFindFlick i flick }
    pure 0
  else pure (-1)

/-! ## The handler -/

/-- `SERVER2CLI_MSG_GAMMA_OTP`; a field that is not sent is `none`. -/
structure MsgGammaOtp where
  channel : CInt
  otpFlag : Option CInt

/-- `ic_mgr_read_chip_vcom_otp_times(channel, &otp_times)`, where the variable is an
`unsigned char`. -/
def readOtpTimesByte (channel : Int) : Call Byte := do
  let times ← icMgrReadChipVcomOtpTimes channel
  let m ← getMem
  match times.2 with
  | none => pure 0
  | some otpTimes => do
    -- the hx8298c stores one byte, the others an `int`
    if m.index = .hx8298c then pure () else emit (.storeBehind 3)
    pure (otpTimes.setWidth 8)

/-- The handler. What the probe measures after the check is left out. -/
def server2cliMsgGammaOtp (msg : MsgGammaOtp) : Call Unit :=
  let channel := msg.channel.toInt
  let otpFlag := msg.otpFlag.getD 0
  if otpFlag = 0 then emit (.clientEndGammaOtpInfo channel (-1))
  else do
    let vcomBurn := decide (otpFlag &&& 0x02 ≠ 0)
    let gammaBurn2nd : CInt := if otpFlag &&& 0x08 ≠ 0 then 1 else 0
    let found ← mipiChannelGetVcomAndFlick channel
    -- what is not found is 0, the initial value of the variables
    let vcom := (found.2.map Prod.fst).getD 0
    let otpTimes ← readOtpTimesByte channel
    let analog ← icMgrGetAnalogGammaRegData channel ⟨zeroed, 255⟩
    let d3g ← icMgrGetDigitalGammaRegDataT channel ⟨zeroed, 255⟩ ⟨zeroed, 255⟩ ⟨zeroed, 255⟩
    -- green goes in the place of blue
    let _ ← icMgrBurnGammaOtpValues channel gammaBurn2nd vcomBurn vcom analog.2 d3g.2.1 d3g.2.2.1
      d3g.2.2.1
    msleep 300
    let m ← getMem
    clientPgShutON 1 (some m.curModuleName) [0xFF, 1]
    -- the check has all four tables, and so compares blue with blue
    let checkError ← icMgrCheckGammaOtpValues channel vcomBurn vcom (otpTimes.setWidth 32) analog.2
      d3g.2.1 d3g.2.2.1 d3g.2.2.2
    emit (.clientEndGammaOtpInfo channel checkError)

/-! ## The tuning before it -/

/-- What tunes a channel: a gamma write of the server, and a search that ends. -/
inductive GammaOp
  | writeAnalog (channel : Fin 4) (data : Vector Byte 58)
  | writeDigital (channel : Fin 4) (data : Vector Byte 127)
  | found (channel : Fin 4) (vcom flick : CInt)

def GammaOp.run : GammaOp → Call Unit
  | .writeAnalog channel data => do
    let _ ← icMgrWriteAnalogGammaData (channel : Nat) (some (ptr data)) 58
    pure ()
  | .writeDigital channel data => do
    let _ ← icMgrWriteDigitalGammaData (channel : Nat) (some (ptr data)) 127
    pure ()
  | .found channel vcom flick => do
    let _ ← mipiChannelSetVcomAndFlick (channel : Nat) vcom flick
    pure ()

def runGammaOps : List GammaOp → Call Unit
  | [] => pure ()
  | op :: ops => do
    op.run
    runGammaOps ops

/-- What is stored of an operation. -/
def GammaOp.store (m : Mem) : GammaOp → Mem
  | .writeAnalog channel data =>
    let info := { m.hx8394 channel with analogGammaRegData := table 58 (ptr data) }
    { m with hx8394 := Function.update m.hx8394 channel info }
  | .writeDigital channel data =>
    let info := { m.hx8394 channel with
      d3gR := table 43 (ptr data)
      d3gG := table 42 fun k => ptr data (43 + k)
      d3gB := table 42 fun k => ptr data (43 + 42 + k) }
    { m with hx8394 := Function.update m.hx8394 channel info }
  | .found channel vcom flick =>
    -- `> 0` in the range test leaves channel 0 out
    if channel = 0 then m
    else { m with
      sFindVcom := Function.update m.sFindVcom channel vcom
      sFindFlick := Function.update m.sFindFlick channel flick }

/-- What the search found is stored, whatever it returns. -/
theorem run_mipiChannelSetVcomAndFlick (i : Fin 4) (vcom flick : CInt) (w : Board) :
    ∃ val, mipiChannelSetVcomAndFlick (i : Nat) vcom flick w =
      .ok val (w.withMem (GammaOp.store w.mem (.found i vcom flick))) := by
  unfold mipiChannelSetVcomAndFlick GammaOp.store
  by_cases hi : i = 0
  · subst hi
    exact ⟨-1, by simp⟩
  · have hpos : (0 : Int) < (i : Nat) ∧ ((i : Nat) : Int) ≤ 4 := by
      have := Fin.val_ne_of_ne hi
      simp only [Fin.val_zero] at this
      omega
    exact ⟨0, by simp only [if_pos hpos, if_neg hi, run_bind, run_devChannel, run_modMem, run_pure]⟩

/-- With the hi8394 in use, an operation stores that, and asks the chip nothing. -/
theorem GammaOp.run_eq (op : GammaOp) (w : Board) (hchip : w.mem.index = .hi8394) :
    ∃ es, op.run w = .ok () ((w.withMem (op.store w.mem)).after 0 es) := by
  cases op with
  | writeAnalog channel data =>
    -- the bytes are stored whole, whatever was stored on the channel before
    simp only [run, icMgrWriteAnalogGammaData, run_bind, run_icMgr, hchip]
    exact ⟨_, by simp [chips, chipHi8394, hx8394WriteAnalogGammaRegData, modHx8394, store,
      hi8394EnableExtendCmd, chipHi8394WriteAnalogReg]; rfl⟩
  | writeDigital channel data =>
    simp only [run, icMgrWriteDigitalGammaData, run_bind, run_icMgr, hchip]
    exact ⟨_, by simp [chips, chipHi8394, hx8394WriteAnalogDigitalGammaRegData, modHx8394, store,
      hi8394EnableExtendCmd, chipHi8394WriteAnalogReg, hx8394WriteD3gReg2]; rfl⟩
  | found channel vcom flick =>
    obtain ⟨val, hrun⟩ := run_mipiChannelSetVcomAndFlick channel vcom flick w
    exact ⟨[], by simp [run, hrun]⟩

/-- Tuning does not change the chip. -/
theorem GammaOp.store_index (m : Mem) (op : GammaOp) : (op.store m).index = m.index := by
  cases op with
  | found channel vcom flick =>
    unfold store
    dsimp only
    split_ifs <;> rfl
  | _ => rfl

/-- A run of operations stores one after the other. -/
theorem runGammaOps_eq (ops : List GammaOp) (w : Board) (hchip : w.mem.index = .hi8394) :
    ∃ es, runGammaOps ops w = .ok () ((w.withMem (ops.foldl GammaOp.store w.mem)).after 0 es) := by
  induction ops generalizing w with
  | nil => exact ⟨[], by simp [runGammaOps]⟩
  | cons op ops ih =>
    obtain ⟨es, hop⟩ := op.run_eq w hchip
    obtain ⟨fs, hops⟩ := ih ((w.withMem (op.store w.mem)).after 0 es)
      ((op.store_index w.mem).trans hchip)
    exact ⟨es ++ fs, by simp [runGammaOps, hop, hops]⟩

/-! ## What was tuned last -/

def GammaOp.analogOf (c : Fin 4) : GammaOp → Option (Vector Byte 58)
  | .writeAnalog channel data => if channel = c then some data else none
  | _ => none

def GammaOp.digitalOf (c : Fin 4) : GammaOp → Option (Vector Byte 127)
  | .writeDigital channel data => if channel = c then some data else none
  | _ => none

def GammaOp.foundOf (c : Fin 4) : GammaOp → Option CInt
  | .found channel vcom _ => if channel = c then some vcom else none
  | _ => none

/-- The last analog table written on a channel, the last digital ones, and the
VCOM found last, which is 0 as long as none was. -/
def lastAnalog (c : Fin 4) (ops : List GammaOp) : Option (Vector Byte 58) :=
  (ops.filterMap (GammaOp.analogOf c)).getLast?

def lastDigital (c : Fin 4) (ops : List GammaOp) : Option (Vector Byte 127) :=
  (ops.filterMap (GammaOp.digitalOf c)).getLast?

def lastFound (c : Fin 4) (ops : List GammaOp) (m : Mem) : CInt :=
  ((ops.filterMap (GammaOp.foundOf c)).getLast?).getD (m.sFindVcom c)

/-- Red, green and blue, one behind the other. -/
def redOf (d : Vector Byte 127) : List Byte := d.toList.take 43
def greenOf (d : Vector Byte 127) : List Byte := (d.toList.drop 43).take 42
def blueOf (d : Vector Byte 127) : List Byte := (d.toList.drop 85).take 42

/-- A table copied from inside a buffer. -/
theorem toList_table {n k : Nat} (v : Vector Byte n) (o : Nat) (h : o + k ≤ n) :
    (table k fun j => ptr v (o + j)).toList = (v.toList.drop o).take k := by
  apply List.ext_getElem
  · simp
    omega
  · intro j h₁ h₂
    have hj : o + j < n := by
      have : j < k := by simpa using h₁
      omega
    simp [table, ptr, Vector.getElem?_eq_getElem hj]

/-- A table read through its pointer. -/
theorem table_ptr {n : Nat} (v : Vector Byte n) : table n (ptr v) = v := by
  have h := toList_table v 0 (k := n) (by omega)
  have hlen : v.toList.take n = v.toList := List.take_of_length_le (by simp)
  rw [List.drop_zero, hlen] at h
  simpa [← Vector.toList_inj] using h

section Stored

variable (c : Fin 4) (ops : List GammaOp) (m : Mem)

/-- The private info holds the last analog table. -/
theorem storeAll_analog {a : Vector Byte 58} (ha : lastAnalog c ops = some a) :
    ((ops.foldl GammaOp.store m).hx8394 c).analogGammaRegData = a := by
  have hlast : (ops.filterMap (GammaOp.analogOf c)).getLast? = some a := ha
  have h := foldl_last GammaOp.store (fun m => (m.hx8394 c).analogGammaRegData)
    (GammaOp.analogOf c) (fun m op => ?_) ops m
  · rw [h, hlast]
    rfl
  · -- a write on another channel, or of the other kind, keeps the analog table
    cases op with
    | writeAnalog channel data =>
      by_cases hc : channel = c
      · subst hc
        simp [GammaOp.store, GammaOp.analogOf, table_ptr]
      · simp [GammaOp.store, GammaOp.analogOf, hc, Function.update_of_ne (Ne.symm hc)]
    | writeDigital channel data =>
      by_cases hc : channel = c
      · subst hc
        simp [GammaOp.store, GammaOp.analogOf]
      · simp [GammaOp.store, GammaOp.analogOf, Function.update_of_ne (Ne.symm hc)]
    | found channel vcom flick =>
      simp only [GammaOp.store, GammaOp.analogOf]
      split_ifs <;> rfl

/-- The digital tables are the last ones that were tuned. -/
theorem storeAll_digital {d : Vector Byte 127} (hd : lastDigital c ops = some d) :
    let info := (ops.foldl GammaOp.store m).hx8394 c
    info.d3gR.toList = redOf d ∧ info.d3gG.toList = greenOf d ∧ info.d3gB.toList = blueOf d := by
  have hlast : (ops.filterMap (GammaOp.digitalOf c)).getLast? = some d := hd
  have h := foldl_last GammaOp.store
    (fun m => ((m.hx8394 c).d3gR, (m.hx8394 c).d3gG, (m.hx8394 c).d3gB))
    (fun op => (op.digitalOf c).map fun d => (table 43 (ptr d), table 42 fun k => ptr d (43 + k),
      table 42 fun k => ptr d (43 + 42 + k))) (fun m op => ?_) ops m
  · rw [← List.map_filterMap, List.getLast?_map, hlast] at h
    simp only [Option.map_some, Option.getD_some, Prod.mk.injEq] at h
    obtain ⟨hr, hg, hb⟩ := h
    dsimp only
    -- 43 bytes of red, 42 of green, 42 of blue
    rw [hr, hg, hb, toList_table d 43 (by decide), toList_table d 85 (by decide)]
    exact ⟨by simpa [redOf] using toList_table d 0 (k := 43) (by decide), rfl, rfl⟩
  · cases op with
    | writeAnalog channel data =>
      by_cases hc : channel = c
      · subst hc
        simp [GammaOp.store, GammaOp.digitalOf]
      · simp [GammaOp.store, GammaOp.digitalOf, Function.update_of_ne (Ne.symm hc)]
    | writeDigital channel data =>
      by_cases hc : channel = c
      · subst hc
        simp [GammaOp.store, GammaOp.digitalOf]
      · simp [GammaOp.store, GammaOp.digitalOf, hc, Function.update_of_ne (Ne.symm hc)]
    | found channel vcom flick =>
      simp only [GammaOp.store, GammaOp.digitalOf]
      split_ifs <;> rfl

/-- The VCOM found last is kept, of every channel but the first. -/
theorem storeAll_found (hc : c ≠ 0) :
    (ops.foldl GammaOp.store m).sFindVcom c = lastFound c ops m := by
  refine foldl_last GammaOp.store (fun m => m.sFindVcom c) (GammaOp.foundOf c) (fun m op => ?_)
    ops m
  cases op with
  | found channel vcom flick =>
    by_cases hch : channel = c
    · subst hch
      simp [GammaOp.store, GammaOp.foundOf, hc]
    · -- what is found on another channel keeps this one's
      simp only [GammaOp.store, GammaOp.foundOf, if_neg hch]
      split_ifs
      · rfl
      · simp [Function.update_of_ne (Ne.symm hch)]
  | _ => rfl

/-- Tuning does not change the chip, however much of it there is. -/
theorem storeAll_index : (ops.foldl GammaOp.store m).index = m.index := by
  induction ops generalizing m with
  | nil => rfl
  | cons op ops ih => exact (ih _).trans (op.store_index m)

/-- No operation looks at the id, or changes what is known of it. -/
theorem storeAll_idOk : ((ops.foldl GammaOp.store m).hx8394 c).idOk = (m.hx8394 c).idOk := by
  induction ops generalizing m with
  | nil => rfl
  | cons op ops ih =>
    refine (ih _).trans ?_
    cases op with
    | writeAnalog channel data =>
      -- the operation stores in this channel, or in another one
      by_cases hc : channel = c
      · subst hc
        simp [GammaOp.store]
      · simp [GammaOp.store, Function.update_of_ne (Ne.symm hc)]
    | writeDigital channel data =>
      by_cases hc : channel = c
      · subst hc
        simp [GammaOp.store]
      · simp [GammaOp.store, Function.update_of_ne (Ne.symm hc)]
    | found channel vcom flick =>
      simp only [GammaOp.store]
      split_ifs <;> rfl

end Stored

/-! ## What the chip is sent -/

/-- The registers of a hi8394: `0xBD` selects the bank of the digital tables. -/
structure HxRegs where
  bank : Byte
  analog : Option (List Byte)
  digital : Byte → Option (List Byte)
  vcom : Option (List Byte)

def HxRegs.step (channel : Int) (c : HxRegs) : Event → HxRegs
  | .mipi2828Write2IC ch regAddr pData =>
    if ch ≠ channel then c
    else if regAddr = 0xBD then { c with bank := pData.headD 0 }
    else if regAddr = 0xE0 then { c with analog := some pData }
    else if regAddr = 0xC1 then { c with digital := Function.update c.digital c.bank (some pData) }
    else if regAddr = 0xB6 then { c with vcom := some pData }
    else c
  | _ => c

/-- An OTP power command. -/
def isOtpPower : Event → Bool
  | .mipi2828Write2IC _ regAddr pData =>
    regAddr == 0xBB && (pData.head? == some 0x80 || pData.head? == some 0x81)
  | _ => false

/-- The registers as a log leaves them when the OTP power commands come. -/
def hxRegs (channel : Int) (es : List Event) : HxRegs :=
  (es.takeWhile fun e => !isOtpPower e).foldl (HxRegs.step channel) ⟨0, none, fun _ => none, none⟩

/-- A call that sends the tables it is given, each to its own registers, and then
burns. -/
def BurnsTables (channel : Int) (x : Call α) (a r g b : Nat → Byte)
    (vcom : Option (List Byte)) : Prop :=
  ∀ w : Board, ∃ v es, x w = .ok v (w.after 0 es) ∧ (∃ e ∈ es, isOtpPower e = true) ∧
    let regs := hxRegs channel es
    regs.analog = some (bytes a 58) ∧ regs.digital 0 = some (bytes r 43) ∧
      regs.digital 1 = some (bytes g 42) ∧ regs.digital 2 = some (bytes b 42) ∧ regs.vcom = vcom

/-- Everything is sent before the power commands. -/
theorem run_hx8394BurnPrepare (channel : Int) (burnVcom : Bool) (vcomValue : List Byte)
    (a r g b : Nat → Byte) (w : Board) :
    ∃ es, hx8394BurnPrepare channel burnVcom vcomValue a r g b w = .ok () (w.after 0 es) ∧
      (∀ e ∈ es, (!isOtpPower e) = true) ∧
      let regs := es.foldl (HxRegs.step channel) ⟨0, none, fun _ => none, none⟩
      regs.analog = some (bytes a 58) ∧ regs.digital 0 = some (bytes r 43) ∧
        regs.digital 1 = some (bytes g 42) ∧ regs.digital 2 = some (bytes b 42) ∧
        regs.vcom = if burnVcom then some vcomValue else none := by
  cases burnVcom
  all_goals
    -- with or without the VCOM the run computes
    refine ⟨_, by simp [hx8394BurnPrepare, chipHi8394WriteAnalogReg, hx8394WriteD3gReg2]; rfl,
      ?_, ?_⟩
    · simp [isOtpPower]
    · simp [HxRegs.step, Function.update]

/-- A log whose power commands come right behind the tables. -/
theorem hxRegs_append {channel : Int} {es fs : List Event}
    (hes : ∀ e ∈ es, (!isOtpPower e) = true)
    (hfs : ∀ c, (fs.takeWhile fun e => !isOtpPower e).foldl (HxRegs.step channel) c = c) :
    hxRegs channel (es ++ fs) = es.foldl (HxRegs.step channel) ⟨0, none, fun _ => none, none⟩ := by
  unfold hxRegs
  rw [List.takeWhile_append_of_pos hes, List.foldl_append, hfs]

/-- A routine that sends everything, and then nothing but power commands. -/
theorem burnsTables_of_prepare {channel : Int} {x : Call Unit} {burnVcom : Bool}
    {vcomValue : List Byte} {a r g b : Nat → Byte}
    (h : ∀ (w : Board) es,
      hx8394BurnPrepare channel burnVcom vcomValue a r g b w = .ok () (w.after 0 es) →
        ∃ fs, x w = .ok () (w.after 0 (es ++ fs)) ∧ (∃ e ∈ fs, isOtpPower e = true) ∧
          ∀ c, (fs.takeWhile fun e => !isOtpPower e).foldl (HxRegs.step channel) c = c) :
    BurnsTables channel x a r g b (if burnVcom then some vcomValue else none) := by
  intro w
  obtain ⟨es, hprep, hes, hregs⟩ := run_hx8394BurnPrepare channel burnVcom vcomValue a r g b w
  -- what is in the registers at the first OTP power is what was prepared
  obtain ⟨fs, hrun, ⟨e, he, hpower⟩, hfs⟩ := h w es hprep
  refine ⟨(), es ++ fs, hrun, ⟨e, List.mem_append_right _ he, hpower⟩, ?_⟩
  rw [hxRegs_append hes hfs]
  exact hregs

/-- The gamma burn sends the tables it is given. -/
theorem hx8394BurnGammaData2nd_tables (channel : Int) (vcom : CInt) (burnVcom : Bool)
    (a r g b : Nat → Byte) :
    BurnsTables channel (hx8394BurnGammaData2nd channel vcom burnVcom a r g b) a r g b
      (if burnVcom then some [0xFF, 0x83, 0x94] else none) := by
  refine burnsTables_of_prepare fun w es hprep => ?_
  unfold hx8394BurnGammaData2nd
  rw [run_bind, hprep]
  cases burnVcom
  all_goals
    exact ⟨_, by simp [hx8394VcomOtpPower]; rfl, by simp [isOtpPower],
      by simp [isOtpPower, List.takeWhile, HxRegs.step]⟩

/-- The burn with the VCOM sends the tables it is given. -/
theorem hx8394BurnVcomAndGammaData_tables (channel : Int) (vcom : CInt) (burnVcom : Bool)
    (a r g b : Nat → Byte) :
    BurnsTables channel (hx8394BurnVcomAndGammaData channel vcom burnVcom a r g b) a r g b
      (if burnVcom then some [vcom.setWidth 8, vcom.setWidth 8, 0x00] else none) := by
  refine burnsTables_of_prepare fun w es hprep => ?_
  unfold hx8394BurnVcomAndGammaData
  rw [run_bind, hprep]
  cases burnVcom
  all_goals
    exact ⟨_, by simp [hx8394VcomOtpPower]; rfl, by simp [isOtpPower],
      by simp [isOtpPower, List.takeWhile, HxRegs.step]⟩

/-- The VCOM register that a burn leaves: the second one sends the password. -/
def burntVcom (burnFlag : CInt) (enableBurnVcom : Bool) (vcom : CInt) : Option (List Byte) :=
  if burnFlag &&& 1 ≠ 0 then if enableBurnVcom then some [0xFF, 0x83, 0x94] else none
  else if enableBurnVcom then some [vcom.setWidth 8, vcom.setWidth 8, 0x00] else none

/-- The entry burns the tables by one of the two. -/
theorem hx8394BurnGammaOtpValues_tables (channel : Int) (burnFlag : CInt) (enableBurnVcom : Bool)
    (vcom : CInt) (a r g b : Buf) :
    BurnsTables channel (hx8394BurnGammaOtpValues channel burnFlag enableBurnVcom vcom a r g b)
      a.data r.data g.data b.data (burntVcom burnFlag enableBurnVcom vcom) := by
  intro w
  unfold hx8394BurnGammaOtpValues burntVcom
  -- bit 0 of the flag chooses the second burn
  by_cases hflag : burnFlag &&& 1 ≠ 0
  · obtain ⟨_, es, hrun, hes⟩ := hx8394BurnGammaData2nd_tables channel vcom enableBurnVcom
      a.data r.data g.data b.data w
    refine ⟨0, es, ?_, by simpa only [if_pos hflag] using hes⟩
    simp only [if_pos hflag, run_bind, hrun, run_pure]
  · obtain ⟨_, es, hrun, hes⟩ := hx8394BurnVcomAndGammaData_tables channel vcom enableBurnVcom
      a.data r.data g.data b.data w
    refine ⟨0, es, ?_, by simpa only [if_neg hflag] using hes⟩
    simp only [if_neg hflag, run_bind, hrun, run_pure]

/-! ## The run of the handler -/

/-- What the handler takes for the VCOM found. -/
def fetchedVcom (c : Fin 4) (m : Mem) : CInt := if c = 0 then 0 else m.sFindVcom c

/-- The handler fetches the VCOM that was found. -/
theorem run_mipiChannelGetVcomAndFlick (c : Fin 4) (w : Board) :
    ∃ got, mipiChannelGetVcomAndFlick (c : Nat) w = .ok got w ∧
      (got.2.map Prod.fst).getD 0 = fetchedVcom c w.mem := by
  unfold mipiChannelGetVcomAndFlick fetchedVcom
  by_cases hc : c = 0
  · subst hc
    exact ⟨(-1, none), by simp, rfl⟩
  · have hpos : (0 : Int) < (c : Nat) ∧ ((c : Nat) : Int) ≤ 4 := by
      have := Fin.val_ne_of_ne hc
      simp only [Fin.val_zero] at this
      omega
    refine ⟨(0, some (w.mem.sFindVcom c, w.mem.sFindFlick c)), ?_, by rw [if_neg hc]; rfl⟩
    simp only [if_pos hpos, run_bind, run_devChannel, run_getMem, run_pure]

/-- The burn count of the chip, read or not, is no matter for what is sent. With a bad id it is
refused without a read, else it is stored behind its variable. -/
theorem run_readOtpTimesByte (c : Fin 4) (w : Board) (hchip : w.mem.index = .hi8394) :
    ∃ times n es, readOtpTimesByte (c : Nat) w = .ok times (w.after n es) ∧
      (∀ e ∈ es, (!isOtpPower e) = true) ∧ (∀ regs, es.foldl (HxRegs.step (c : Nat)) regs = regs) ∧
      ((∀ e ∈ es, e.InObject) ↔ (w.mem.hx8394 c).idOk ≠ 1) := by
  unfold readOtpTimesByte icMgrReadChipVcomOtpTimes
  simp only [run_bind, run_icMgr, hchip, chips, chipHi8394, Option.map_some, Option.getD_some,
    chipHi8394ReadChipVcomOptTimes, run_devChannel, run_getMem]
  by_cases hid : (w.mem.hx8394 c).idOk = 1
  · simp only [if_pos hid, hi8394GetVcomOtpTimes, hi8394EnableExtendCmd, reduceIte, run_bind,
      run_mipi2828Write2IC, run_readModReg, run_pure, World.after_after, World.after_mem, hchip,
      reduceCtorEq, run_emit]
    refine ⟨_, _, _, rfl, by simp [isOtpPower], by simp [HxRegs.step], ?_⟩
    -- the last of these events
    exact iff_of_false (fun h => h (.storeBehind 3) (by simp)) (not_not.mpr hid)
  · simp only [if_neg hid, run_pure]
    exact ⟨_, 0, [], by rw [World.after_zero_nil], by simp, by simp, iff_of_true (by simp) hid⟩

/-- The check behind the burn leaves the tables. -/
theorem run_hx8394CheckGammaOtpValues (channel : Int) (enableBurnVcom : Bool)
    (newVcomValue lastVcomOtpTimes : CInt) (a r g b : Buf) (w : Board) :
    ∃ v n es, hx8394CheckGammaOtpValues channel enableBurnVcom newVcomValue lastVcomOtpTimes
      a r g b w = .ok v (w.after n es) := by
  unfold hx8394CheckGammaOtpValues
  cases enableBurnVcom
  all_goals
    simp only [reduceIte, Bool.false_eq_true, hi8394ReadVcom, hi8394GetVcomOtpTimes,
      hi8394EnableExtendCmd, run_bind, run_setMipi2828HighSpeedMode, run_mipi2828Write2IC,
      run_readModReg, run_pure, World.after_after]
    exact ⟨_, _, _, rfl⟩

/-- **What a hi8394 is sent** for a message on one of its channels: the stored
tables, but green for blue. Only the burn count is stored outside of its object. -/
theorem run_server2cliMsgGammaOtp (c : Fin 4) (otpFlag : CInt) (hflag : otpFlag ≠ 0) (w : Board)
    (hchip : w.mem.index = .hi8394) :
    ∃ es, (final (server2cliMsgGammaOtp ⟨BitVec.ofNat 32 c, some otpFlag⟩ w)).log = w.log ++ es ∧
      let info := w.mem.hx8394 c
      let regs := hxRegs (c : Nat) es
      regs.analog = some info.analogGammaRegData.toList ∧ regs.digital 0 = some info.d3gR.toList ∧
        regs.digital 1 = some info.d3gG.toList ∧ regs.digital 2 = some info.d3gG.toList ∧
        regs.vcom = burntVcom (if otpFlag &&& 0x08 ≠ 0 then 1 else 0) (otpFlag &&& 0x02 ≠ 0)
          (fetchedVcom c w.mem) ∧
        ((∀ e ∈ es, e.InObject) ↔ info.idOk ≠ 1) := by
  have hc : (BitVec.ofNat 32 c : CInt).toInt = (c : Nat) := by
    revert c
    decide
  have hzero : ¬ (some otpFlag).getD 0 = 0 := hflag
  obtain ⟨got, hget, hvcom⟩ := run_mipiChannelGetVcomAndFlick c w
  obtain ⟨times, n, es, htimes, hes, hregs, hinside⟩ := run_readOtpTimesByte c w hchip
  -- the four tables as the getters hand them over
  let a := Buf.fill (w.mem.hx8394 c).analogGammaRegData.toList ⟨zeroed, 255⟩
  let r := Buf.fill (w.mem.hx8394 c).d3gR.toList ⟨zeroed, 255⟩
  let g := Buf.fill (w.mem.hx8394 c).d3gG.toList ⟨zeroed, 255⟩
  let b := Buf.fill (w.mem.hx8394 c).d3gB.toList ⟨zeroed, 255⟩
  obtain ⟨v, fs, hburn, ⟨e, he, hpower⟩, hsent⟩ :=
    hx8394BurnGammaOtpValues_tables (c : Nat) (if otpFlag &&& 0x08 ≠ 0 then 1 else 0)
      (decide (otpFlag &&& 0x02 ≠ 0)) (fetchedVcom c w.mem) a r g g (w.after n es)
  obtain ⟨err, n', gs, hcheck⟩ := run_hx8394CheckGammaOtpValues (c : Nat)
    (decide (otpFlag &&& 0x02 ≠ 0)) (fetchedVcom c w.mem)
    -- the check reads the chip and programs nothing
    (times.setWidth 32) a r g b
    (w.after n (es ++ fs ++ [.msleep 300] ++
      [.clientPgShutON 1 (some w.mem.curModuleName) [0xFF, 1]]))
  refine ⟨es ++ fs ++ ([.msleep 300, .clientPgShutON 1 (some w.mem.curModuleName) [0xFF, 1]] ++
    gs ++ [.clientEndGammaOtpInfo (c : Nat) err]), ?_, ?_⟩
  · unfold server2cliMsgGammaOtp
    dsimp only
    rw [hc, if_neg hzero]
    simp only [icMgrGetAnalogGammaRegData, icMgrGetDigitalGammaRegDataT,
      icMgrBurnGammaOtpValues, icMgrCheckGammaOtpValues, run_bind,
      run_icMgr, hget, World.after_mem, hchip, chips, chipHi8394, Option.map_some,
      Option.getD_some, htimes, hx8394GetAnalogGammaRegData, hx8394GetDigitalGammaRegData,
      run_devChannel, run_getMem, run_pure, hvcom]
    rw [hburn]
    simp only [World.after_after, Nat.add_zero, run_msleep, run_clientPgShutON, World.after_mem,
      hchip, Option.map_some, Option.getD_some]
    rw [hcheck]
    simp [List.append_assoc]
  · have hregs' : hxRegs (c : Nat) (es ++ fs ++ ([.msleep 300, .clientPgShutON 1
        (some w.mem.curModuleName) [0xFF, 1]] ++ gs ++ [.clientEndGammaOtpInfo (c : Nat) err])) =
        hxRegs (c : Nat) fs := by
      unfold hxRegs
      -- the burn starts at the first OTP power, which lies inside `fs`
      rw [takeWhile_between hes ⟨e, he, by simp [hpower]⟩, List.foldl_append, hregs]
    dsimp only
    rw [hregs']
    obtain ⟨ha, hr, hg, hb, hv⟩ := hsent
    refine ⟨ha.trans (congrArg some (bytes_fill _ _)), hr.trans (congrArg some (bytes_fill _ _)),
      hg.trans (congrArg some (bytes_fill _ _)), hb.trans (congrArg some (bytes_fill _ _)), hv, ?_⟩
    -- neither the burn nor the check stores outside of an object
    have hfs := (ends_hx8394BurnGammaOtpValues _ _ _ _ _ _ _ _).of_run hburn
    have hgs := (ends_hx8394CheckGammaOtpValues _ _ _ _ _ _ _ _).of_run hcheck
    rw [← hinside, List.append_assoc, List.forall_mem_append]
    refine and_iff_left (List.forall_mem_append.mpr ⟨hfs, List.forall_mem_append.mpr ⟨?_, ?_⟩⟩)
    · exact List.forall_mem_append.mpr ⟨by simp [Event.InObject], hgs⟩
    · simp [Event.InObject]

/-! ## Burning what was tuned -/

/-- What a message on `c` sends and burns after these operations. -/
def burnLog (ops : List GammaOp) (c : Fin 4) (otpFlag : CInt) (w : Board) : List Event :=
  let w' := final (runGammaOps ops w)
  (final (server2cliMsgGammaOtp ⟨BitVec.ofNat 32 c, some otpFlag⟩ w')).log.drop w'.log.length

/-- The chip has the tables in their registers when the power commands come, and
the VCOM for a burn of the VCOM; and nothing is stored outside of an object. -/
structure BurnsTuned (c : Fin 4) (otpFlag : CInt) (analog : Vector Byte 58)
    (digital : Vector Byte 127) (found : CInt) (es : List Event) : Prop where
  analog : (hxRegs (c : Nat) es).analog = some analog.toList
  red : (hxRegs (c : Nat) es).digital 0 = some (redOf digital)
  green : (hxRegs (c : Nat) es).digital 1 = some (greenOf digital)
  blue : (hxRegs (c : Nat) es).digital 2 = some (blueOf digital)
  vcom : otpFlag &&& 0x02 ≠ 0 → ∃ v : Byte, (v.toNat : Int) = found.toInt ∧
    (hxRegs (c : Nat) es).vcom = some [v, v, 0x00]
  inObject : ∀ e ∈ es, e.InObject

/-- What is sent after a run of operations. -/
theorem run_burnLog (ops : List GammaOp) (c : Fin 4) (otpFlag : CInt) (hflag : otpFlag ≠ 0)
    (w : Board) (hchip : w.mem.index = .hi8394) {a : Vector Byte 58} {d : Vector Byte 127}
    (ha : lastAnalog c ops = some a) (hd : lastDigital c ops = some d) :
    let regs := hxRegs (c : Nat) (burnLog ops c otpFlag w)
    regs.analog = some a.toList ∧ regs.digital 0 = some (redOf d) ∧
      regs.digital 1 = some (greenOf d) ∧ regs.digital 2 = some (greenOf d) ∧
      regs.vcom = burntVcom (if otpFlag &&& 0x08 ≠ 0 then 1 else 0) (otpFlag &&& 0x02 ≠ 0)
        (if c = 0 then 0 else lastFound c ops w.mem) ∧
      ((∀ e ∈ burnLog ops c otpFlag w, e.InObject) ↔ (w.mem.hx8394 c).idOk ≠ 1) := by
  -- the stores of the tuning messages, then the burn from what they left
  obtain ⟨es, hops⟩ := runGammaOps_eq ops w hchip
  obtain ⟨fs, hlog, hregs⟩ := run_server2cliMsgGammaOtp c otpFlag hflag
    ((w.withMem (ops.foldl GammaOp.store w.mem)).after 0 es)
    ((storeAll_index ops w.mem).trans hchip)
  obtain ⟨hr, hg, -⟩ := storeAll_digital c ops w.mem hd
  have hburnLog : burnLog ops c otpFlag w = fs := by
    unfold burnLog
    rw [hops]
    dsimp only [final_ok]
    rw [hlog, List.drop_left]
  have hvcom : fetchedVcom c (ops.foldl GammaOp.store w.mem) =
      if c = 0 then 0 else lastFound c ops w.mem := by
    -- channel 0 is left out by both range tests
    unfold fetchedVcom
    split_ifs with hc
    · rfl
    · exact storeAll_found c ops w.mem hc
  simp only [World.after_mem, World.withMem_mem, storeAll_analog c ops w.mem ha, hr, hg,
    hvcom, storeAll_idOk c ops w.mem] at hregs
  rw [hburnLog]
  exact hregs

/-- The VCOM register is right in a first burn, of a VCOM of one byte that is
looked up. -/
theorem burntVcom_iff (c : Fin 4) (otpFlag found : CInt) (hburn : otpFlag &&& 0x02 ≠ 0) :
    (∃ v : Byte, (v.toNat : Int) = found.toInt ∧
      burntVcom (if otpFlag &&& 0x08 ≠ 0 then 1 else 0) (otpFlag &&& 0x02 ≠ 0)
        (if c = 0 then 0 else found) = some [v, v, 0x00]) ↔
      otpFlag &&& 0x08 = 0 ∧ (0 ≤ found.toInt ∧ found.toInt < 2 ^ 8) ∧ (c = 0 → found = 0) := by
  unfold burntVcom
  by_cases h2nd : otpFlag &&& 0x08 = 0
  · -- bit 3 becomes bit 0 of the burn flag
    have hfirst : ¬ ((if otpFlag &&& 0x08 ≠ 0 then 1 else 0 : CInt) &&& 1 ≠ 0) := by
      rw [if_neg (not_not.mpr h2nd)]
      decide
    rw [if_neg hfirst, if_pos (by simpa using hburn)]
    constructor
    · rintro ⟨v, hv, hsent⟩
      obtain ⟨hrange, hbyte⟩ := (toNat_eq_toInt_iff (by decide) v found).mp hv
      refine ⟨h2nd, hrange, ?_⟩
      intro hc
      simp only [hc, if_true, Option.some.injEq, List.cons.injEq] at hsent
      have hzero : v = 0 := hsent.1.symm
      exact BitVec.eq_of_toInt_eq (by rw [← hv, hzero]; rfl)
    · rintro ⟨-, hrange, hzero⟩
      refine ⟨found.setWidth 8, (toNat_eq_toInt_iff (by decide) _ found).mpr ⟨hrange, rfl⟩, ?_⟩
      by_cases hc : c = 0
      · rw [if_pos hc, hzero hc]
      · rw [if_neg hc]
  · -- the second burn sends three different bytes
    have hsecond : (if otpFlag &&& 0x08 ≠ 0 then 1 else 0 : CInt) &&& 1 ≠ 0 := by
      rw [if_pos h2nd]
      decide
    rw [if_pos hsecond, if_pos (by simpa using hburn)]
    refine iff_of_false ?_ fun h => h2nd h.1
    rintro ⟨v, -, hsent⟩
    simp only [Option.some.injEq, List.cons.injEq] at hsent
    exact absurd (hsent.1.trans hsent.2.1.symm) (by decide)

/-- **When what was tuned is burnt**, after every run of writes and searches. -/
theorem gammaOtp_burnsTuned_iff (ops : List GammaOp) (c : Fin 4) (otpFlag : CInt)
    (hflag : otpFlag ≠ 0) (w : Board) (hchip : w.mem.index = .hi8394) {a : Vector Byte 58}
    {d : Vector Byte 127} (ha : lastAnalog c ops = some a) (hd : lastDigital c ops = some d) :
    BurnsTuned c otpFlag a d (lastFound c ops w.mem) (burnLog ops c otpFlag w) ↔
      (w.mem.hx8394 c).idOk ≠ 1 ∧ blueOf d = greenOf d ∧
        (otpFlag &&& 0x02 ≠ 0 → otpFlag &&& 0x08 = 0 ∧
          (0 ≤ (lastFound c ops w.mem).toInt ∧ (lastFound c ops w.mem).toInt < 2 ^ 8) ∧
          (c = 0 → lastFound c ops w.mem = 0)) := by
  obtain ⟨hanalog, hred, hgreen, hblue, hvcom, hinside⟩ :=
    run_burnLog ops c otpFlag hflag w hchip ha hd
  constructor
  · -- blue is sent as green was stored, so it is right if both are the same
    rintro ⟨-, -, -, hblue', hvcom', hinside'⟩
    refine ⟨hinside.mp hinside', Option.some.inj (hblue'.symm.trans hblue), ?_⟩
    intro hburn
    rw [← burntVcom_iff c otpFlag _ hburn, ← hvcom]
    exact hvcom' hburn
  · rintro ⟨hid, hsame, hfound⟩
    refine ⟨hanalog, hred, hgreen, by rw [hblue, hsame], ?_, hinside.mpr hid⟩
    intro hburn
    rw [hvcom]
    exact (burntVcom_iff c otpFlag _ hburn).mpr (hfound hburn)

/-- A board with the hi8394 chosen, and a panel that answers nothing. -/
def hi8394Board : Board := ⟨fun _ => none, 0, [], { Mem.boot with index := .hi8394 }⟩

/-- Blue that differs from red and green. -/
def blueTint : Vector Byte 127 := Vector.ofFn fun i => if i.val < 85 then 0x10 else 0x20

/-- A ramp of analog values. -/
def rampTable : Vector Byte 58 := Vector.ofFn fun i => BitVec.ofNat 8 (4 * i.val + 1)

/-- Digital tables with blue as green, and red above them. -/
def greyTables : Vector Byte 127 := Vector.ofFn fun i => if i.val < 43 then 0x33 else 0x22

/-- A tuning that treats green and blue alike. -/
def greyOps : List GammaOp :=
  [.writeDigital 1 blueTint, .writeAnalog 1 rampTable, .writeDigital 1 greyTables, .found 1 0x40 0]

/-- A ramp and grey tables, tuned and burnt. -/
theorem gammaOtp_burnsTuned_grey :
    BurnsTuned 1 0x03 rampTable greyTables 0x40 (burnLog greyOps 1 0x03 hi8394Board) :=
  (gammaOtp_burnsTuned_iff (a := rampTable) (d := greyTables) greyOps 1 0x03 (by decide)
    hi8394Board rfl rfl rfl).mpr ⟨by decide, by decide, by decide⟩

/-- It is burnt as green. -/
theorem blueTint_not_burnt : ¬ BurnsTuned 0 0x01 (.replicate 58 0) blueTint 0
    (burnLog [.writeAnalog 0 (.replicate 58 0), .writeDigital 0 blueTint] 0 0x01 hi8394Board) := by
  obtain ⟨-, -, -, hblue, -⟩ := run_burnLog
    [.writeAnalog 0 (.replicate 58 0), .writeDigital 0 blueTint] 0 0x01 (by decide) hi8394Board rfl
    rfl rfl
  intro h
  have hsame := Option.some.inj (h.blue.symm.trans hblue)
  exact absurd hsame (by decide)

end PgClient.Server
