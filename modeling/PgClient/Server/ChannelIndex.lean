import PgClient.Icm.FlickEntries
import PgClient.Mipi.Flick
import PgClient.Server.GammaOtp

/-!
# The channel of a message as a subscript

Four messages of the server reach the arrays that have an entry for every channel: the private
info of the chip in use, the channel states, and the results of the flick search. The one test
of the channel on the way, `channel < 0 && channel > 3`, is never true, and the flick results
are guarded for 1 to 4.

* `inside_autoFlickTask` — the flick search stays on channel 1.
* `readGamma_reaches`, `gammaOtp_reaches` and the like — a handler leaves the arrays exactly where
  a subscript is out of bounds.
* `indexSafe_iff` — for which channels the handlers index the arrays inside their bounds.
-/

namespace PgClient.Server

open DeviceLog Icm
open Mipi (VcomInfo Capture zAutoFlick2 firstTurn writeFound)

/-! ## The messages -/

/-- `SERVER2CLI_MSG_GAMMA_WRITE_REG`, with the registers that `parse_gamma_reg_data` finds in
`data`; a field that is not sent is `none`. -/
structure MsgGammaWriteReg where
  channel : CInt
  writeType : Option CInt
  data : Option (List Byte)

/-- `SERVER2CLI_MSG_READ_GAMMA`. -/
structure MsgReadGamma where
  channel : CInt
  readType : Option CInt
  data : Option (List Byte)

/-- `SERVER2CLI_MSG_AUTOFLICK`: it has no channel. -/
structure MsgAutoFlick where
  enableFlick : CInt

/-- `gamma_cfg_t`. -/
structure GammaCfg where
  enableGammaReg : CInt
  gammaRegNums : CInt
  gammaReg : Nat → Byte

/-- `reg_data_buf` with the registers in front. -/
def regDataBuf (regs : List Byte) : Nat → Byte := fun k => regs.getD k 0

/-! ## The handlers -/

/-- What is done with the registers of a write. -/
def writeRegs (channel : Int) (writeType : CInt) (regs : List Byte) : Call Unit :=
  if writeType = 0 then do
    let _ ← icMgrWriteAnalogGammaData channel (some (regDataBuf regs)) regs.length
    let _ ← icMgrWriteFixDigitalGammaData channel
    pure ()
  else if writeType = 1 then do
    let _ ← icMgrWriteDigitalGammaData channel (some (regDataBuf regs)) regs.length
    pure ()
  else pure ()

/-- The handler of a write, and what `client_end_gamma_write` is called with. -/
def server2cliMsgGammaWriteReg (msg : MsgGammaWriteReg) : Call (CInt × CInt) := do
  let writeType := msg.writeType.getD 0
  if msg.data.getD [] = [] then pure (msg.channel, writeType)
  else do
    writeRegs msg.channel.toInt writeType (msg.data.getD [])
    pure (msg.channel, writeType)

/-- What is written before a read: the registers of the message, else those of the
configuration, else the fixed ones. -/
def writeBeforeRead (cfg : GammaCfg) (channel : Int) (regs : List Byte) : Call Int :=
  if regs ≠ [] then icMgrWriteAnalogGammaData channel (some (regDataBuf regs)) regs.length
  else if cfg.enableGammaReg ≠ 0 then
    icMgrWriteAnalogGammaData channel (some cfg.gammaReg) cfg.gammaRegNums.toInt
  else icMgrWriteFixAnalogGammaData channel

/-- The handler of a read, and what `client_end_read_gamma` is called with. -/
def server2cliMsgReadGamma (cfg : GammaCfg) (msg : MsgReadGamma) :
    Call (Option (CInt × Int × (Nat → Byte) × Byte × CInt)) :=
  match msg.data with
  | none => pure none
  | some regs => do
    let channel := msg.channel.toInt
    let _ ← icMgrD3gControl channel 0
    let _ ← writeBeforeRead cfg channel regs
    let read ← icMgrReadAnalogGammaData channel zeroed 255
    let otpTimes ← readOtpTimesByte channel
    pure (some (msg.channel, read.1, read.2, otpTimes, msg.readType.getD 0))

/-- What a flick search finds: whether a pattern is loaded, the probe is there, and what it
captures. -/
structure FlickRun where
  usedIcManager : Bool
  loaded : Bool
  info : VcomInfo
  probeReady : Bool
  second : Capture
  captures : List Capture

/-- `m_channel_1`. -/
def mChannel1 : Int := 1

def writeVcoms (channel : Int) : List Int → Call Unit
  | [] => pure ()
  | vcom :: vcoms => do
    let _ ← icMgrWriteVcom channel (BitVec.ofInt 32 vcom)
    writeVcoms channel vcoms

/-- A round of `channelFlickTask`, as far as it goes with these captures. -/
def searchFlick (channel : Int) (run : FlickRun) : Call Unit := do
  let search := zAutoFlick2 run.info run.captures (firstTurn run.info run.second)
  writeVcoms channel (run.info.initVcom :: search.1.map Prod.fst)
  match search.2 with
  | none => pure ()
  | some e => do
    let found := e.find (0, 0)
    let _ ← mipiChannelSetVcomAndFlick channel (BitVec.ofInt 32 found.1) (BitVec.ofInt 32 found.2)
    writeVcoms channel (writeFound run.usedIcManager (some e))

/-- `autoFlickTask`, which waits for the search. -/
def autoFlickTask (run : FlickRun) : Call Unit :=
  if run.loaded then do
    let checkError ← icMgrCheckChipOk mChannel1
    if checkError = 0 ∧ run.probeReady then searchFlick mChannel1 run else pure ()
    let _ ← mipiChannelGetVcomAndFlick mChannel1
    pure ()
  else pure ()

/-- The handler of a search, with the task that it starts. -/
def server2cliMsgAutoFlick (msg : MsgAutoFlick) (run : FlickRun) : Call Unit :=
  if msg.enableFlick = 0 then pure () else autoFlickTask run

/-- What `mipi2828Open` does for the channels, in the power-up of a burn's check. -/
def setChannelStates : Call Unit := do
  let _ ← icMgrSetChannelState 0
  let _ ← icMgrSetChannelState 1
  let _ ← icMgrSetChannelState 2
  let _ ← icMgrSetChannelState 3
  pure ()

/-! ## What is to hold -/

/-- A message, with what its handler finds on the client. -/
inductive ChannelMsg
  | gammaWriteReg (msg : MsgGammaWriteReg)
  | readGamma (cfg : GammaCfg) (msg : MsgReadGamma)
  | gammaOtp (msg : MsgGammaOtp)
  | autoFlick (msg : MsgAutoFlick) (run : FlickRun)

/-- The run of its handler. -/
def ChannelMsg.handle : ChannelMsg → Call Unit
  | .gammaWriteReg msg => do
    let _ ← server2cliMsgGammaWriteReg msg
    pure ()
  | .readGamma cfg msg => do
    let _ ← server2cliMsgReadGamma cfg msg
    pure ()
  | .gammaOtp msg => server2cliMsgGammaOtp msg
  | .autoFlick msg run => server2cliMsgAutoFlick msg run

/-- No array is indexed outside of it: by the handler, and by the power-up inside of it. -/
structure IndexSafe (msg : ChannelMsg) (w : Board) : Prop where
  handle : LogsAt Event.InTable msg.handle w
  powerUp : ∀ w' : Board, LogsAt Event.InTable setChannelStates w'

/-! ## For which channels it is -/

/-- The chips that keep their gamma tables in the private info. -/
def keepsTables (chip : Chip) : Prop := chip = .hi8394 ∨ chip = .icn9706

/-- The chips whose burn count is looked up there. -/
def keepsCount (chip : Chip) : Prop := chip ≠ .default ∧ chip ≠ .hx8298c

instance (chip : Chip) : Decidable (keepsTables chip) := inferInstanceAs (Decidable (_ ∨ _))

instance (chip : Chip) : Decidable (keepsCount chip) := inferInstanceAs (Decidable (_ ∧ _))

/-- The icn9706 copies from behind its last row, of channel 3 from behind the array. -/
def CopiesBeyond (chip : Chip) (channel : Int) : Prop := chip = .icn9706 ∧ channel = 3

/-- The channels of a message that are subscripts wherever they are used as such. -/
def ChannelMsg.Fits (chip : Chip) : ChannelMsg → Prop
  | .gammaWriteReg msg =>
    msg.data.getD [] ≠ [] → msg.writeType.getD 0 = 0 ∨ msg.writeType.getD 0 = 1 →
      keepsTables chip → InRange msg.channel.toInt
  | .readGamma _ msg => msg.data ≠ none → keepsCount chip → InRange msg.channel.toInt
  | .gammaOtp msg =>
    msg.otpFlag.getD 0 ≠ 0 →
      msg.channel.toInt ≠ 4 ∧ (keepsCount chip → InRange msg.channel.toInt) ∧
        ¬CopiesBeyond chip msg.channel.toInt
  | .autoFlick _ _ => True

/-- A driver that keeps tables keeps the count. -/
theorem keepsCount_of_keepsTables {chip : Chip} (h : keepsTables chip) : keepsCount chip := by
  rcases h with rfl | rfl <;> decide

/-! ## Manager calls -/

/-- The run from the board ends well, inside the arrays and with the same chip in use. -/
abbrev EndsAt (x : Call α) (w : Board) : Prop := OnlyAt Event.InTable Mem.index x w

/-- The run leaves an array. -/
abbrev Leaves (x : Call α) (w : Board) : Prop := FaultsAt Event.InTable x w

/-- What comes back from every board comes back from this one. -/
theorem endsAt_of_ends {x : Call α} (h : Ends x) (w : Board) : EndsAt x w :=
  OnlyAt.mono (fun _ he => Event.InObject.inTable he) (h w)

/-- A manager call on a board: where it looks its channel up, it faults outside of the range. -/
structure Follows (looks : Prop) (call : Int → Call α) (w : Board) : Prop where
  ends : ∀ channel, (looks → InRange channel) → EndsAt (call channel) w
  faults : ∀ channel, looks → ¬InRange channel → Leaves (call channel) w

/-- A channel in range is one of four. -/
theorem InRange.exists_fin {channel : Int} (h : InRange channel) : ∃ i : Fin 4, channel = (i : Nat) := by
  unfold InRange at h
  exact ⟨⟨channel.toNat, by omega⟩, by simp; omega⟩

section Follows

variable {looks : Prop} {call f : Int → Call α} {w : Board}

/-- A call that looks the channel up follows its range. -/
theorem Follows.of_subscripted (hlooks : looks) (hrun : ∀ channel, call channel w = f channel w)
    (hf : Subscripted f) : Follows looks call w where
  ends channel h := by
    obtain ⟨i, rfl⟩ := InRange.exists_fin (h hlooks)
    obtain ⟨a, w', es, hok, hends⟩ := endsAt_of_ends (hf.inside i) w
    exact ⟨a, w', es, (hrun _).trans hok, hends⟩
  faults channel _ hout := by
    -- the subscript is the first thing that the entry uses
    obtain ⟨w', es, herror, hleaves⟩ := hf.outside channel hout w
    exact ⟨w', es, (hrun channel).trans herror, hleaves⟩

/-- A call that comes back anyway follows every range. -/
theorem Follows.of_ends (hlooks : ¬looks) (hrun : ∀ channel, call channel w = f channel w)
    (hf : ∀ channel, Ends (f channel)) : Follows looks call w where
  ends channel _ := by
    obtain ⟨a, w', es, hok, hends⟩ := endsAt_of_ends (hf channel) w
    exact ⟨a, w', es, (hrun channel).trans hok, hends⟩
  faults _ h := absurd h hlooks

/-- Either way it comes back or leaves its table. -/
theorem Follows.endsAt_or (h : Follows looks call w) (channel : Int) :
    EndsAt (call channel) w ∨ Leaves (call channel) w := by
  by_cases hin : looks → InRange channel
  · exact .inl (h.ends channel hin)
  · push Not at hin
    exact .inr (h.faults channel hin.1 hin.2)

end Follows

section Manager

variable (w : Board)

/-- The burn count. -/
theorem follows_readVcomOtpTimes :
    Follows (keepsCount w.mem.index) icMgrReadChipVcomOtpTimes w := by
  have hrun := fun channel => run_icMgr channel
    (fun chip => chip.readVcomOtpTimes.map fun f => f channel) (-1, none) w
  cases hchip : w.mem.index with
  -- two chips read the count without their private info
  | default =>
    rw [hchip] at hrun
    exact .of_ends (by decide) hrun fun _ => .pure _
  | hx8298c =>
    rw [hchip] at hrun
    exact .of_ends (by decide) hrun fun channel =>
      .bind (ends_chipHx8298cReadVcomOtpTimes channel) fun _ => .pure _
  | hi8394 =>
    rw [hchip] at hrun
    exact .of_subscripted (by decide) hrun subscripted_chipHi8394ReadChipVcomOptTimes
  | icn9706 =>
    rw [hchip] at hrun
    exact .of_subscripted (by decide) hrun subscripted_chipIcn9706ReadChipVcomOptTimes
  | ili9806e =>
    rw [hchip] at hrun
    exact .of_subscripted (by decide) hrun subscripted_chipIli9806eReadChipVcomOptTimes
  | jd9367 =>
    rw [hchip] at hrun
    exact .of_subscripted (by decide) hrun subscripted_chipJd9367ReadChipVcomOptTimes
  | otm8019a =>
    rw [hchip] at hrun
    exact .of_subscripted (by decide) hrun subscripted_chipOtm8019aReadChipVcomOptTimes

/-- A call of an entry that only two chips look something up in. -/
theorem follows_tables {call : Int → Call α} (entry : Int → IcmChip → Option (Call α)) (missing : α)
    (hcall : ∀ channel, call channel = icMgr channel (entry channel) missing)
    (hi8394 : Subscripted fun channel => ((entry channel chipHi8394).getD (pure missing)))
    (icn9706 : Subscripted fun channel => ((entry channel chipIcn9706).getD (pure missing)))
    (other : ∀ channel chip, ¬keepsTables chip → Ends ((entry channel (chips chip)).getD (pure missing))) :
    Follows (keepsTables w.mem.index) call w := by
  have hrun : ∀ channel, call channel w =
      ((entry channel (chips w.mem.index)).getD (pure missing)) w := by
    intro channel
    rw [hcall, run_icMgr]
  -- the two chips with tables, and the others
  by_cases htables : keepsTables w.mem.index
  · rcases htables with hchip | hchip
    · rw [hchip] at hrun ⊢
      exact .of_subscripted (.inl rfl) hrun hi8394
    · rw [hchip] at hrun ⊢
      exact .of_subscripted (.inr rfl) hrun icn9706
  · exact .of_ends htables hrun fun channel => other channel _ htables

/-- Of the other chips, the default one has the gamma entries, and they return. -/
theorem follows_writeAnalog (p : Nat → Byte) {len : Int} (hlen : 0 < len) :
    Follows (keepsTables w.mem.index) (icMgrWriteAnalogGammaData · (some p) len) w := by
  refine follows_tables w _ _ (fun _ => rfl) (subscripted_hx8394WriteAnalogGammaRegData hlen)
    (subscripted_chipIcn9706WriteAnalogGammaRegData p len) fun channel chip h => ?_
  cases chip <;> first | exact .pure _ | exact absurd (by decide) h

/-- Digital tables to the chip follow the channel where the driver keeps them. -/
theorem follows_writeDigital (p : Nat → Byte) {len : Int} (hlen : 0 < len) :
    Follows (keepsTables w.mem.index) (icMgrWriteDigitalGammaData · (some p) len) w := by
  refine follows_tables w _ _ (fun _ => rfl) (subscripted_hx8394WriteAnalogDigitalGammaRegData hlen)
    (subscripted_chipIcn9706WriteDigitalGammaRegData p len) fun channel chip h => ?_
  cases chip <;> first | exact .pure _ | exact absurd (by decide) h

/-- Analog tables on the way back follow it too. -/
theorem follows_getAnalog (a : Buf) :
    Follows (keepsTables w.mem.index) (icMgrGetAnalogGammaRegData · a) w := by
  refine follows_tables w _ _ (fun _ => rfl) (subscripted_hx8394GetAnalogGammaRegData a)
    (subscripted_chipIcn9706GetAnalogGammaRegData a) fun channel chip h => ?_
  cases chip <;> first | exact .pure _ | exact absurd (by decide) h

/-- Without a register to write, the hi8394 returns before it looks. -/
theorem follows_writeAnalog_empty (p : Nat → Byte) {len : Int} (hlen : len ≤ 0) :
    Follows (w.mem.index = .icn9706) (icMgrWriteAnalogGammaData · (some p) len) w := by
  have hrun := fun channel => run_icMgr channel (fun chip => chip.writeAnalogGammaRegData.map fun f =>
    f channel (some p) len) (-1) w
  cases hchip : w.mem.index with
  | icn9706 =>
    -- the length is not looked at
    rw [hchip] at hrun
    exact .of_subscripted rfl hrun (subscripted_chipIcn9706WriteAnalogGammaRegData p len)
  | hi8394 =>
    rw [hchip] at hrun
    refine .of_ends (by decide) hrun fun channel => ?_
    show Ends (hx8394WriteAnalogGammaRegData channel (some p) len)
    unfold hx8394WriteAnalogGammaRegData
    simp only [if_pos hlen]
    exact .pure _
  | _ =>
    rw [hchip] at hrun
    exact .of_ends (by decide) hrun fun _ => .pure _

/-- Analog tables to the chip come back in range. -/
theorem endsAt_writeAnalog (p : Nat → Byte) (len : Int) {channel : Int}
    (h : keepsTables w.mem.index → InRange channel) :
    EndsAt (icMgrWriteAnalogGammaData channel (some p) len) w := by
  rcases le_or_gt len 0 with hlen | hlen
  · exact (follows_writeAnalog_empty w p hlen).ends channel fun hchip => h (.inr hchip)
  · exact (follows_writeAnalog w p hlen).ends channel h

/-- Analog tables to the chip come back, or leave the table out of it. -/
theorem endsAt_or_writeAnalog (p : Nat → Byte) (len channel : Int) :
    EndsAt (icMgrWriteAnalogGammaData channel (some p) len) w ∨
      Leaves (icMgrWriteAnalogGammaData channel (some p) len) w := by
  rcases le_or_gt len 0 with hlen | hlen
  · exact (follows_writeAnalog_empty w p hlen).endsAt_or channel
  · exact (follows_writeAnalog w p hlen).endsAt_or channel

/-- A manager call ends as the entry does. -/
theorem endsAt_icMgr {channel : Int} {entry : IcmChip → Option (Call α)} {missing : α}
    (h : EndsAt ((entry (chips w.mem.index)).getD (pure missing)) w) :
    EndsAt (icMgr channel entry missing) w := by
  obtain ⟨a, w', es, hok, hends⟩ := h
  exact ⟨a, w', es, (run_icMgr channel entry missing w).trans hok, hends⟩

/-- The entries without a subscript. -/
theorem ends_icMgrGamma (channel : Int) (entry : GammaEntries → Option (Call α)) (missing : α)
    (h : ∀ chip, Ends ((entry (gammaEntries chip)).getD (pure missing))) :
    Ends (icMgrGamma channel entry missing) :=
  .bind .getMem fun m => .ite (.pure _) (h m.index)

/-- Digital gamma is switched without looking the channel up. -/
theorem ends_icMgrD3gControl (channel : Int) (enable : CInt) :
    Ends (icMgrD3gControl channel enable) := by
  refine ends_icMgrGamma _ _ _ fun chip => ?_
  cases chip with
  | hi8394 => exact ends_hx8394WriteD3gControl channel enable
  | icn9706 => exact ends_chipIcn9706WriteD3gControl channel enable
  | _ => exact .pure _

/-- The chip's analog table is read without looking the channel up. -/
theorem ends_icMgrReadAnalogGammaData (channel : Int) (p : Nat → Byte) (len : Int) :
    Ends (icMgrReadAnalogGammaData channel p len) := by
  refine ends_icMgrGamma _ _ _ fun chip => ?_
  cases chip with
  | hi8394 => exact ends_hx8394ReadAnalogGammaRegData channel p len
  | icn9706 => exact ends_chipIcn9706ReadAnalogGammaRegData channel p len
  | _ => exact .pure _

/-- The fixed analog table is written without looking the channel up. -/
theorem ends_icMgrWriteFixAnalogGammaData (channel : Int) :
    Ends (icMgrWriteFixAnalogGammaData channel) := by
  refine ends_icMgrGamma _ _ _ fun chip => ?_
  cases chip with
  | hi8394 => exact ends_hx8394WriteFixAnalogGammaRegData channel
  | icn9706 => exact ends_chipIcn9706WriteFixAnalogGammaRegData channel
  | _ => exact .pure _

/-- The fixed digital table is written without looking the channel up. -/
theorem ends_icMgrWriteFixDigitalGammaData (channel : Int) :
    Ends (icMgrWriteFixDigitalGammaData channel) := by
  refine ends_icMgrGamma _ _ _ fun chip => ?_
  cases chip with
  | icn9706 => exact ends_chipIcn9706WriteFixDigitalGammaRegData channel
  | _ => exact .pure _

/-- The burn looks no channel up. -/
theorem endsAt_icMgrBurnGammaOtpValues (channel : Int) (burnFlag : CInt) (enableBurnVcom : Bool)
    (vcom : CInt) (a r g b : Buf) :
    EndsAt (icMgrBurnGammaOtpValues channel burnFlag enableBurnVcom vcom a r g b) w := by
  refine endsAt_icMgr w ?_
  generalize w.mem.index = chip
  cases chip with
  | hi8394 => exact endsAt_of_ends (ends_hx8394BurnGammaOtpValues channel _ _ _ _ _ _ _) w
  | icn9706 => exact endsAt_of_ends (ends_chipIcn9706BurnGammaOtpValues channel burnFlag _ _ _ _ _ _) w
  | _ => exact Only.pure _ w

/-- The check behind it looks no channel up. -/
theorem endsAt_icMgrCheckGammaOtpValues (channel : Int) (enableBurnVcom : Bool)
    (newVcomValue lastVcomOtpTimes : CInt) (a r g b : Buf) :
    EndsAt (icMgrCheckGammaOtpValues channel enableBurnVcom newVcomValue lastVcomOtpTimes a r g b)
      w := by
  refine endsAt_icMgr w ?_
  generalize w.mem.index = chip
  cases chip with
  | hi8394 => exact endsAt_of_ends (ends_hx8394CheckGammaOtpValues channel _ _ _ _ _ _ _) w
  | icn9706 => exact endsAt_of_ends (ends_chipIcn9706CheckGammaOtpValues channel _ _ _ _ _ _ _) w
  | _ => exact Only.pure _ w

/-- Digital tables come back in range, unless the getter copies beyond its object. -/
theorem endsAt_getDigital (r g b : Buf) {channel : Int}
    (h : keepsTables w.mem.index → InRange channel) (hrow : ¬CopiesBeyond w.mem.index channel) :
    EndsAt (icMgrGetDigitalGammaRegDataT channel r g b) w := by
  refine endsAt_icMgr w ?_
  generalize hchip : w.mem.index = chip at h hrow
  cases chip with
  | hi8394 =>
    obtain ⟨i, rfl⟩ := InRange.exists_fin (h (.inl rfl))
    exact endsAt_of_ends ((subscripted_hx8394GetDigitalGammaRegData r g b).inside i) w
  | icn9706 =>
    obtain ⟨i, rfl⟩ := InRange.exists_fin (h (.inr rfl))
    have hi : (i : Nat) ≠ 3 := fun hi => hrow ⟨rfl, by exact_mod_cast hi⟩
    -- behind the last row there is the info of the next channel
    obtain ⟨j, hj⟩ : ∃ j : Fin 4, ((i : Nat) : Int) + 1 = (j : Nat) :=
      ⟨⟨i + 1, by omega⟩, by simp⟩
    show ∃ a w' es, chipIcn9706GetDigitalGammaRegData (i : Nat) r g b w = .ok a w' ∧ _
    unfold chipIcn9706GetDigitalGammaRegData
    simp only [run_bind, run_devChannel, run_getMem, hj, run_pure]
    exact ⟨_, w, [], rfl, by simp, nofun, rfl⟩
  | _ => exact Only.pure _ w

/-- They leave the object where the getter copies beyond it. -/
theorem leaves_getDigital (r g b : Buf) {channel : Int} (hrow : CopiesBeyond w.mem.index channel) :
    Leaves (icMgrGetDigitalGammaRegDataT channel r g b) w := by
  obtain ⟨hchip, rfl⟩ := hrow
  have hrun : icMgrGetDigitalGammaRegDataT 3 r g b w =
      chipIcn9706GetDigitalGammaRegData 3 r g b w := by
    unfold icMgrGetDigitalGammaRegDataT
    rw [run_icMgr, hchip]
    rfl
  have hthree : devChannel 3 w = .ok 3 w := run_devChannel w 3
  -- the info behind the last one
  refine ⟨w.after 0 [.outOfTable 4], [.outOfTable 4], hrun.trans ?_, rfl, _,
    List.mem_singleton_self _, id⟩
  unfold chipIcn9706GetDigitalGammaRegData
  simp only [run_bind, hthree, run_getMem, run_devChannel_outside (by decide : ¬InRange (3 + 1))]
  rfl

/-- The results of the search are there for every channel but one behind the last. -/
theorem endsAt_getVcomAndFlick {channel : Int} (h : channel ≠ 4) :
    EndsAt (mipiChannelGetVcomAndFlick channel) w := by
  unfold mipiChannelGetVcomAndFlick
  split_ifs with hguard
  · -- 1 to 4 are let through, and 4 is none of them here
    obtain ⟨i, rfl⟩ := InRange.exists_fin (show InRange channel by unfold InRange; omega)
    refine ⟨(0, some (w.mem.sFindVcom i, w.mem.sFindFlick i)), w, [], ?_, by simp, nofun, rfl⟩
    simp only [run_bind, run_devChannel, run_getMem, run_pure]
  · exact Only.pure _ w

/-- The channel behind the last is one that the check lets pass. -/
theorem leaves_getVcomAndFlick : Leaves (mipiChannelGetVcomAndFlick 4) w := by
  unfold mipiChannelGetVcomAndFlick
  rw [if_pos (by decide)]
  exact (faultsAt_devChannel (by decide) w).bind

/-- The burn count, and what it is stored in. -/
theorem follows_readOtpTimesByte : Follows (keepsCount w.mem.index) readOtpTimesByte w where
  ends channel h := by
    refine .bind ((follows_readVcomOtpTimes w).ends channel h) fun times w₁ _ =>
      .bind (Only.getMem w₁) fun m w₂ _ => ?_
    cases times.2 with
    | none => exact .pure _ w₂
    | some otpTimes =>
      -- what is stored behind the variable is no entry of an array
      dsimp only
      split_ifs
      · exact .pure _ w₂
      · exact .bind (Only.emit trivial w₂) fun _ w₃ _ => .pure _ w₃
  faults channel hlooks hout := ((follows_readVcomOtpTimes w).faults channel hlooks hout).bind

end Manager

/-! ## The handlers -/

/-- A run that ends inside the arrays, or leaves them. -/
structure Reaches (fits : Prop) (x : Call α) (w : Board) : Prop where
  ends : fits → EndsAt x w
  leaves : ¬fits → Leaves x w

/-- A handler that reaches its end or a fault logs nothing outside if it reaches its end. -/
theorem Reaches.logsAt_iff {fits : Prop} {x : Call α} {w : Board} (h : Reaches fits x w) :
    LogsAt Event.InTable x w ↔ fits := by
  constructor
  · intro hlogs
    by_contra hout
    exact (h.leaves hout).not_logsAt hlogs
  · exact fun hfits => (h.ends hfits).logsAt

/-- What is behind the run does no harm. -/
theorem Reaches.bind {fits : Prop} {x : Call α} {w : Board} (h : Reaches fits x w) {β : Type}
    {f : α → Call β} (hf : ∀ a w', EndsAt (f a) w') : Reaches fits (x >>= f) w where
  ends hfits := (h.ends hfits).bind fun a w' _ => hf a w'
  leaves hout := (h.leaves hout).bind

variable (w : Board)

/-- A write of the server. -/
theorem writeRegs_reaches {msg : MsgGammaWriteReg} (hdata : msg.data.getD [] ≠ []) :
    Reaches ((ChannelMsg.gammaWriteReg msg).Fits w.mem.index)
      (writeRegs msg.channel.toInt (msg.writeType.getD 0) (msg.data.getD [])) w := by
  have hlen : (0 : Int) < (msg.data.getD []).length := by
    exact_mod_cast List.length_pos_iff.mpr hdata
  have hanalog := follows_writeAnalog w (regDataBuf (msg.data.getD [])) hlen
  have hdigital := follows_writeDigital w (regDataBuf (msg.data.getD [])) hlen
  unfold writeRegs ChannelMsg.Fits
  dsimp only
  split_ifs with hzero hone
  · -- an analog write, with the fixed digital tables behind it
    simp only [ne_eq, hdata, not_false_eq_true, true_imp_iff, hzero, true_or]
    refine ⟨fun h => .bind (hanalog.ends _ h) fun _ w' _ =>
      .bind (endsAt_of_ends (ends_icMgrWriteFixDigitalGammaData _) w') fun _ w'' _ => .pure _ w'', ?_⟩
    intro h
    push Not at h
    exact (hanalog.faults _ h.1 h.2).bind
  · simp only [ne_eq, hdata, not_false_eq_true, true_imp_iff, hone, or_true]
    refine ⟨fun h => .bind (hdigital.ends _ h) fun _ w' _ => .pure _ w', ?_⟩
    intro h
    push Not at h
    exact (hdigital.faults _ h.1 h.2).bind
  · refine ⟨fun _ => .pure _ w, fun h => absurd (fun _ htype => ?_) h⟩
    -- a type that is not handled
    rcases htype with htype | htype
    · exact absurd htype hzero
    · exact absurd htype hone

/-- GAMMA_WRITE_REG reaches its end or a fault. -/
theorem gammaWriteReg_reaches (msg : MsgGammaWriteReg) :
    Reaches ((ChannelMsg.gammaWriteReg msg).Fits w.mem.index) (server2cliMsgGammaWriteReg msg) w := by
  unfold server2cliMsgGammaWriteReg
  dsimp only
  by_cases hdata : msg.data.getD [] = []
  · -- without registers nothing is called
    rw [if_pos hdata]
    exact ⟨fun _ => .pure _ w, fun h => absurd (fun hsent => absurd hdata hsent) h⟩
  · -- the write is the whole run but for the answer
    rw [if_neg hdata]
    exact (writeRegs_reaches w hdata).bind fun _ w' => .pure _ w'

/-- READ_GAMMA reaches its end or a fault. -/
theorem readGamma_reaches (cfg : GammaCfg) (msg : MsgReadGamma) :
    Reaches ((ChannelMsg.readGamma cfg msg).Fits w.mem.index) (server2cliMsgReadGamma cfg msg) w := by
  obtain ⟨channel, readType, data⟩ := msg
  cases data with
  | none => exact ⟨fun _ => .pure _ w, fun h => absurd (fun hsent => absurd rfl hsent) h⟩
  | some regs =>
    have hfits : (ChannelMsg.readGamma cfg ⟨channel, readType, some regs⟩).Fits w.mem.index ↔
        (keepsCount w.mem.index → InRange channel.toInt) := by
      show (_ ≠ none → _) ↔ _
      simp
    rw [hfits]
    unfold server2cliMsgReadGamma
    dsimp only
    refine ⟨fun hin => ?_, fun hout => ?_⟩
    · refine .bind (endsAt_of_ends (ends_icMgrD3gControl _ _) w) fun _ w₁ h₁ =>
        .bind ?_ fun _ w₂ h₂ => ?_
      · -- what is written before the read
        unfold writeBeforeRead
        have hanalog : keepsTables w₁.mem.index → InRange channel.toInt := fun htables =>
          hin (keepsCount_of_keepsTables (h₁ ▸ htables))
        split_ifs
        · exact endsAt_writeAnalog w₁ _ _ hanalog
        · exact endsAt_writeAnalog w₁ _ _ hanalog
        · exact endsAt_of_ends (ends_icMgrWriteFixAnalogGammaData _) w₁
      · refine .bind (endsAt_of_ends (ends_icMgrReadAnalogGammaData _ _ _) w₂) fun _ w₃ h₃ => ?_
        have hcount : keepsCount w₃.mem.index → InRange channel.toInt := by
          rw [h₃, h₂, h₁]
          exact hin
        exact .bind ((follows_readOtpTimesByte w₃).ends _ hcount) fun _ w₄ _ => .pure _ w₄
    · push Not at hout
      -- at the latest the burn count is looked up
      refine FaultsAt.bind_of (.inl (ends_icMgrD3gControl _ _ w)) fun _ w₁ h₁ =>
        FaultsAt.bind_of (R := Event.InTable) (g := Mem.index) ?_ fun _ w₂ h₂ => ?_
      · unfold writeBeforeRead
        split_ifs
        · exact endsAt_or_writeAnalog w₁ _ _ _
        · exact endsAt_or_writeAnalog w₁ _ _ _
        · exact .inl (endsAt_of_ends (ends_icMgrWriteFixAnalogGammaData _) w₁)
      · refine FaultsAt.bind_of (.inl (ends_icMgrReadAnalogGammaData _ _ _ w₂)) fun _ w₃ h₃ => ?_
        refine ((follows_readOtpTimesByte w₃).faults _ ?_ hout.2).bind
        rw [h₃, h₂, h₁]
        exact hout.1

/-- GAMMA_OTP reaches its end or a fault. -/
theorem gammaOtp_reaches (msg : MsgGammaOtp) :
    Reaches ((ChannelMsg.gammaOtp msg).Fits w.mem.index) (server2cliMsgGammaOtp msg) w := by
  unfold server2cliMsgGammaOtp ChannelMsg.Fits
  dsimp only
  by_cases hflag : msg.otpFlag.getD 0 = 0
  · -- no burn is asked for, and an error is answered
    rw [if_pos hflag]
    exact ⟨fun _ => Only.emit trivial w, fun h => absurd (fun hsent => absurd hflag hsent) h⟩
  rw [if_neg hflag]
  simp only [ne_eq, hflag, not_false_eq_true, true_imp_iff]
  generalize msg.channel.toInt = channel
  refine ⟨?_, fun hout => ?_⟩
  · rintro ⟨hfour, hcount, hrow⟩
    have htables : keepsTables w.mem.index → InRange channel := fun h =>
      hcount (keepsCount_of_keepsTables h)
    refine .bind (endsAt_getVcomAndFlick w hfour) fun _ w₁ h₁ => ?_
    refine .bind ((follows_readOtpTimesByte w₁).ends _ (h₁ ▸ hcount)) fun _ w₂ h₂ => ?_
    replace h₂ := h₂.trans h₁
    refine .bind ((follows_getAnalog w₂ _).ends _ (h₂ ▸ htables)) fun _ w₃ h₃ => ?_
    replace h₃ := h₃.trans h₂
    refine .bind (endsAt_getDigital w₃ _ _ _ (h₃ ▸ htables) (h₃ ▸ hrow)) fun _ w₄ _ => ?_
    -- the burn and its check look nothing up
    refine .bind (endsAt_icMgrBurnGammaOtpValues w₄ _ _ _ _ _ _ _ _) fun _ w₅ _ => ?_
    refine .bind (Only.emit trivial w₅) fun _ w₆ _ => .bind (Only.getMem w₆) fun _ w₇ _ => ?_
    refine .bind (Only.emit trivial w₇) fun _ w₈ _ => ?_
    exact .bind (endsAt_icMgrCheckGammaOtpValues w₈ _ _ _ _ _ _ _ _) fun _ w₉ _ =>
      Only.emit trivial w₉
  · by_cases hfour : channel = 4
    · -- the first thing that is done
      subst hfour
      exact (leaves_getVcomAndFlick w).bind
    by_cases hcount : keepsCount w.mem.index → InRange channel
    · have hrow : CopiesBeyond w.mem.index channel := by
        by_contra hrow
        exact hout ⟨hfour, hcount, hrow⟩
      -- it comes as far as the digital tables, or leaves an array before
      refine FaultsAt.bind_of (.inl (endsAt_getVcomAndFlick w hfour)) fun _ w₁ h₁ => ?_
      refine FaultsAt.bind_of ((follows_readOtpTimesByte w₁).endsAt_or _) fun _ w₂ h₂ => ?_
      refine FaultsAt.bind_of ((follows_getAnalog w₂ _).endsAt_or _) fun _ w₃ h₃ => ?_
      refine (leaves_getDigital w₃ _ _ _ ?_).bind
      rw [h₃, h₂, h₁]
      exact hrow
    · -- the burn count is the second thing that is looked up
      push Not at hcount
      refine FaultsAt.bind_of (.inl (endsAt_getVcomAndFlick w hfour)) fun _ w₁ h₁ => ?_
      exact ((follows_readOtpTimesByte w₁).faults _ (h₁ ▸ hcount.1) hcount.2).bind

/-! ### The search -/

/-- The search writes its VCOMs on channel 1. -/
theorem inside_writeVcoms (vcoms : List Int) : Inside (writeVcoms mChannel1 vcoms) := by
  induction vcoms with
  | nil => exact inside_of_ends (.pure _)
  | cons vcom vcoms ih => exact .bind (inside_icMgrWriteVcom 1 _) fun _ => ih

/-- The result of the search is stored for channel 1. -/
theorem inside_setVcomAndFlick (vcom flick : CInt) :
    Inside (mipiChannelSetVcomAndFlick mChannel1 vcom flick) := by
  unfold mipiChannelSetVcomAndFlick
  exact .ite (.bind (inside_of_ends (ends_devChannel 1)) fun _ => .bind
    (inside_of_ends (.modMem fun _ => rfl)) fun _ => inside_of_ends (.pure _))
    (inside_of_ends (.pure _))

/-- **The flick search stays on channel 1**, whatever it captures. -/
theorem inside_autoFlickTask (run : FlickRun) : Inside (autoFlickTask run) := by
  have hsearch : Inside (searchFlick mChannel1 run) := by
    refine .bind (inside_writeVcoms _) fun _ => ?_
    cases (zAutoFlick2 run.info run.captures (firstTurn run.info run.second)).2 with
    | none => exact inside_of_ends (.pure _)
    | some e => exact .bind (inside_setVcomAndFlick _ _) fun _ => inside_writeVcoms _
  have hget : Inside (mipiChannelGetVcomAndFlick mChannel1) := fun w' =>
    (endsAt_getVcomAndFlick w' (by decide)).logsAt
  -- what is told at the end, with or without a search
  have hend : Inside (do
      let _ ← mipiChannelGetVcomAndFlick mChannel1
      pure ()) := .bind hget fun _ => inside_of_ends (.pure _)
  unfold autoFlickTask
  split_ifs
  · refine .bind (inside_icMgrCheckChipOk 1) fun checkError => ?_
    dsimp only
    split_ifs
    · exact .bind hsearch fun _ => hend
    · exact hend
  · exact inside_of_ends (.pure _)

/-- The states of the channels are set inside their array. -/
theorem inside_setChannelStates : Inside setChannelStates :=
  .bind (inside_icMgrSetChannelState 0) fun _ => .bind (inside_icMgrSetChannelState 1) fun _ =>
    .bind (inside_icMgrSetChannelState 2) fun _ => .bind (inside_icMgrSetChannelState 3) fun _ =>
    inside_of_ends (.pure _)

/-- **For which channels the arrays are indexed inside their bounds.** -/
theorem indexSafe_iff (msg : ChannelMsg) : IndexSafe msg w ↔ msg.Fits w.mem.index := by
  -- the states of the channels are set before every message, inside their array
  suffices h : LogsAt Event.InTable msg.handle w ↔ msg.Fits w.mem.index from
    ⟨fun hsafe => h.mp hsafe.handle, fun hfits => ⟨h.mpr hfits, inside_setChannelStates⟩⟩
  cases msg with
  | gammaWriteReg msg =>
    exact ((gammaWriteReg_reaches w msg).bind fun _ w' => .pure _ w').logsAt_iff
  | readGamma cfg msg => exact ((readGamma_reaches w cfg msg).bind fun _ w' => .pure _ w').logsAt_iff
  | gammaOtp msg => exact (gammaOtp_reaches w msg).logsAt_iff
  -- the search uses channel 1 whatever the message says
  | autoFlick msg run =>
    have hinside : Inside (server2cliMsgAutoFlick msg run) := by
      unfold server2cliMsgAutoFlick
      split_ifs
      · exact inside_of_ends (.pure _)
      · exact inside_autoFlickTask run
    exact iff_of_true (hinside w) trivial

/-- A burn of channel 4, of which the manager's chips know nothing. -/
def otpOfFour : MsgGammaOtp := ⟨4, some 1⟩

/-- The result of the search is behind the last one. -/
theorem otpOfFour_not_indexSafe : ¬IndexSafe (.gammaOtp otpOfFour) hi8394Board :=
  fun h => (leaves_getVcomAndFlick hi8394Board).bind.not_logsAt h.handle

end PgClient.Server
