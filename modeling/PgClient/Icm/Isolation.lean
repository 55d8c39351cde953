import PgClient.Icm.Hi8394
import PgClient.Icm.Hx8298c

/-!
# The two sides of the panel

Channels 0 and 1 are on the left, 2 and 3 on the right. Each side has its SPI controller,
its bit-banged SPI, its reset pin and its write-enable pin.

* `own_write2IC` and the lemmas behind it — with its own channel a call stays on its side.
* `isolated_iff` — which operations of the hi8394 and hx8298c drivers do.
-/

namespace PgClient.Icm

open DeviceLog

/-! ## The hardware -/

/-- `SPI_CS(_ctrl, _index)`. -/
def spiCs (ctrl index : Nat) : Nat := ctrl <<< 4 ||| 1 <<< index

/-- `translateChannel2SpiCs`; the channels go from left to right. -/
def translateChannel2SpiCs (channel : Int) : Nat :=
  if channel = 3 then spiCs 1 0
  else if channel = 2 then spiCs 1 1
  else if channel = 1 then spiCs 2 0
  else if channel = 0 then spiCs 2 1
  else 0

/-- `vspiCtrlInstance`, as the index into `pSgVirtualSpiM`. -/
def vspiCtrlInstance (channel : Int) : Nat := if channel = 0 ∨ channel = 1 then 0 else 1

/-- `GPIO_PIN_RST_L`. -/
def gpioPinRstL : Nat := 11

/-- `GPIO_PIN_RST_R`. -/
def gpioPinRstR : Nat := 10

/-- The pin that `mipiIcReset` pulses. -/
def icResetPin (channel : Int) : Nat :=
  if channel = 0 ∨ channel = 1 then gpioPinRstL else gpioPinRstR

/-- What an access goes to: a chip select of an SPI controller, a bit-banged SPI, a pin. -/
inductive Hardware
  | spi (cs : Nat)
  | vspi (index : Nat)
  | gpio (pin : Nat)

/-- What the calls of the drivers access. -/
def Event.targets : Event → List Hardware
  | .mipi2828Write2IC channel _ _ => [.spi (translateChannel2SpiCs channel)]
  | .readModReg channel _ _ _ _ => [.spi (translateChannel2SpiCs channel.toNat)]
  | .setMipi2828HighSpeedMode channel _ => [.spi (translateChannel2SpiCs channel)]
  | .mipiIcReset channel => [.gpio (icResetPin channel)]
  | .vspiCtrlSetMode channel _ => [.vspi (vspiCtrlInstance channel)]
  | .vspiCtrlSetByteFormat channel _ => [.vspi (vspiCtrlInstance channel)]
  | .vspiCtrlSetCsState channel _ => [.vspi (vspiCtrlInstance channel)]
  | .vspiCtrlWrite channel _ => [.vspi (vspiCtrlInstance channel)]
  | .vspiCtrlRead channel _ => [.vspi (vspiCtrlInstance channel)]
  | .gpioSetOutputValue pin _ => [.gpio pin]
  | _ => []

/-! ## The sides -/

inductive Side
  | left
  | right
  deriving DecidableEq

/-- The side of a channel. -/
def sideOf (c : Fin 4) : Side := if c.val ≤ 1 then .left else .right

/-- The side a piece of hardware belongs to; the upper bits of a chip select are the
controller. -/
def Hardware.side : Hardware → Option Side
  | .spi cs => if cs >>> 4 = 2 then some .left else if cs >>> 4 = 1 then some .right else none
  | .vspi index => if index = 0 then some .left else if index = 1 then some .right else none
  | .gpio pin =>
    if pin = gpioPinRstL ∨ pin = ttlGpioPinUdL then some .left
    else if pin = gpioPinRstR ∨ pin = ttlGpioPinUdR then some .right
    else none

/-- All that the event accesses is on the side of the channel. -/
def Own (c : Fin 4) (e : Event) : Prop := ∀ h ∈ e.targets, h.side = some (sideOf c)

/-- A call for a channel stays on its side, and leaves the private data of the other
channels alone. -/
structure Isolated (c : Fin 4) (call : Call Unit) (w : Board) : Prop where
  own : ∀ e ∈ (final (call w)).log.drop w.log.length, Own c e
  others : ∀ c', c' ≠ c → (final (call w)).mem.hx8394 c' = w.mem.hx8394 c' ∧
    (final (call w)).mem.hx8298c c' = w.mem.hx8298c c'

/-- The operations of the two drivers that write to the chip. -/
inductive DriverOp
  | hi8394WriteVcom (vcomValue : CInt)
  | hi8394BurnVcom (otpVcomValue : CInt)
  | hi8394BurnGamma (burnFlag : CInt) (enableBurnVcom : Bool) (vcom : CInt)
      (pAnalogGammaReg pD3gR pD3gG pD3gB : Buf)
  | hx8298cWriteVcom (value : Byte)
  | hx8298cBurnVcom (value : Byte)

/-- An operation on a channel, without what it returns. -/
def DriverOp.run (channel : Int) : DriverOp → Call Unit
  | .hi8394WriteVcom vcomValue => do
    let _ ← chipHi8394WriteVcom channel vcomValue
    pure ()
  | .hi8394BurnVcom otpVcomValue => do
    let _ ← chipHi8394WriteChipVcomOtpValue channel otpVcomValue
    pure ()
  | .hi8394BurnGamma burnFlag enableBurnVcom vcom a r g b => do
    let _ ← hx8394BurnGammaOtpValues channel burnFlag enableBurnVcom vcom a r g b
    pure ()
  | .hx8298cWriteVcom value => do
    let _ ← chipHx8298cWriteVcom channel value
    pure ()
  | .hx8298cBurnVcom value => chipHx8298cWriteVcomOtpValue channel value

/-- A gamma burn is on the left; a VCOM of the hx8298c is not written to channel 0. -/
def DriverOp.OnSide (c : Fin 4) (m : Mem) : DriverOp → Prop
  | .hi8394WriteVcom _ => True
  | .hi8394BurnVcom _ => True
  | .hi8394BurnGamma .. => c.val ≤ 1
  | .hx8298cWriteVcom _ => c ≠ 0 ∨ (m.hx8298c c).idOk ≠ 1
  | .hx8298cBurnVcom _ => c ≠ 0 ∨ (m.hx8298c c).idOk ≠ 1

/-! ## Events on a side -/

section Events

variable (c : Fin 4)

/-- The SPI bus of a channel is on the channel's side. -/
theorem spi_side : (Hardware.spi (translateChannel2SpiCs (c : Nat))).side = some (sideOf c) := by
  revert c
  decide

/-- The virtual SPI bus of a channel is on the channel's side. -/
theorem vspi_side : (Hardware.vspi (vspiCtrlInstance (c : Nat))).side = some (sideOf c) := by
  revert c
  decide

/-- The reset line of a channel is on the channel's side. -/
theorem icReset_side : (Hardware.gpio (icResetPin (c : Nat))).side = some (sideOf c) := by
  revert c
  decide

variable {c} in
/-- An event that accesses one thing. -/
theorem own_of_targets {e : Event} {h : Hardware} (htargets : e.targets = [h])
    (hside : h.side = some (sideOf c)) : Own c e := by
  intro h' hmem
  rw [htargets] at hmem
  rwa [List.mem_singleton.mp hmem]

@[simp] theorem own_write2IC (regAddr : Byte) (pData : List Byte) :
    Own c (.mipi2828Write2IC (c : Nat) regAddr pData) :=
  own_of_targets rfl (spi_side c)

@[simp] theorem own_highSpeedMode (bHSMode : Bool) :
    Own c (.setMipi2828HighSpeedMode (c : Nat) bHSMode) :=
  own_of_targets rfl (spi_side c)

@[simp] theorem own_icReset : Own c (.mipiIcReset (c : Nat)) := own_of_targets rfl (icReset_side c)

@[simp] theorem own_vspiSetMode (mode : Spi.VspiMode) :
    Own c (.vspiCtrlSetMode (c : Nat) mode) :=
  own_of_targets rfl (vspi_side c)

@[simp] theorem own_vspiSetByteFormat (byteFormat : CInt) :
    Own c (.vspiCtrlSetByteFormat (c : Nat) byteFormat) :=
  own_of_targets rfl (vspi_side c)

@[simp] theorem own_vspiSetCsState (state : Bool) : Own c (.vspiCtrlSetCsState (c : Nat) state) :=
  own_of_targets rfl (vspi_side c)

@[simp] theorem own_vspiWrite (value : Byte) : Own c (.vspiCtrlWrite (c : Nat) value) :=
  own_of_targets rfl (vspi_side c)

@[simp] theorem own_vspiRead (reply : Option Reply) : Own c (.vspiCtrlRead (c : Nat) reply) :=
  own_of_targets rfl (vspi_side c)

@[simp] theorem own_msleep (msecond : Nat) : Own c (.msleep msecond) := nofun

end Events

/-! ## Operations on a side -/

/-- The events are on the side of the channel, and the memory is not changed. -/
abbrev Stays (c : Fin 4) (x : Call α) : Prop := Only (Own c) (fun m : Mem => m) x

section Stays

variable (c : Fin 4)

/-- A register written is the channel's own. -/
theorem stays_write2IC (regAddr : Byte) (pData : List Byte) :
    Stays c (mipi2828Write2IC (c : Nat) regAddr pData) := .emit (own_write2IC c regAddr pData)

/-- The speed of the link is the channel's own. -/
theorem stays_highSpeedMode (bHSMode : Bool) :
    Stays c (setMipi2828HighSpeedMode (c : Nat) bHSMode) := .emit (own_highSpeedMode c bHSMode)

/-- The hi8394 writes its VCOM on its side. -/
theorem stays_hi8394WriteVcom (vcomValue : CInt) : Stays c (hi8394WriteVcom (c : Nat) vcomValue) :=
  .bind (stays_write2IC c _ _) fun _ => stays_write2IC c _ _

/-- The hi8394 burns its VCOM on its side. -/
theorem stays_hi8394BurnVcom (otpVcomValue : CInt) :
    Stays c (hi8394BurnVcom (c : Nat) otpVcomValue) := by
  unfold hi8394BurnVcom
  repeat refine .emit_bind (by simp) ?_
  exact .pure _

/-- The hi8394 writes its analog registers on its side. -/
theorem stays_chipHi8394WriteAnalogReg (a : Nat → Byte) :
    Stays c (chipHi8394WriteAnalogReg (c : Nat) a) :=
  .bind (stays_highSpeedMode c false) fun _ => .bind (stays_write2IC c _ _) fun _ =>
    stays_highSpeedMode c true

/-- The hi8394 writes its digital registers on its side. -/
theorem stays_hx8394WriteD3gReg2 (r g b : Nat → Byte) :
    Stays c (hx8394WriteD3gReg2 (c : Nat) r g b) := by
  unfold hx8394WriteD3gReg2
  refine .emit_bind (by simp) (.emit_bind (by simp) (.emit_bind (by simp) ?_))
  refine .emit_bind (by simp) (.emit_bind (by simp) ?_)
  exact stays_write2IC c _ _

/-- On the left, both resets are of the own side. -/
theorem stays_hx8394BurnPrepare (hc : c.val ≤ 1) (burnVcom : Bool) (vcomValue : List Byte)
    (a r g b : Nat → Byte) :
    Stays c (hx8394BurnPrepare (c : Nat) burnVcom vcomValue a r g b) := by
  have hreset : ∀ k : Fin 4, k.val ≤ 1 → Own c (.mipiIcReset (k : Nat)) := by
    intro k hk h hh
    obtain rfl := List.mem_singleton.mp hh
    rw [icReset_side, sideOf, sideOf, if_pos hk, if_pos hc]
  unfold hx8394BurnPrepare
  refine .emit_bind (by simp) ?_
  refine .emit_bind (hreset 0 (by decide)) (.emit_bind (hreset 1 (by decide)) ?_)
  refine .emit_bind (by simp) (.emit_bind (by simp) (.emit_bind (by simp) ?_))
  -- the tables and the command behind them go over the channel itself
  have htables : Stays c (do
      chipHi8394WriteAnalogReg (c : Nat) a
      hx8394WriteD3gReg2 (c : Nat) r g b
      msleep 100
      mipi2828Write2IC (c : Nat) 0xBB [0x00, 0x00, 0x00, 0x00, 0x00, 0xAA, 0x55]) :=
    .bind (stays_chipHi8394WriteAnalogReg c a) fun _ => .bind (stays_hx8394WriteD3gReg2 c r g b)
      fun _ => .emit_bind (own_msleep c 100) (stays_write2IC c _ _)
  cases burnVcom
  · exact htables
  · exact .bind (stays_write2IC c _ _) fun _ => htables

/-- The power for a burn is the channel's own. -/
theorem stays_hx8394VcomOtpPower (burnVcom : Bool) :
    Stays c (hx8394VcomOtpPower (c : Nat) burnVcom) := by
  unfold hx8394VcomOtpPower
  split
  · exact .bind (stays_write2IC c _ _) fun _ => stays_write2IC c _ _
  · exact .pure _

/-- The preparation of a burn resets channel 0, which is on the left side. -/
theorem stays_hx8394BurnGammaData2nd (hc : c.val ≤ 1) (vcom : CInt) (burnVcom : Bool)
    (a r g b : Nat → Byte) :
    Stays c (hx8394BurnGammaData2nd (c : Nat) vcom burnVcom a r g b) := by
  refine .bind (stays_hx8394BurnPrepare c hc _ _ _ _ _ _) fun _ => ?_
  refine .bind (stays_hx8394VcomOtpPower c _) fun _ => .emit_bind (by simp) ?_
  refine .emit_bind (by simp) (.emit_bind (by simp) (.emit_bind (by simp) ?_))
  refine .emit_bind (by simp) (.emit_bind (by simp) (.emit_bind (by simp) ?_))
  refine .emit_bind (by simp) (.emit_bind (by simp) (.emit_bind (by simp) ?_))
  refine .emit_bind (by simp) (.emit_bind (by simp) ?_)
  exact stays_highSpeedMode c true

/-- On the left side the burn with the VCOM stays there too. -/
theorem stays_hx8394BurnVcomAndGammaData (hc : c.val ≤ 1) (vcom : CInt) (burnVcom : Bool)
    (a r g b : Nat → Byte) :
    Stays c (hx8394BurnVcomAndGammaData (c : Nat) vcom burnVcom a r g b) := by
  refine .bind (stays_hx8394BurnPrepare c hc _ _ _ _ _ _) fun _ => ?_
  refine .bind (stays_hx8394VcomOtpPower c _) fun _ => .emit_bind (by simp) ?_
  refine .emit_bind (by simp) (.emit_bind (by simp) (.emit_bind (by simp) ?_))
  refine .emit_bind (by simp) (.emit_bind (by simp) (.emit_bind (by simp) ?_))
  refine .emit_bind (by simp) (.emit_bind (by simp) (.emit_bind (by simp) ?_))
  exact stays_highSpeedMode c true

/-- Either burn, as the entry chooses it. -/
theorem stays_hx8394BurnGammaOtpValues (hc : c.val ≤ 1) (burnFlag : CInt) (enableBurnVcom : Bool)
    (vcom : CInt) (a r g b : Buf) :
    Stays c (hx8394BurnGammaOtpValues (c : Nat) burnFlag enableBurnVcom vcom a r g b) := by
  unfold hx8394BurnGammaOtpValues
  split
  · exact .bind (stays_hx8394BurnGammaData2nd c hc _ _ _ _ _ _) fun _ => .pure _
  · exact .bind (stays_hx8394BurnVcomAndGammaData c hc _ _ _ _ _ _) fun _ => .pure _

/-- The hx8298c selects its own slave. -/
theorem stays_chipHx8298cStart (addr : Byte) : Stays c (chipHx8298cStart (c : Nat) addr) := by
  refine .bind ?_ fun _ => .emit (own_vspiWrite c addr)
  unfold chipHx8298cSpiConfig
  refine .emit_bind (by simp) (.emit_bind (by simp) ?_)
  refine .emit_bind (by simp) (.emit_bind (by simp) ?_)
  exact .emit (own_vspiSetCsState c true)

/-- The hx8298c writes its registers on its side. -/
theorem stays_chipHx8298cWriteReg (addr value : Byte) :
    Stays c (chipHx8298cWriteReg (c : Nat) addr value) :=
  .bind (stays_chipHx8298cStart c addr) fun _ =>
    .emit_bind (own_vspiWrite c value) (.emit (own_vspiSetCsState c false))

/-- The hx8298c sets its page on its side. -/
theorem stays_chipHx8298cSetPage (pageNo : Byte) : Stays c (chipHx8298cSetPage (c : Nat) pageNo) :=
  stays_chipHx8298cWriteReg c 0x00 pageNo

/-- The hx8298c reads its registers on its side. -/
theorem stays_chipHx8298cReadReg (addr : Byte) : Stays c (chipHx8298cReadReg (c : Nat) addr) := by
  refine .bind (stays_chipHx8298cStart c addr) fun _ => .bind ?_ fun _ => ?_
  · exact .bind (.ask fun reply => own_vspiRead c reply) fun _ => .pure _
  · exact .emit_bind (own_vspiSetCsState c false) (.pure _)

/-- The comparison is stored in the channel: only channel 1 gets the left pin. -/
theorem stays_setIcWriteStatus (hc : c ≠ 0) (enable : Bool) :
    Stays c (setIcWriteStatus (c : Nat) enable) := by
  have hpin : ∀ pin value, (Hardware.gpio pin).side = some (sideOf c) →
      Stays c (gpioSetOutputValue pin value) := by
    intro pin value hside
    refine .emit fun h hh => ?_
    obtain rfl := List.mem_singleton.mp hh
    exact hside
  unfold setIcWriteStatus
  -- any other channel drives the right panel's pin, which is right for 2 and 3 only
  by_cases hone : c = 1
  · subst hone
    exact hpin ttlGpioPinUdL _ rfl
  · have hright : ¬((c : Nat) : Int) = 1 := fun h => hone (Fin.ext (by simpa using h))
    rw [if_neg hright]
    have hside : ∀ k : Fin 4, k ≠ 0 → k ≠ 1 →
        (Hardware.gpio ttlGpioPinUdR).side = some (sideOf k) := by decide
    exact hpin ttlGpioPinUdR _ (hside c hc hone)

/-- Its VCOM drives a pin of the right panel, so channel 0 is left out. -/
theorem stays_hx8298cWriteVcom (hc : c ≠ 0) (value : Byte) :
    Stays c (hx8298cWriteVcom (c : Nat) value) := by
  refine .bind (stays_setIcWriteStatus c hc true) fun _ => ?_
  refine .bind (stays_chipHx8298cSetPage c 1) fun _ => ?_
  refine .bind (stays_chipHx8298cWriteReg c 0x14 0x91) fun _ => ?_
  refine .bind (stays_chipHx8298cWriteReg c 0x1A value) fun _ => ?_
  exact .bind (stays_setIcWriteStatus c hc false) fun _ => .pure _

/-- Looking the channel up touches no hardware. -/
theorem stays_devChannel : Stays c (devChannel (c : Nat)) := fun w =>
  ⟨c, w, [], run_devChannel w c, by simp, nofun, rfl⟩

/-- Writing the hi8394's VCOM, as the entry does it. -/
theorem stays_chipHi8394WriteVcom (vcomValue : CInt) :
    Stays c (chipHi8394WriteVcom (c : Nat) vcomValue) := by
  have hwrite : Stays c (do hi8394WriteVcom (c : Nat) vcomValue; pure (0 : Int)) :=
    .bind (stays_hi8394WriteVcom c vcomValue) fun _ => .pure _
  refine .bind (stays_devChannel c) fun i => .bind .getMem fun m => .ite ?_ (.pure _)
  split
  · exact hwrite
  · exact hwrite

/-- Burning it, as the entry does it. -/
theorem stays_chipHi8394WriteChipVcomOtpValue (otpVcomValue : CInt) :
    Stays c (chipHi8394WriteChipVcomOtpValue (c : Nat) otpVcomValue) :=
  .bind (stays_devChannel c) fun _ => .bind .getMem fun _ =>
    .ite (stays_hi8394BurnVcom c otpVcomValue) (.pure _)

/-- Without the id of the chip nothing is written. -/
theorem stays_chipHx8298cWriteVcom (value : Byte) (w : Board)
    (h : c ≠ 0 ∨ (w.mem.hx8298c c).idOk ≠ 1) :
    OnlyAt (Own c) (fun m : Mem => m) (chipHx8298cWriteVcom (c : Nat) value) w := by
  rcases h with hc | hid
  · have hstays : Stays c (chipHx8298cWriteVcom (c : Nat) value) :=
      .bind (stays_devChannel c) fun _ => .bind .getMem fun _ =>
        .ite (stays_hx8298cWriteVcom c hc value) (.pure _)
    exact hstays w
  · refine ⟨-1, w, [], ?_, by simp, nofun, rfl⟩
    simp only [chipHx8298cWriteVcom, run_bind, run_devChannel, run_getMem, if_neg hid, run_pure]

/-- Burning the hx8298c's VCOM stays there off channel 0, and before the id was found. -/
theorem stays_chipHx8298cWriteVcomOtpValue (value : Byte) (w : Board)
    (h : c ≠ 0 ∨ (w.mem.hx8298c c).idOk ≠ 1) :
    OnlyAt (Own c) (fun m : Mem => m) (chipHx8298cWriteVcomOtpValue (c : Nat) value) w := by
  have hreg : ∀ addr val, Stays c (chipHx8298cWriteReg (c : Nat) addr val) :=
    stays_chipHx8298cWriteReg c
  -- the memory is the same when the VCOM is written
  refine .bind ((stays_chipHx8298cSetPage c 9).onlyAt w) fun _ w₁ h₁ => ?_
  refine .bind ((hreg 0x02 0x66).onlyAt w₁) fun _ w₂ h₂ => ?_
  refine .bind ((Only.emit (own_msleep c 10)).onlyAt w₂) fun _ w₃ h₃ => ?_
  refine .bind ((hreg 0x01 0x08).onlyAt w₃) fun _ w₄ h₄ => ?_
  have hmem : w₄.mem = w.mem := h₄.trans (h₃.trans (h₂.trans h₁))
  refine .bind (stays_chipHx8298cWriteVcom c value w₄ (by rw [hmem]; exact h)) fun _ w₅ _ => ?_
  have hrest : Stays c (do
      chipHx8298cWriteReg (c : Nat) 0x03 0x01
      msleep 13
      let _vcom ← chipHx8298cReadReg (c : Nat) 0x0F
      chipHx8298cWriteReg (c : Nat) 0x02 0x00) :=
    .bind (hreg 0x03 0x01) fun _ => .emit_bind (own_msleep c 13) (
      .bind (stays_chipHx8298cReadReg c 0x0F) fun _ => hreg 0x02 0x00)
  exact hrest w₅

/-- On its side, an operation is isolated. -/
theorem stays_run (op : DriverOp) (w : Board) (h : op.OnSide c w.mem) :
    OnlyAt (Own c) (fun m : Mem => m) (op.run (c : Nat)) w := by
  cases op with
  | hi8394WriteVcom vcomValue =>
    exact .bind ((stays_chipHi8394WriteVcom c vcomValue).onlyAt w) fun _ w' _ => .pure _ w'
  | hi8394BurnVcom otpVcomValue =>
    exact .bind ((stays_chipHi8394WriteChipVcomOtpValue c otpVcomValue).onlyAt w) fun _ w' _ =>
      .pure _ w'
  | hi8394BurnGamma burnFlag enableBurnVcom vcom a r g b =>
    exact .bind ((stays_hx8394BurnGammaOtpValues c h _ _ _ _ _ _ _).onlyAt w) fun _ w' _ => .pure _ w'
  | hx8298cWriteVcom value =>
    exact .bind (stays_chipHx8298cWriteVcom c value w h) fun _ w' _ => .pure _ w'
  | hx8298cBurnVcom value => exact stays_chipHx8298cWriteVcomOtpValue c value w h

end Stays

/-! ## Operations that leave it -/

/-- An event of the run is not on the side. -/
theorem not_isolated {c : Fin 4} {call : Call Unit} {w : Board} {n : Nat} {es : List Event} {e : Event}
    (hrun : call w = .ok () (w.after n es)) (he : e ∈ es) (hbad : ¬Own c e) : ¬Isolated c call w := by
  intro h
  refine hbad (h.own e ?_)
  rw [hrun, final_ok, World.after_log, List.drop_left]
  exact he

/-- The preparation resets channel 0, whichever channel it is for. -/
theorem run_hx8394BurnPrepare_resets (channel : Int) (burnVcom : Bool) (vcomValue : List Byte)
    (a r g b : Nat → Byte) (w : Board) :
    ∃ es, hx8394BurnPrepare channel burnVcom vcomValue a r g b w = .ok () (w.after 0 es) ∧
      .mipiIcReset 0 ∈ es := by
  cases burnVcom
  all_goals
    exact ⟨_, by simp [hx8394BurnPrepare, chipHi8394WriteAnalogReg, hx8394WriteD3gReg2]; rfl,
      by simp⟩

/-- The gamma burn resets channel 0. -/
theorem run_hx8394BurnGammaData2nd_resets (channel : Int) (vcom : CInt) (burnVcom : Bool)
    (a r g b : Nat → Byte) (w : Board) :
    ∃ es, hx8394BurnGammaData2nd channel vcom burnVcom a r g b w = .ok () (w.after 0 es) ∧
      .mipiIcReset 0 ∈ es := by
  obtain ⟨es, hprep, hreset⟩ := run_hx8394BurnPrepare_resets channel burnVcom
    [0xFF, 0x83, 0x94] a r g b w
  unfold hx8394BurnGammaData2nd
  rw [run_bind, hprep]
  cases burnVcom
  all_goals exact ⟨_, by simp [hx8394VcomOtpPower]; rfl, List.mem_append_left _ hreset⟩

/-- The burn of gamma and VCOM resets channel 0. -/
theorem run_hx8394BurnVcomAndGammaData_resets (channel : Int) (vcom : CInt) (burnVcom : Bool)
    (a r g b : Nat → Byte) (w : Board) :
    ∃ es, hx8394BurnVcomAndGammaData channel vcom burnVcom a r g b w = .ok () (w.after 0 es) ∧
      .mipiIcReset 0 ∈ es := by
  obtain ⟨es, hprep, hreset⟩ := run_hx8394BurnPrepare_resets channel burnVcom
    [vcom.setWidth 8, vcom.setWidth 8, 0x00] a r g b w
  unfold hx8394BurnVcomAndGammaData
  rw [run_bind, hprep]
  cases burnVcom
  all_goals exact ⟨_, by simp [hx8394VcomOtpPower]; rfl, List.mem_append_left _ hreset⟩

/-- Both burns of the gammas reset the left side. -/
theorem run_hx8394BurnGammaOtpValues_resets (channel : Int) (burnFlag : CInt) (enableBurnVcom : Bool)
    (vcom : CInt) (a r g b : Buf) (w : Board) :
    ∃ es, hx8394BurnGammaOtpValues channel burnFlag enableBurnVcom vcom a r g b w =
      .ok 0 (w.after 0 es) ∧ .mipiIcReset 0 ∈ es := by
  unfold hx8394BurnGammaOtpValues
  by_cases hflag : burnFlag &&& 1 ≠ 0
  · obtain ⟨es, hrun, hreset⟩ := run_hx8394BurnGammaData2nd_resets channel vcom enableBurnVcom
      a.data r.data g.data b.data w
    exact ⟨es, by simp only [if_pos hflag, run_bind, hrun, run_pure], hreset⟩
  · obtain ⟨es, hrun, hreset⟩ := run_hx8394BurnVcomAndGammaData_resets channel vcom enableBurnVcom
      a.data r.data g.data b.data w
    exact ⟨es, by simp only [if_neg hflag, run_bind, hrun, run_pure], hreset⟩

/-- Channel 0 is in the table. -/
theorem run_devChannel_zero (w : Board) : devChannel 0 w = .ok 0 w := run_devChannel w 0

/-- Channel 0 is taken for one on the right. -/
theorem run_chipHx8298cWriteVcom_right (value : Byte) {w : Board}
    (hid : (w.mem.hx8298c 0).idOk = 1) :
    ∃ es, chipHx8298cWriteVcom 0 value w = .ok 0 (w.after 0 es) ∧
      .gpioSetOutputValue ttlGpioPinUdR false ∈ es :=
  ⟨_, by simp [chipHx8298cWriteVcom, run_devChannel_zero, hid, hx8298cWriteVcom, setIcWriteStatus]; rfl,
    by simp⟩

/-- Burning the hx8298c of channel 0 drives the pin of the other panel. -/
theorem run_chipHx8298cWriteVcomOtpValue_right (value : Byte) {w : Board}
    (hid : (w.mem.hx8298c 0).idOk = 1) :
    ∃ es, chipHx8298cWriteVcomOtpValue 0 value w = .ok () (w.after 1 es) ∧
      .gpioSetOutputValue ttlGpioPinUdR false ∈ es :=
  ⟨_, by simp [chipHx8298cWriteVcomOtpValue, chipHx8298cWriteVcom, run_devChannel_zero, hid,
    hx8298cWriteVcom, setIcWriteStatus]; rfl, by simp⟩

/-- **An operation is isolated exactly on its side**: the gamma burns of the hi8394 reset
the left side whatever the channel is, and the hx8298c enables the right side's writing for
channel 0. -/
theorem isolated_iff (op : DriverOp) (c : Fin 4) (w : Board) :
    Isolated c (op.run (c : Nat)) w ↔ op.OnSide c w.mem := by
  constructor
  · intro h
    by_contra hside
    -- the event that is on the other side
    have hpin : ¬Own 0 (.gpioSetOutputValue ttlGpioPinUdR false) := fun hown =>
      absurd (hown _ List.mem_cons_self) (by decide)
    cases op with
    | hi8394WriteVcom _ => exact hside trivial
    | hi8394BurnVcom _ => exact hside trivial
    | hi8394BurnGamma burnFlag enableBurnVcom vcom a r g b =>
      obtain ⟨es, hrun, hreset⟩ := run_hx8394BurnGammaOtpValues_resets (c : Nat) burnFlag
        enableBurnVcom vcom a r g b w
      have hbad : ¬Own c (.mipiIcReset 0) := by
        intro hown
        have hleft := (icReset_side 0).symm.trans (hown _ List.mem_cons_self)
        have hright : sideOf c = .right := if_neg hside
        rw [hright] at hleft
        exact absurd hleft (by decide)
      exact not_isolated (by rw [DriverOp.run, run_bind, hrun]; rfl) hreset hbad h
    | hx8298cWriteVcom value =>
      obtain ⟨hzero, hid⟩ := not_or.mp hside
      obtain rfl := not_not.mp hzero
      obtain ⟨es, hrun, hmem⟩ := run_chipHx8298cWriteVcom_right value (not_not.mp hid)
      have hrun' : (DriverOp.hx8298cWriteVcom value).run 0 w = .ok () (w.after 0 es) := by
        rw [DriverOp.run, run_bind, hrun]
        rfl
      exact not_isolated hrun' hmem hpin h
    | hx8298cBurnVcom value =>
      obtain ⟨hzero, hid⟩ := not_or.mp hside
      obtain rfl := not_not.mp hzero
      obtain ⟨es, hrun, hmem⟩ := run_chipHx8298cWriteVcomOtpValue_right value (not_not.mp hid)
      exact not_isolated hrun hmem hpin h
  · intro h
    obtain ⟨a, w', es, hrun, hlog, hes, hmem⟩ := stays_run c op w h
    constructor
    · rw [hrun, final_ok, hlog, List.drop_left]
      exact hes
    · intro c' _
      rw [hrun, final_ok, show w'.mem = w.mem from hmem]
      exact ⟨rfl, rfl⟩

/-- A gamma burn of channel 2 pulses the reset pin of the left side. -/
theorem gammaBurn_not_isolated : ¬∀ (op : DriverOp) (c : Fin 4) (w : Board),
    Isolated c (op.run (c : Nat)) w := by
  intro h
  obtain ⟨es, hrun, hreset⟩ := run_hx8394BurnGammaOtpValues_resets 2 0 false 0 ⟨zeroed, 58⟩
    ⟨zeroed, 43⟩ ⟨zeroed, 42⟩ ⟨zeroed, 42⟩ ⟨fun _ => none, 0, [], Mem.boot⟩
  have hbad : ¬Own 2 (.mipiIcReset 0) := fun hown =>
    absurd (hown _ List.mem_cons_self) (by decide)
  have hrun' : (DriverOp.hi8394BurnGamma 0 false 0 ⟨zeroed, 58⟩ ⟨zeroed, 43⟩ ⟨zeroed, 42⟩
      ⟨zeroed, 42⟩).run 2 ⟨fun _ => none, 0, [], Mem.boot⟩ =
      .ok () (World.after ⟨fun _ => none, 0, [], Mem.boot⟩ 0 es) := by
    rw [DriverOp.run, run_bind, hrun]
    rfl
  exact not_isolated hrun' hreset hbad (h _ 2 _)

end PgClient.Icm
