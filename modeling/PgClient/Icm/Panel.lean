import PgClient.Lib.DeviceLog
import PgClient.Spi.VirtualSpi
import PgClient.Util.Crc32

/-!
# The panel, the chip drivers' memory, and what drivers do

The drivers of `icm/chips` talk to the chip of a panel through the MIPI
bridge: `mipi2828Write2IC` sends a register, `ReadModReg` asks for one. The
chip is arbitrary: it may answer a read with anything, or not at all.

A driver is a program of `Call`, over the memory that outlives a call: the
private tables of the drivers, the results of the flick search, the chip in
use. A fault stands for an access outside an object.
-/

namespace PgClient.Icm

open DeviceLog

/-- `int` and `unsigned int`. -/
abbrev CInt := BitVec 32

/-- What the bridge hands over when the chip answers: the length it reports and
the bytes. -/
structure Reply where
  readBytes : BitVec 16
  data : Nat → Byte

/-- An answer of these bytes. -/
def replyOf (bs : List Byte) : Option Reply :=
  some ⟨BitVec.ofNat 16 bs.length, fun i => bs.getD i 0⟩

/-- What the client does to the outside, in the source's own calls. -/
inductive Event
  | mipi2828Write2IC (channel : Int) (regAddr : Byte) (pData : List Byte)
  | readModReg (channel type regAddr : Byte) (len : Nat) (reply : Option Reply)
  | setMipi2828HighSpeedMode (channel : Int) (bHSMode : Bool)
  | mipiIcReset (channel : Int)
  | vspiCtrlSetMode (channel : Int) (mode : Spi.VspiMode)
  | vspiCtrlSetByteFormat (channel : Int) (byteFormat : CInt)
  | vspiCtrlSetCsState (channel : Int) (state : Bool)
  | vspiCtrlWrite (channel : Int) (value : Byte)
  | vspiCtrlRead (channel : Int) (reply : Option Reply)
  | msleep (msecond : Nat)
  | clientPgShutON (enable : Int) (pModelName : Option String) (rest : List Int)
  | clientSendOtp (channel otpResult maxOtpTimes : Int)
  | clientSendIdOtpEnd (channel result maxOtpTimes : Int)
  | clientEndGammaOtpInfo (channel checkError : Int)
  | fpgaShowRgb (r g b : Byte)
  | gpioSetOutputValue (gpioNo : Nat) (value : Bool)
  /-- An entry of a table of four is accessed that it does not have. -/
  | outOfTable (index : Int)
  /-- So many bytes are stored behind a variable. -/
  | storeBehind (len : Nat)

/-- An access inside of a table. -/
def Event.InTable : Event → Prop
  | .outOfTable _ => False
  | _ => True

/-- An access inside of an object. -/
def Event.InObject : Event → Prop
  | .outOfTable _ => False
  | .storeBehind _ => False
  | _ => True

/-- A subscript inside the object is inside its table. -/
theorem Event.InObject.inTable {e : Event} (h : e.InObject) : e.InTable := by
  cases e <;> first | exact trivial | exact h

/-- `e_icm_error`. -/
inductive EIcmError
  | ok
  | readIdError
  | vcomTimesNotChange
  | vcomValueNotChange
  deriving DecidableEq

/-! ## Memory -/

/-- The private info of the ili9806e and jd9367 drivers, and the start of the
hi8394's and the icn9706's. -/
structure ChipInfo where
  id : Byte × Byte × Byte
  idOk : Byte
  vcom1 : CInt
  vcom1OtpTimes : CInt
  vcom2 : CInt
  vcom2OtpTimes : CInt
  deriving DecidableEq

/-- `hx_8394_info_t`: the gamma tables as they are used, the last byte of the
second and third row never is. -/
structure Hx8394Info extends ChipInfo where
  analogGammaRegData : Vector Byte 58
  d3gR : Vector Byte 43
  d3gG : Vector Byte 42
  d3gB : Vector Byte 42
  deriving DecidableEq

/-- `icn_9706_info_t`: a row of digital gamma for each colour. -/
structure Icn9706Info extends ChipInfo where
  analogGammaRegData : Vector Byte 38
  digitalGammaRegData : Vector (Vector Byte 26) 3
  deriving DecidableEq

/-- `otm_8019a_info_t`. -/
structure Otm8019aInfo where
  id : Vector Byte 5
  idOk : Byte
  vcom : CInt
  vcomOtpTimes : CInt

/-- `hx8298c_info_t`. -/
structure Hx8298cInfo where
  id : Byte
  idOk : Byte
  vcom : CInt
  vcomOtpTimes : CInt

/-- The chips `ic_mgr_init` registers. -/
inductive Chip
  | default
  | hi8394
  | icn9706
  | ili9806e
  | jd9367
  | otm8019a
  | hx8298c
  deriving DecidableEq

/-- The static data that the modelled functions use. `stack n k` is what the
`k`-th byte of an uninitialised local holds after `n` events. -/
structure Mem where
  index : Chip
  hx8394 : Fin 4 → Hx8394Info
  icn9706 : Fin 4 → Icn9706Info
  ili9806e : Fin 4 → ChipInfo
  jd9367 : Fin 4 → ChipInfo
  otm8019a : Fin 4 → Otm8019aInfo
  hx8298c : Fin 4 → Hx8298cInfo
  sFindVcom : Fin 4 → CInt
  sFindFlick : Fin 4 → CInt
  pgCurPtnId : Int
  curModuleName : String
  stack : Nat → Nat → Byte

/-- The static data at the start, before any chip is chosen. -/
def Mem.boot : Mem where
  index := .default
  hx8394 _ := ⟨⟨(0, 0, 0), 0, 0, 0, 0, 0⟩, .replicate 58 0, .replicate 43 0, .replicate 42 0,
    .replicate 42 0⟩
  icn9706 _ := ⟨⟨(0, 0, 0), 0, 0, 0, 0, 0⟩, .replicate 38 0, .replicate 3 (.replicate 26 0)⟩
  ili9806e _ := ⟨(0, 0, 0), 0, 0, 0, 0, 0⟩
  jd9367 _ := ⟨(0, 0, 0), 0, 0, 0, 0, 0⟩
  otm8019a _ := ⟨.replicate 5 0, 0, 0, 0⟩
  hx8298c _ := ⟨0, 0, 0, 0⟩
  sFindVcom _ := 0
  sFindFlick _ := 0
  pgCurPtnId := 0
  curModuleName := ""
  stack _ _ := 0

/-- The client with its panel. -/
abbrev Board := World Event (Option Reply) Mem

/-- A call into the client. -/
abbrev Call := Prog Event (Option Reply) Mem

/-! ## The calls below the drivers -/

/-- `NULL, 0` is the empty list. -/
def mipi2828Write2IC (channel : Int) (regAddr : Byte) (pData : List Byte) : Call Unit :=
  emit (.mipi2828Write2IC channel regAddr pData)

def setMipi2828HighSpeedMode (channel : Int) (bHSMode : Bool) : Call Unit :=
  emit (.setMipi2828HighSpeedMode channel bHSMode)

def mipiIcReset (channel : Int) : Call Unit := emit (.mipiIcReset channel)

def gpioSetOutputValue (gpioNo : Nat) (value : Bool) : Call Unit :=
  emit (.gpioSetOutputValue gpioNo value)

/-- `_msleep`, and `usleep` in milliseconds. -/
def msleep (msecond : Nat) : Call Unit := emit (.msleep msecond)

/-- `client_pg_shutON`, with the arguments behind the name as they are passed. -/
def clientPgShutON (enable : Int) (pModelName : Option String) (rest : List Int) : Call Unit :=
  emit (.clientPgShutON enable pModelName rest)

/-- What a buffer of the caller holds after a read of `len` bytes: an answer
fills it, three failed attempts leave it alone. -/
def filled (reply : Option Reply) (len : Nat) (pRead : Nat → Byte) : Nat → Byte :=
  match reply with
  | some r => fun i => if i < len then r.data i else pRead i
  | none => pRead

/-- What `ReadModReg` returns. -/
def replyLen : Option Reply → Int
  | some r => r.readBytes.toNat
  | none => 0

/-- `ReadModReg`: its result and the buffer; the channel is an `unsigned char`. -/
def readModReg (channel : Int) (type regAddr : Byte) (len : Nat) (pRead : Nat → Byte) :
    Call (Int × (Nat → Byte)) := do
  let reply ← ask (.readModReg (BitVec.ofInt 8 channel) type regAddr len)
  pure (replyLen reply, filled reply len pRead)

/-- A zeroed local buffer. -/
def zeroed : Nat → Byte := fun _ => 0

/-- An uninitialised local buffer. -/
def uninit : Call (Nat → Byte) := fun w => .ok (w.mem.stack w.log.length) w

/-- The subscript of a table with an entry for every channel; outside of it the access faults. -/
def devChannel (channel : Int) : Call (Fin 4) :=
  if h : 0 ≤ channel ∧ channel < 4 then pure ⟨channel.toNat, by omega⟩
  else do
    emit (.outOfTable channel)
    fault

/-- A pointer: null, to an object with this value, or an address of no object. -/
inductive CPtr (α : Type)
  | null
  | obj (a : α)
  | wild

/-- An integer where a pointer is expected. -/
def CPtr.ofInt {α : Type} (n : Int) : CPtr α := if n = 0 then .null else .wild

/-- `*p`. -/
def CPtr.deref {α : Type} : CPtr α → Call α
  | .obj a => pure a
  | _ => fault

/-! ## Buffers -/

/-- A buffer and the length that goes with it. -/
structure Buf where
  data : Nat → Byte
  len : Int

/-- The first `n` bytes behind a pointer. -/
def bytes (p : Nat → Byte) (n : Nat) : List Byte := (List.range n).map p

/-- `memcpy` of bytes to the start of a buffer. -/
def copyIn (table : List Byte) (p : Nat → Byte) : Nat → Byte := fun i => table.getD i (p i)

/-- A getter's copy of a table: the bytes, and the length set to theirs. -/
def Buf.fill (table : List Byte) (b : Buf) : Buf := ⟨copyIn table b.data, table.length⟩

/-- A table as the buffer it is passed as. -/
def ptr {n : Nat} (v : Vector Byte n) : Nat → Byte := fun i => v.toList.getD i 0

/-- The bytes behind a pointer as a table. -/
def table (n : Nat) (p : Nat → Byte) : Vector Byte n := Vector.ofFn fun i => p i

/-- A table copied in is read back. -/
theorem bytes_copyIn (table : List Byte) (p : Nat → Byte) :
    bytes (copyIn table p) table.length = table := by
  apply List.ext_getElem
  · simp [bytes]
  · intro i h₁ h₂
    simp [bytes, copyIn, h₂]

/-- A buffer that a call has filled is read back. -/
theorem bytes_fill {n : Nat} (v : Vector Byte n) (b : Buf) :
    bytes (b.fill v.toList).data n = v.toList := by
  simpa [Buf.fill] using bytes_copyIn v.toList b.data

/-- A number of `n` bits is an `int`'s value when it is its low bits, and the
rest is empty. -/
theorem toNat_eq_toInt_iff {n : Nat} (hn : n < 32) (b : BitVec n) (v : CInt) :
    (b.toNat : Int) = v.toInt ↔ (0 ≤ v.toInt ∧ v.toInt < 2 ^ n) ∧ b = v.setWidth n := by
  have hb : (b.toNat : Int) < 2 ^ n := by exact_mod_cast b.isLt
  have hpow : 2 ^ n ≤ 2 ^ 31 := Nat.pow_le_pow_right (by decide) (by omega)
  constructor
  · intro h
    refine ⟨by omega, ?_⟩
    have hnat : v.toNat = b.toNat := by
      -- a byte is small, so an equal `int` is not negative
      rw [BitVec.toInt_eq_toNat_cond] at h
      split_ifs at h <;> omega
    apply BitVec.eq_of_toNat_eq
    rw [BitVec.toNat_setWidth, hnat, Nat.mod_eq_of_lt b.isLt]
  · rintro ⟨⟨hpos, hlt⟩, rfl⟩
    have hnat : (v.toNat : Int) = v.toInt := by
      -- and a value in the range of the byte is its own low bits
      rw [BitVec.toInt_eq_toNat_cond] at hpos ⊢
      split_ifs at hpos ⊢ with hmsb
      · rfl
      · omega
    rw [BitVec.toNat_setWidth, Nat.mod_eq_of_lt (by exact_mod_cast hnat ▸ hlt), hnat]

/-! ## The check after a burn -/

/-- What the `check_vcom_otp_burn_ok` functions differ in: the `check_ok` that
reads the chip into the private info, the VCOM and the burn count kept there,
and what each mismatch returns. -/
structure BurnCheck where
  checkOk : Int → Call Int
  stored : Mem → Fin 4 → CInt × CInt
  timesError : EIcmError
  valueError : EIcmError

/-- `check_vcom_otp_burn_ok`: the result, and `*p_read_vcom` when it is set. -/
def BurnCheck.checkVcomOtpBurnOk (b : BurnCheck) (channel : Int) (vcomValue lastOtpTimes : CInt)
    (pReadVcom : Bool) : Call (EIcmError × Option CInt) := do
  let val ← b.checkOk channel
  if val ≠ 0 then pure (.readIdError, none)
  else
    let i ← devChannel channel
    -- both were stored by `check_ok` in this call
    let m ← getMem
    let vcom := (b.stored m i).1
    let otpTimes := (b.stored m i).2
    let read := if pReadVcom then some vcom else none
    if otpTimes ≠ lastOtpTimes + 1 then pure (b.timesError, read)
    else if vcom ≠ vcomValue then pure (b.valueError, read)
    else pure (.ok, read)

/-! ## Their runs -/

/-- The first byte of an answer, 0 without one. -/
def replyByte (reply : Option Reply) (i : Nat) : Byte := (reply.map fun r => r.data i).getD 0

/-- What a reply brings into a buffer of zeros. -/
theorem filled_zeroed {reply : Option Reply} {len i : Nat} (hi : i < len) :
    filled reply len zeroed i = replyByte reply i := by
  cases reply with
  | none => rfl
  | some r => simp [filled, replyByte, hi]

section Runs

variable (channel : Int) (type regAddr : Byte) (w : Board)

@[simp] theorem run_mipi2828Write2IC (pData : List Byte) :
    mipi2828Write2IC channel regAddr pData w =
      .ok () (w.after 0 [.mipi2828Write2IC channel regAddr pData]) := rfl

@[simp] theorem run_readModReg (len : Nat) (pRead : Nat → Byte) :
    readModReg channel type regAddr len pRead w =
      .ok (replyLen (w.reply 0), filled (w.reply 0) len pRead)
        (w.after 1 [.readModReg (BitVec.ofInt 8 channel) type regAddr len (w.reply 0)]) := rfl

@[simp] theorem run_setMipi2828HighSpeedMode (bHSMode : Bool) :
    setMipi2828HighSpeedMode channel bHSMode w =
      .ok () (w.after 0 [.setMipi2828HighSpeedMode channel bHSMode]) := rfl

@[simp] theorem run_mipiIcReset :
    mipiIcReset channel w = .ok () (w.after 0 [.mipiIcReset channel]) := rfl

@[simp] theorem run_gpioSetOutputValue (gpioNo : Nat) (value : Bool) :
    gpioSetOutputValue gpioNo value w = .ok () (w.after 0 [.gpioSetOutputValue gpioNo value]) := rfl

@[simp] theorem run_msleep (msecond : Nat) : msleep msecond w = .ok () (w.after 0 [.msleep msecond]) :=
  rfl

@[simp] theorem run_clientPgShutON (enable : Int) (pModelName : Option String) (rest : List Int) :
    clientPgShutON enable pModelName rest w =
      .ok () (w.after 0 [.clientPgShutON enable pModelName rest]) := rfl

@[simp] theorem run_uninit : uninit w = .ok (w.mem.stack w.log.length) w := rfl

/-- The channels of the panel are subscripts. -/
@[simp] theorem run_devChannel (i : Fin 4) : devChannel (i : Nat) w = .ok i w := by
  unfold devChannel
  rw [dif_pos (by omega)]
  rfl

end Runs

/-! ## What a call reads -/

/-- The register and the answer, of an event that is a read over MIPI. -/
def regRead : Event → Option (Byte × Option Reply)
  | .readModReg _ _ regAddr _ reply => some (regAddr, reply)
  | _ => none

/-- A wrong id is wrong in one of its bytes. -/
theorem id_ne {id good : Byte × Byte × Byte} (h : id ≠ good) :
    id.1 ≠ good.1 ∨ id.2.1 ≠ good.2.1 ∨ id.2.2 ≠ good.2.2 := by
  by_contra hall
  push Not at hall
  exact h (Prod.ext hall.1 (Prod.ext hall.2.1 hall.2.2))

/-- What a `check_ok` does on a channel: with a good id it makes the reads `rs`
and stores `vcom` and `otpTimes`, otherwise it says so. -/
structure BurnCheck.Reads (b : BurnCheck) (i : Fin 4) (w : Board) (idOk : Prop)
    (rs : List (Byte × Option Reply)) (vcom otpTimes : CInt) : Prop where
  passed : idOk → ∃ m n es, b.checkOk (i : Nat) w = .ok 0 ((w.withMem m).after n es) ∧
    es.filterMap regRead = rs ∧ b.stored m i = (vcom, otpTimes)
  failed : ¬ idOk → ∃ val w', val ≠ 0 ∧ b.checkOk (i : Nat) w = .ok val w'

end PgClient.Icm
