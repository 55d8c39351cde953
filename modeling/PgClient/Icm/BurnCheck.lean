import PgClient.Icm.Hi8394
import PgClient.Icm.Hx8298c
import PgClient.Icm.Icn9706
import PgClient.Icm.Ili9806
import PgClient.Icm.Jd9367
import PgClient.Icm.Otm8019a

/-!
# The check after a VCOM burn — what its OK is worth

`check_vcom_otp_burn_ok` of the six drivers. The check is sound (`Driver.Sound`)
when OK means that the reads of this very call showed a higher burn count and
the VCOM asked for, and `*p_read_vcom` is the VCOM that they showed. The
drivers differ in how they miss that:

* hi8394, icn9706 — a read without an answer counts as a read of zeros;
* ili9806e — OK as well when the count is any other than expected;
* jd9367 — nothing is read, the cached values are compared with themselves;
* otm8019a — `*p_read_vcom` is the VCOM asked for, whatever was read.

`checkVcomOtpBurnOk_sound_iff` says for each of them when a call is sound.
-/

namespace PgClient.Icm

open DeviceLog

/-- The chip drivers, each with a check of its own. -/
inductive Driver
  | hi8394
  | icn9706
  | ili9806e
  | jd9367
  | otm8019a
  | hx8298c

/-- `check_vcom_otp_burn_ok` of the driver. -/
def Driver.checkVcomOtpBurnOk :
    Driver → Int → CInt → CInt → Bool → Call (EIcmError × Option CInt)
  | .hi8394 => chipHi8394BurnCheck.checkVcomOtpBurnOk
  | .icn9706 => chipIcn9706BurnCheck.checkVcomOtpBurnOk
  | .ili9806e => chipIli9806eBurnCheck.checkVcomOtpBurnOk
  | .jd9367 => chipJd9367BurnCheck.checkVcomOtpBurnOk
  | .otm8019a => chipOtm8019aCheckVcomOtpBurnOk
  | .hx8298c => chipHx8298cBurnCheck.checkVcomOtpBurnOk

/-! ## What the reads of a call showed -/

/-- The answer to the `k`-th read of a call, which was of this register. -/
def readOf (rs : List (Byte × Option Reply)) (k : Nat) (regAddr : Byte) : Option Reply :=
  match rs[k]? with
  | some (reg, reply) => if reg = regAddr then reply else none
  | none => none

/-- The burn count that the chip showed. The jd9367's is where its readers look
for it; the SPI chip shows none over MIPI. -/
def Driver.counterRead (d : Driver) (rs : List (Byte × Option Reply)) : Option CInt :=
  match d with
  | .hi8394 => (readOf rs 1 0xB6).map fun r => (hi8394OtpTimes (r.data 2)).setWidth 32
  | .icn9706 => (readOf rs 1 0xB6).map fun r => (r.data 2).setWidth 32
  | .ili9806e => (readOf rs 3 0xE8).map fun r => (ili9806OtpTimes (r.data 0)).setWidth 32
  | .jd9367 => (readOf rs 0 0x02).map fun r => (r.data 0).setWidth 32
  | .otm8019a => (readOf rs 1 0xF1).map fun r => otmOtpTimes (r.data 0)
  | .hx8298c => none

/-- The VCOM that the chip showed. -/
def Driver.vcomRead (d : Driver) (rs : List (Byte × Option Reply)) : Option CInt :=
  match d with
  | .hi8394 => (readOf rs 2 0xB6).map fun r => (r.data 0).setWidth 32
  | .icn9706 => (readOf rs 2 0xB6).map fun r => (r.data 0).setWidth 32
  | .ili9806e => (readOf rs 5 0xEA).map fun r => (r.data 0).setWidth 32
  | .jd9367 => do
    -- the OTP port: the high byte is read first
    let h ← readOf rs 1 0xED
    let l ← readOf rs 2 0xED
    some ((h.data 0 ++ l.data 0).setWidth 32)
  | .otm8019a => (readOf rs 2 0xD9).map fun r => (r.data 0).setWidth 32
  | .hx8298c => none

/-- The reads behind an OK: a count beyond the last one, and the VCOM. -/
def Driver.Shown (d : Driver) (vcomValue lastOtpTimes : CInt) (rs : List (Byte × Option Reply)) :
    Prop :=
  (∃ t, d.counterRead rs = some t ∧ lastOtpTimes.toInt < t.toNat) ∧ d.vcomRead rs = some vcomValue

/-- A call of the check is sound: OK was shown, and `*p_read_vcom` was read. -/
def Driver.Sound (d : Driver) (i : Fin 4) (vcomValue lastOtpTimes : CInt) (pReadVcom : Bool)
    (w : Board) : Prop :=
  match d.checkVcomOtpBurnOk (i : Nat) vcomValue lastOtpTimes pReadVcom w with
  | .error _ _ => True
  | .ok (err, read) w' =>
    let rs := (w'.log.drop w.log.length).filterMap regRead
    (err = .ok → d.Shown vcomValue lastOtpTimes rs) ∧
      (pReadVcom = true → err ≠ .readIdError → ∃ v, d.vcomRead rs = some v ∧ read = some v)

section Runs

variable {d : Driver} {i : Fin 4} {vcomValue lastOtpTimes : CInt} {pReadVcom : Bool} {w : Board}

/-- Soundness of a call that went past the id. -/
theorem sound_iff_of_run {err : EIcmError} {vcom : CInt} {m : Mem} {n : Nat} {es : List Event}
    {rs : List (Byte × Option Reply)}
    (hrun : d.checkVcomOtpBurnOk (i : Nat) vcomValue lastOtpTimes pReadVcom w =
      .ok (err, if pReadVcom then some vcom else none) ((w.withMem m).after n es))
    (hrs : es.filterMap regRead = rs) (hid : err ≠ .readIdError) :
    d.Sound i vcomValue lastOtpTimes pReadVcom w ↔
      (err = .ok → d.Shown vcomValue lastOtpTimes rs) ∧
        (pReadVcom = true → d.vcomRead rs = some vcom) := by
  unfold Driver.Sound
  -- what was read in the call is what its part of the log holds
  rw [hrun]
  simp only [World.after_log, World.withMem_log, List.drop_left, hrs]
  refine and_congr_right fun _ => ?_
  constructor
  · intro h hp
    obtain ⟨v, hv, hread⟩ := h hp hid
    rw [if_pos hp] at hread
    rw [hv, hread]
  · intro h hp _
    exact ⟨vcom, h hp, by rw [if_pos hp]⟩

/-- A call that stopped at the id promises nothing. -/
theorem sound_of_bad {w' : Board}
    (hrun : d.checkVcomOtpBurnOk (i : Nat) vcomValue lastOtpTimes pReadVcom w =
      .ok (.readIdError, none) w') : d.Sound i vcomValue lastOtpTimes pReadVcom w := by
  unfold Driver.Sound
  rw [hrun]
  dsimp only
  exact ⟨fun h => absurd h (by decide), fun _ h => absurd rfl h⟩

end Runs

/-! ## The common check -/

/-- What the common check returns for the count and the VCOM it has stored. -/
def BurnCheck.verdict (b : BurnCheck) (vcom otpTimes vcomValue lastOtpTimes : CInt) : EIcmError :=
  if otpTimes ≠ lastOtpTimes + 1 then b.timesError
  else if vcom ≠ vcomValue then b.valueError
  else .ok

section Common

variable {b : BurnCheck} {i : Fin 4} {w : Board} {idOk : Prop} {rs : List (Byte × Option Reply)}
  {vcom otpTimes : CInt}

/-- With the id accepted, the check's verdict is on the VCOM and the times as read. -/
theorem BurnCheck.Reads.run (h : b.Reads i w idOk rs vcom otpTimes) (hid : idOk)
    (vcomValue lastOtpTimes : CInt) (pReadVcom : Bool) :
    ∃ m n es, b.checkVcomOtpBurnOk (i : Nat) vcomValue lastOtpTimes pReadVcom w =
        .ok (b.verdict vcom otpTimes vcomValue lastOtpTimes,
          if pReadVcom then some vcom else none) ((w.withMem m).after n es) ∧
      es.filterMap regRead = rs := by
  obtain ⟨m, n, es, hcheck, hrs, hstored⟩ := h.passed hid
  have hne : ¬ (0 : Int) ≠ 0 := by simp
  refine ⟨m, n, es, ?_, hrs⟩
  unfold BurnCheck.checkVcomOtpBurnOk BurnCheck.verdict
  simp only [run_bind, hcheck, if_neg hne, run_devChannel, run_getMem, World.after_mem,
    World.withMem_mem, hstored]
  split_ifs <;> rfl

/-- Otherwise it is an id error, and nothing is handed out. -/
theorem BurnCheck.Reads.run_bad (h : b.Reads i w idOk rs vcom otpTimes) (hid : ¬ idOk)
    (vcomValue lastOtpTimes : CInt) (pReadVcom : Bool) :
    ∃ w', b.checkVcomOtpBurnOk (i : Nat) vcomValue lastOtpTimes pReadVcom w =
      .ok (.readIdError, none) w' := by
  obtain ⟨val, w', hval, hcheck⟩ := h.failed hid
  exact ⟨w', by simp only [BurnCheck.checkVcomOtpBurnOk, run_bind, hcheck, if_pos hval, run_pure]⟩

/-- Soundness of the common check comes down to its verdict, and to what the
reads of its `check_ok` showed. -/
theorem BurnCheck.Reads.sound_iff {d : Driver} (hd : d.checkVcomOtpBurnOk = b.checkVcomOtpBurnOk)
    (h : b.Reads i w idOk rs vcom otpTimes) (htimes : b.timesError ≠ .readIdError)
    (hvalue : b.valueError ≠ .readIdError) (vcomValue lastOtpTimes : CInt) (pReadVcom : Bool) :
    d.Sound i vcomValue lastOtpTimes pReadVcom w ↔
      (idOk → (b.verdict vcom otpTimes vcomValue lastOtpTimes = .ok →
          d.Shown vcomValue lastOtpTimes rs) ∧
        (pReadVcom = true → d.vcomRead rs = some vcom)) := by
  -- past the id the verdict is a function of what was read
  by_cases hid : idOk
  · obtain ⟨m, n, es, hrun, hrs⟩ := h.run hid vcomValue lastOtpTimes pReadVcom
    rw [← hd] at hrun
    have hpast : b.verdict vcom otpTimes vcomValue lastOtpTimes ≠ .readIdError := by
      unfold BurnCheck.verdict
      split_ifs <;> simp [htimes, hvalue]
    rw [sound_iff_of_run hrun hrs hpast]
    exact ⟨fun hs _ => hs, fun hs => hs hid⟩
  · obtain ⟨w', hrun⟩ := h.run_bad hid vcomValue lastOtpTimes pReadVcom
    rw [← hd] at hrun
    exact ⟨fun _ hid' => absurd hid' hid, fun _ => sound_of_bad hrun⟩

end Common

/-! ## When a call is sound -/

/-- The reads that a check goes by were answered: the VCOM's when it is handed
over, and both when they look like what is asked for. -/
def AnswersBehind (pReadVcom : Bool) (looksBurnt : Prop) (times vcom : Option Reply) : Prop :=
  (pReadVcom = true → vcom.isSome) ∧ (looksBurnt → times.isSome ∧ vcom.isSome)

/-- The condition, in the answers of the chip and, for the driver that asks
nothing, in what it has cached. -/
def Driver.SoundWhen (d : Driver) (i : Fin 4) (vcomValue lastOtpTimes : CInt) (pReadVcom : Bool)
    (w : Board) : Prop :=
  match d with
  | .hi8394 =>
    let times : CInt := (hi8394OtpTimes (replyByte (w.reply 1) 2)).setWidth 32
    let vcom : CInt := (replyByte (w.reply 2) 0).setWidth 32
    hi8394Id i w = (0x83, 0x94, 0x0F) →
      AnswersBehind pReadVcom (times = lastOtpTimes + 1 ∧ vcom = vcomValue) (w.reply 1) (w.reply 2)
  | .icn9706 =>
    let times : CInt := (replyByte (w.reply 1) 2).setWidth 32
    let vcom : CInt := (replyByte (w.reply 2) 0).setWidth 32
    icn9706Id i w = (0x9C, 0x9C, 0x9C) →
      AnswersBehind pReadVcom (times = lastOtpTimes + 1 ∧ vcom = vcomValue) (w.reply 1) (w.reply 2)
  | .ili9806e =>
    let times : CInt := (ili9806OtpTimes (replyByte (w.reply 3) 0)).setWidth 32
    let vcom : CInt := (replyByte (w.reply 5) 0).setWidth 32
    ili9806eId i w = (0x98, 0x06, 0x04) →
      AnswersBehind pReadVcom (times = lastOtpTimes + 1 → vcom = vcomValue) (w.reply 3)
        (w.reply 5) ∧
      -- any other count is let through
      (times ≠ lastOtpTimes + 1 → lastOtpTimes.toInt < times.toNat ∧ vcom = vcomValue)
  | .jd9367 => pReadVcom = false ∧ (w.mem.jd9367 i).vcom1OtpTimes ≠ lastOtpTimes + 1
  | .otm8019a =>
    let times := otmOtpTimes (filled (w.reply 1) 1 otmData 0)
    let shown := ∃ r, w.reply 2 = some r ∧ (r.data 0).setWidth 32 = vcomValue
    otmIdOk (filled (w.reply 0) 5 zeroed) →
      (pReadVcom = true → shown) ∧
      (lastOtpTimes < times → otmVcom (w.reply 2) = vcomValue → (w.reply 1).isSome ∧ shown)
  | .hx8298c => True

/-- A stored byte was shown exactly when its read was answered. -/
theorem map_eq_replyByte {reply : Option Reply} {k : Nat} {f : Byte → CInt} :
    (reply.map fun r => f (r.data k)) = some (f (replyByte reply k)) ↔ reply.isSome := by
  cases reply <;> simp [replyByte]

/-- The count expected is beyond the last one, unless that is the largest `int`. -/
theorem lt_of_eq_add_one {t : CInt} (last : CInt) (ht : t.toNat < 256) (h : t = last + 1) :
    last.toInt < t.toNat := by
  have hlt := last.isLt
  subst h
  rw [BitVec.toNat_add] at ht ⊢
  rw [BitVec.toInt_eq_toNat_cond]
  split_ifs <;> simp at ht ⊢ <;> omega

/-- A byte is below 256 in an int too. -/
theorem toNat_byte (b : Byte) : (b.setWidth 32 : CInt).toNat < 256 := by
  rw [BitVec.toNat_setWidth_of_le (by decide)]
  exact b.isLt

/-- What a count and a VCOM read as two bytes show. -/
theorem shown_iff {d : Driver} {rs : List (Byte × Option Reply)} {times vcom : Option Reply}
    {k : Nat} {f : Byte → Byte}
    (hcounter : d.counterRead rs = times.map fun r => (f (r.data k)).setWidth 32)
    (hvcom : d.vcomRead rs = vcom.map fun r => (r.data 0).setWidth 32)
    (vcomValue lastOtpTimes : CInt) :
    d.Shown vcomValue lastOtpTimes rs ↔
      -- both reads have to be answered
      (times.isSome ∧ lastOtpTimes.toInt < ((f (replyByte times k)).setWidth 32 : CInt).toNat) ∧
        vcom.isSome ∧ (replyByte vcom 0).setWidth 32 = vcomValue := by
  unfold Driver.Shown
  rw [hcounter, hvcom]
  cases times <;> cases vcom <;> simp [replyByte]

section Drivers

variable (i : Fin 4) (vcomValue lastOtpTimes : CInt) (pReadVcom : Bool) (w : Board)

/-- The two drivers that report both mismatches. -/
theorem sound_iff_strict {d : Driver} {b : BurnCheck} {idOk : Prop}
    {rs : List (Byte × Option Reply)} {times vcom : Option Reply} {k : Nat} {f : Byte → Byte}
    (hd : d.checkVcomOtpBurnOk = b.checkVcomOtpBurnOk)
    (h : b.Reads i w idOk rs ((replyByte vcom 0).setWidth 32)
      ((f (replyByte times k)).setWidth 32))
    (htimes : b.timesError = .vcomTimesNotChange) (hvalue : b.valueError = .vcomValueNotChange)
    (hcounter : d.counterRead rs = times.map fun r => (f (r.data k)).setWidth 32)
    (hvcom : d.vcomRead rs = vcom.map fun r => (r.data 0).setWidth 32) :
    d.Sound i vcomValue lastOtpTimes pReadVcom w ↔
      (idOk → AnswersBehind pReadVcom
        ((f (replyByte times k)).setWidth 32 = lastOtpTimes + 1 ∧
          (replyByte vcom 0).setWidth 32 = vcomValue) times vcom) := by
  rw [h.sound_iff hd (by simp [htimes]) (by simp [hvalue]), shown_iff hcounter hvcom, hvcom,
    map_eq_replyByte (f := fun b => b.setWidth 32)]
  refine imp_congr_right fun _ => ?_
  unfold BurnCheck.verdict AnswersBehind
  rw [htimes, hvalue]
  have hlt := lt_of_eq_add_one lastOtpTimes (toNat_byte (f (replyByte times k)))
  generalize ((f (replyByte times k)).setWidth 32 : CInt) = t at hlt ⊢
  generalize lastOtpTimes + 1 = next at hlt ⊢
  split_ifs with ht hv
  · -- the count is not the next one
    simp [ht]
  · -- the VCOM is not the one asked for
    simp [hv]
  · -- reported as a good burn
    simp only [not_not] at ht hv
    subst ht
    simp [hv, hlt, and_comm]

/-- The hi8394 uses the common check. -/
theorem hi8394_sound_iff :
    Driver.hi8394.Sound i vcomValue lastOtpTimes pReadVcom w ↔
      Driver.hi8394.SoundWhen i vcomValue lastOtpTimes pReadVcom w :=
  sound_iff_strict i vcomValue lastOtpTimes pReadVcom w rfl (chipHi8394_reads i w) rfl rfl rfl rfl

/-- The icn9706 uses the common check. -/
theorem icn9706_sound_iff :
    Driver.icn9706.Sound i vcomValue lastOtpTimes pReadVcom w ↔
      Driver.icn9706.SoundWhen i vcomValue lastOtpTimes pReadVcom w :=
  sound_iff_strict (k := 2) (f := fun b => b) i vcomValue lastOtpTimes pReadVcom w rfl
    (chipIcn9706_reads i w) rfl rfl rfl rfl

/-- The ili9806e uses the common check. -/
theorem ili9806e_sound_iff :
    Driver.ili9806e.Sound i vcomValue lastOtpTimes pReadVcom w ↔
      Driver.ili9806e.SoundWhen i vcomValue lastOtpTimes pReadVcom w := by
  have hlt := lt_of_eq_add_one lastOtpTimes
    (toNat_byte (ili9806OtpTimes (replyByte (w.reply 3) 0)))
  rw [(chipIli9806e_reads i w).sound_iff rfl (by decide) (by decide),
    @shown_iff Driver.ili9806e _ (w.reply 3) (w.reply 5) 0 ili9806OtpTimes rfl rfl]
  unfold Driver.SoundWhen
  refine imp_congr_right fun _ => ?_
  -- of the registers read, the VCOM is the sixth
  have hvcom : Driver.ili9806e.vcomRead
      [(0x00, w.reply 0), (0x01, w.reply 1), (0x02, w.reply 2), (0xE8, w.reply 3),
        (0xE8, w.reply 4), (0xEA, w.reply 5), (0xE8, w.reply 6), (0xEA, w.reply 7)] =
      some ((replyByte (w.reply 5) 0).setWidth 32) ↔ (w.reply 5).isSome :=
    map_eq_replyByte (f := fun b => b.setWidth 32)
  rw [hvcom]
  unfold BurnCheck.verdict AnswersBehind
  generalize ((ili9806OtpTimes (replyByte (w.reply 3) 0)).setWidth 32 : CInt) = t at hlt ⊢
  generalize lastOtpTimes + 1 = next at hlt ⊢
  -- not burnt, another VCOM burnt, and the one asked for
  split_ifs with ht hv
  · simp [chipIli9806eBurnCheck, ht]
    tauto
  · simp only [not_not] at ht
    simp [chipIli9806eBurnCheck, hv, ht]
  · simp only [not_not] at ht hv
    subst ht
    simp [hv, hlt, and_comm]

/-- The jd9367, whose id is kept from an earlier read. -/
theorem jd9367_sound_iff :
    Driver.jd9367.Sound i vcomValue lastOtpTimes pReadVcom w ↔
      Driver.jd9367.SoundWhen i vcomValue lastOtpTimes pReadVcom w := by
  have hreads : chipJd9367BurnCheck.Reads i w True [] (w.mem.jd9367 i).vcom1
      (w.mem.jd9367 i).vcom1OtpTimes :=
    ⟨fun _ => ⟨w.mem, 0, [], by simp [chipJd9367BurnCheck, chipJd9367CheckChipOk], rfl, rfl⟩,
      fun h => absurd trivial h⟩
  rw [hreads.sound_iff rfl (by decide) (by decide)]
  -- the registers are not read at all
  have hcounter : ¬ Driver.jd9367.Shown vcomValue lastOtpTimes [] := by
    rintro ⟨⟨t, ht, -⟩, -⟩
    cases ht
  have hvcom : ¬ Driver.jd9367.vcomRead [] = some (w.mem.jd9367 i).vcom1 := nofun
  unfold BurnCheck.verdict Driver.SoundWhen
  generalize lastOtpTimes + 1 = next
  split_ifs with ht hv
  · simp [chipJd9367BurnCheck, hvcom, ht]
  · simp only [not_not] at ht
    simp [chipJd9367BurnCheck, hcounter, ht]
  · simp only [not_not] at ht
    simp [hcounter, ht]

/-- The four bits count to four at most. -/
theorem otmOtpTimes_lt (data0 : Byte) : (otmOtpTimes data0).toNat < 5 := by
  unfold otmOtpTimes
  split_ifs <;> decide

/-- A count beyond the last one as an unsigned number is so as a signed one. -/
theorem toInt_lt_of_lt {t last : CInt} (ht : t.toNat < 5) (h : last < t) :
    last.toInt < t.toNat := by
  have hlt : last.toNat < t.toNat := h
  rw [BitVec.toInt_eq_toNat_of_lt (by omega)]
  omega

/-- The count behind a verdict of OK was shown when its read was answered. -/
theorem otm8019a_counter_iff {times : Option Reply} {last : CInt}
    (h : last < otmOtpTimes (filled times 1 otmData 0)) :
    (∃ t, (times.map fun r => otmOtpTimes (r.data 0)) = some t ∧ last.toInt < t.toNat) ↔
      times.isSome := by
  cases times with
  | none => simp
  | some r =>
    -- the count has at most four marks, so signed and unsigned agree
    have hbeyond := toInt_lt_of_lt (otmOtpTimes_lt _) h
    exact ⟨fun _ => rfl, fun _ => ⟨_, rfl, hbeyond⟩⟩

/-- The otm8019a, which reads no times. -/
theorem otm8019a_sound_iff :
    Driver.otm8019a.Sound i vcomValue lastOtpTimes pReadVcom w ↔
      Driver.otm8019a.SoundWhen i vcomValue lastOtpTimes pReadVcom w := by
  by_cases hid : otmIdOk (filled (w.reply 0) 5 zeroed)
  · obtain ⟨m, es, hrun, hrs⟩ := run_otm8019aCheck i vcomValue lastOtpTimes pReadVcom w hid
    have hpast : otmVerdict vcomValue lastOtpTimes (w.reply 1) (w.reply 2) ≠ .readIdError := by
      unfold otmVerdict
      split_ifs <;> decide
    rw [sound_iff_of_run (d := .otm8019a) hrun hrs hpast]
    have hvcom : Driver.otm8019a.vcomRead [(0xA1, w.reply 0), (0xF1, w.reply 1), (0xD9, w.reply 2)] =
        some vcomValue ↔ ∃ r, w.reply 2 = some r ∧ (r.data 0).setWidth 32 = vcomValue :=
      Option.map_eq_some_iff
    have hcounter : Driver.otm8019a.counterRead
        [(0xA1, w.reply 0), (0xF1, w.reply 1), (0xD9, w.reply 2)] =
        (w.reply 1).map fun r => otmOtpTimes (r.data 0) := rfl
    unfold Driver.SoundWhen Driver.Shown otmVerdict
    rw [hvcom, hcounter]
    split_ifs with ht hv
    · simp [hid, BitVec.not_lt.mpr ht]
    · simp [hid, hv]
    · rw [BitVec.not_le] at ht
      simp only [not_not] at hv
      -- a higher count and the VCOM asked for: `EIcmError` is ok
      rw [otm8019a_counter_iff ht]
      simp [hid, hv, ht, and_comm]
  · obtain ⟨w', hrun⟩ := run_otm8019aCheck_bad i vcomValue lastOtpTimes pReadVcom w hid
    exact ⟨fun _ hid' => absurd hid' hid, fun _ => sound_of_bad (d := .otm8019a) hrun⟩

/-- The hx8298c checks nothing and reports no success. -/
theorem hx8298c_sound : Driver.hx8298c.Sound i vcomValue lastOtpTimes pReadVcom w := by
  obtain ⟨w', hrun⟩ := run_chipHx8298cCheckChipOk i w
  unfold Driver.Sound Driver.checkVcomOtpBurnOk BurnCheck.checkVcomOtpBurnOk
  simp only [run_bind, chipHx8298cBurnCheck, hrun]

end Drivers

/-- **What an OK is worth**, for every driver, state, chip and call. -/
theorem checkVcomOtpBurnOk_sound_iff (d : Driver) (i : Fin 4) (vcomValue lastOtpTimes : CInt)
    (pReadVcom : Bool) (w : Board) :
    d.Sound i vcomValue lastOtpTimes pReadVcom w ↔
      d.SoundWhen i vcomValue lastOtpTimes pReadVcom w := by
  cases d with
  | hi8394 => exact hi8394_sound_iff i vcomValue lastOtpTimes pReadVcom w
  | icn9706 => exact icn9706_sound_iff i vcomValue lastOtpTimes pReadVcom w
  | ili9806e => exact ili9806e_sound_iff i vcomValue lastOtpTimes pReadVcom w
  | jd9367 => exact jd9367_sound_iff i vcomValue lastOtpTimes pReadVcom w
  | otm8019a => exact otm8019a_sound_iff i vcomValue lastOtpTimes pReadVcom w
  | hx8298c => exact iff_of_true (hx8298c_sound i vcomValue lastOtpTimes pReadVcom w) trivial

/-- An ili9806e that was never burnt: its id, no count, the VCOM it is shipped
with. -/
def unburnt : Board where
  answers n := replyOf [[0x98, 0x06, 0x04, 0x00, 0x00, 0x40, 0x00, 0x40].getD n 0]
  asked := 0
  log := []
  mem := .boot

/-- The burn of the VCOM 0x50 after no burns is said to be ok there. -/
theorem ili9806e_unburnt_ok : ¬ Driver.ili9806e.Sound 0 0x50 0 false unburnt := by
  rw [ili9806e_sound_iff]
  intro h
  have hcount := (h (by decide)).2 (by decide)
  exact absurd hcount.1 (by decide)

end PgClient.Icm
