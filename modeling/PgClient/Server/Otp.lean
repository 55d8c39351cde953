import PgClient.Icm.Manager

/-!
# The OTP messages — read, burn, read again

`SERVER2CLI_MSG_OTP` and `SERVER2CLI_MSG_WRITE_ID_OTP_INFO` of `msgProc`, with
`ENABLE_OTP_TESE_MODE` off. Both read the item from the one-time memory of a
jd9367, burn when it is not what was asked for, and compare again
(`otpProc`).

* `run_otpProc_burn` and the others — what the log of a message shows, for
  every chip.
* `otpMsg_sound_iff` — the burn is always within bounds; a result OK is worth
  nothing when the compared bytes were never read, or were cut off the value
  asked for.
* `not_burnIdEndToEnd` — the burn of an id does not get to the jd9367.
-/

namespace PgClient.Server

open DeviceLog Icm

/-! ## The handlers -/

/-- `E_ERROR_OK` and the results of a burn. -/
def eErrorOk : Int := 0
def eErrorOtpTimesEnd : Int := -1
def eErrorOtpTimesNotChange : Int := -2
def eErrorOtpDataWriteFailed : Int := -3

/-- The handler's variables after a read: zeros that the reader may have left
alone. -/
def otpVars (item : OtpItem) (data : Option (List Byte)) : List Byte :=
  data.getD (List.replicate item.len 0)

/-- The check of the burn, from the counts and bytes before and after. -/
def otpCheckError (oldOtpTimes newOtpTimes : Byte) (want got : List Byte) : Int :=
  if newOtpTimes ≤ oldOtpTimes then eErrorOtpTimesNotChange
  else if want ≠ got then eErrorOtpDataWriteFailed
  else eErrorOk

/-- Both handlers, from the read on; `want` are the bytes asked for. -/
def otpProc (item : OtpItem) (channel maxOtpTimes : Int) (want : List Byte) (burn : Call Unit)
    (send : Int → Call Unit) (finish : Call Unit) : Call Unit := do
  let old ← qcOtpDataRead item channel
  if otpVars item old.2 ≠ want then
    if maxOtpTimes ≤ old.1.toNat then send eErrorOtpTimesEnd
    else do
      burn
      let new ← qcOtpDataRead item channel
      send (otpCheckError old.1 new.1 want (otpVars item new.2))
  else send eErrorOk
  finish

/-- `SERVER2CLI_MSG_OTP`; a field that is not sent is `none`. -/
structure MsgOtp where
  channel : CInt
  vcom : Option CInt
  maxVcomOtpTimes : Option CInt

def MsgOtp.vcomValue (msg : MsgOtp) : CInt := msg.vcom.getD 0
def MsgOtp.maxOtpTimes (msg : MsgOtp) : CInt := msg.maxVcomOtpTimes.getD 3

/-- `vcom_h` and `vcom_l`. -/
def vcomBytes (vcom : CInt) : List Byte := [(vcom.sshiftRight 8).setWidth 8, vcom.setWidth 8]

/-- The burn of `SERVER2CLI_MSG_OTP`. -/
def burnVcom (channel : Int) (vcom : CInt) : Call Unit := do
  let m ← getMem
  let _ ← qcOtpVcom channel ((vcom.sshiftRight 8).setWidth 8) (vcom.setWidth 8) m.pgCurPtnId
  pure ()

def server2cliMsgOtp (msg : MsgOtp) : Call Unit :=
  otpProc vcomItem msg.channel.toInt msg.maxOtpTimes.toInt (vcomBytes msg.vcomValue)
    (burnVcom msg.channel.toInt msg.vcomValue)
    (fun result => emit (.clientSendOtp msg.channel.toInt result msg.maxOtpTimes.toInt))
    (emit (.fpgaShowRgb 0xFF 0xFF 0xFF))

/-- `SERVER2CLI_MSG_WRITE_ID_OTP_INFO`. -/
structure MsgWriteIdOtpInfo where
  channel : CInt
  id1 : Option CInt
  id2 : Option CInt
  id3 : Option CInt
  maxIdOtpTimes : Option CInt

/-- The ids asked for. -/
def MsgWriteIdOtpInfo.ids (msg : MsgWriteIdOtpInfo) : List CInt :=
  [msg.id1.getD 0, msg.id2.getD 0, msg.id3.getD 0]

def MsgWriteIdOtpInfo.maxOtpTimes (msg : MsgWriteIdOtpInfo) : CInt := msg.maxIdOtpTimes.getD 3

/-- `ic_mgr_burn_chip_id` as the handler calls it, with `id_data` of three bytes. -/
def burnChipId (channel : Int) (idData : List Byte) (ptnId : Int) : Call Int :=
  icMgrBurnChipId channel (fun k => idData.getD k 0) 3 ptnId

/-- The burn of `SERVER2CLI_MSG_WRITE_ID_OTP_INFO`. -/
def burnId (channel : Int) (idData : List Byte) : Call Unit := do
  let m ← getMem
  let _ ← burnChipId channel idData m.pgCurPtnId
  pure ()

def server2cliMsgWriteIdOtpInfo (msg : MsgWriteIdOtpInfo) : Call Unit :=
  let idData := msg.ids.map fun id => id.setWidth 8
  otpProc idItem msg.channel.toInt msg.maxOtpTimes.toInt idData
    (burnId msg.channel.toInt idData)
    (fun result => emit (.clientSendIdOtpEnd msg.channel.toInt result msg.maxOtpTimes.toInt))
    (pure ())

/-! ## What a message may do -/

/-- What happened before the program command. -/
def before (es : List Event) : List Event := es.takeWhile fun e => !isProgram e

/-- Among these bytes of the one-time memory are all bytes of one place of the
item, and they are what was asked for. -/
def Holds (item : OtpItem) (asked : List Byte → Prop) (reads : List (BitVec 16 × Byte)) : Prop :=
  ∃ otpTimes index bs, item.otpIndex otpTimes = some index ∧ bs.length = item.len ∧ asked bs ∧
    ∀ j (hj : j < bs.length), (index + item.base + BitVec.ofNat 16 j, bs[j]) ∈ reads

/-- A log shows that the value asked for was read back. -/
def ReadBack (item : OtpItem) (asked : List Byte → Prop) (es : List Event) : Prop :=
  Holds item asked (otpReads es)

/-- A message burns once at most, only below the maximum and when the value read
is another one, and says OK only of a value read back. -/
structure OtpSound (item : OtpItem) (maxOtpTimes : Int) (asked : List Byte → Prop)
    (es : List Event) : Prop where
  once : es.countP isProgram ≤ 1
  below : es.countP isProgram = 1 → ∃ otpTimes,
    (before es).filterMap (countRead item.reg) = [otpTimes] ∧ (otpTimes.toNat : Int) < maxOtpTimes
  differs : es.countP isProgram = 1 → ¬ ReadBack item asked (before es)
  ok : eErrorOk ∈ es.filterMap reported → ReadBack item asked es

/-! ## Runs -/

/-- What a burn does with this memory: it programs once at most, reads nothing,
and goes on or faults. -/
structure Burns (m : Mem) (burn : Call Unit) (goesOn : Prop) : Prop where
  goes : goesOn → ∀ w : Board, w.mem = m → ∃ es, burn w = .ok () (w.after 0 es) ∧
    es.countP isProgram ≤ 1 ∧ ∀ e ∈ es, plain e = true ∨ isProgram e = true
  faults : ¬ goesOn → ∀ w : Board, w.mem = m → burn w = .error () w

/-- A send of a result, or what follows it. -/
def Sends (reg : Byte) (x : Call Unit) (results : List Int) : Prop :=
  ∀ w : Board, ∃ es, x w = .ok () (w.after 0 es) ∧ Shows reg es ⟨[], [], 0, results⟩

/-- The log up to the program command, when one part of it programs. -/
theorem before_append {es bs fs : List Event} (hes : es.countP isProgram = 0)
    (hbs : bs.countP isProgram ≠ 0) : before (es ++ bs ++ fs) = es ++ before bs := by
  refine takeWhile_between (fun e he => ?_) ?_
  · simpa using List.countP_eq_zero.mp hes e he
  · obtain ⟨e, he, hprog⟩ := List.countP_pos_iff.mp (Nat.pos_of_ne_zero hbs)
    exact ⟨e, he, by simp [hprog]⟩

/-- Up to the program command, a burn shows nothing. -/
theorem shows_before {bs : List Event} (h : ∀ e ∈ bs, plain e = true ∨ isProgram e = true)
    (reg : Byte) : Shows reg (before bs) ⟨[], [], 0, []⟩ := by
  have hsub : ∀ e ∈ before bs, plain e = true ∨ isProgram e = true :=
    fun e he => h e ((List.takeWhile_prefix _).subset he)
  have hzero : (before bs).countP isProgram = 0 := by
    rw [List.countP_eq_zero]
    intro e he
    simpa using List.mem_takeWhile_imp he
  simpa [hzero] using shows_of_not_read hsub reg

section Run

variable {item : OtpItem} {channel maxOtpTimes : Int} {want : List Byte} {burn finish : Call Unit}
  {send : Int → Call Unit} {goesOn : Prop} {w : Board}

/-- What the handler reads first, and again after `k` more answers. -/
def readAfter (item : OtpItem) (w : Board) (k : Nat) : Answered := answered item (w.after k [])

/-- What is answered behind a run is what is read after it. -/
theorem answered_after (item : OtpItem) (w : Board) (k : Nat) (es : List Event) :
    answered item (w.after k es) = readAfter item w k := rfl

/-- What the log of a message shows, and up to the burn if there is one. -/
def LogShows (item : OtpItem) (w w' : Board) (s : Seen) : Prop :=
  ∃ es, w'.log = w.log ++ es ∧ Shows item.reg es s ∧
    (s.burns ≠ 0 → Shows item.reg (before es)
      ⟨[(answered item w).times], (answered item w).reads, 0, []⟩)

/-- The value read is the one asked for. -/
theorem run_otpProc_same (hreg : item.reg ≠ 0xED) (hsend : ∀ r, Sends item.reg (send r) [r])
    (hfinish : Sends item.reg finish []) (hsame : otpVars item (answered item w).data = want) :
    LogShows item w (final (otpProc item channel maxOtpTimes want burn send finish w))
      ⟨[(answered item w).times], (answered item w).reads, 0, [eErrorOk]⟩ := by
  obtain ⟨es, hread, hes⟩ := run_qcOtpDataRead hreg channel w
  obtain ⟨fs, hrun, hfs⟩ := hsend eErrorOk (w.after (answered item w).asked es)
  obtain ⟨gs, hend, hgs⟩ := hfinish (w.after (answered item w).asked (es ++ fs))
  refine ⟨es ++ fs ++ gs, ?_, by simpa using (hes.append hfs).append hgs, by simp⟩
  unfold otpProc
  simp [hread, hsame, hrun, hend]

/-- No burn is left. -/
theorem run_otpProc_end (hreg : item.reg ≠ 0xED) (hsend : ∀ r, Sends item.reg (send r) [r])
    (hfinish : Sends item.reg finish []) (hsame : otpVars item (answered item w).data ≠ want)
    (hmax : maxOtpTimes ≤ (answered item w).times.toNat) :
    LogShows item w (final (otpProc item channel maxOtpTimes want burn send finish w))
      ⟨[(answered item w).times], (answered item w).reads, 0, [eErrorOtpTimesEnd]⟩ := by
  obtain ⟨es, hread, hes⟩ := run_qcOtpDataRead hreg channel w
  obtain ⟨fs, hrun, hfs⟩ := hsend eErrorOtpTimesEnd (w.after (answered item w).asked es)
  obtain ⟨gs, hend, hgs⟩ := hfinish (w.after (answered item w).asked (es ++ fs))
  refine ⟨es ++ fs ++ gs, ?_, by simpa using (hes.append hfs).append hgs, by simp⟩
  unfold otpProc
  simp [hread, hsame, hmax, hrun, hend]

/-- The burn does not come back. -/
theorem run_otpProc_fault (hreg : item.reg ≠ 0xED) (hburn : Burns w.mem burn goesOn)
    (hfault : ¬ goesOn) (hsame : otpVars item (answered item w).data ≠ want)
    (hmax : ¬ maxOtpTimes ≤ (answered item w).times.toNat) :
    LogShows item w (final (otpProc item channel maxOtpTimes want burn send finish w))
      ⟨[(answered item w).times], (answered item w).reads, 0, []⟩ := by
  obtain ⟨es, hread, hes⟩ := run_qcOtpDataRead hreg channel w
  have hrun := hburn.faults hfault (w.after (answered item w).asked es) rfl
  refine ⟨es, ?_, hes, by simp⟩
  unfold otpProc
  simp [hread, hsame, hmax, hrun]

/-- The burn comes back: the item is read again, and the result is sent. -/
theorem run_otpProc_burn (hreg : item.reg ≠ 0xED) (hsend : ∀ r, Sends item.reg (send r) [r])
    (hfinish : Sends item.reg finish []) (hburn : Burns w.mem burn goesOn) (hgoes : goesOn)
    (hsame : otpVars item (answered item w).data ≠ want)
    (hmax : ¬ maxOtpTimes ≤ (answered item w).times.toNat) :
    ∃ burns ≤ 1,
      LogShows item w (final (otpProc item channel maxOtpTimes want burn send finish w))
        ⟨[(answered item w).times, (readAfter item w (answered item w).asked).times],
          (answered item w).reads ++ (readAfter item w (answered item w).asked).reads, burns,
          [otpCheckError (answered item w).times (readAfter item w (answered item w).asked).times
            want (otpVars item (readAfter item w (answered item w).asked).data)]⟩ := by
  -- read, burn, read again, send, finish
  obtain ⟨es, hread, hes⟩ := run_qcOtpDataRead hreg channel w
  obtain ⟨bs, hprog, honce, hbs⟩ := hburn.goes hgoes (w.after (answered item w).asked es) rfl
  obtain ⟨fs, hagain, hfs⟩ :=
    run_qcOtpDataRead hreg channel (w.after (answered item w).asked (es ++ bs))
  rw [answered_after] at hagain hfs
  set old := answered item w
  set new := readAfter item w old.asked
  obtain ⟨gs, hrun, hgs⟩ := hsend (otpCheckError old.times new.times want (otpVars item new.data))
    (w.after (old.asked + new.asked) (es ++ bs ++ fs))
  obtain ⟨hs, hend, hhs⟩ := hfinish (w.after (old.asked + new.asked) (es ++ bs ++ fs ++ gs))
  refine ⟨bs.countP isProgram, honce, es ++ bs ++ (fs ++ gs ++ hs), ?_, ?_, ?_⟩
  · unfold otpProc
    simp only [World.after_after, Nat.add_zero, List.append_assoc] at hprog hagain hrun hend
    simp [hread, hsame, hmax, hprog, hagain, hrun, hend]
  · have hall := (hes.append (shows_of_not_read hbs item.reg)).append ((hfs.append hgs).append hhs)
    simpa using hall
  · -- before the burn only the first reading is in the log
    intro hne
    rw [before_append hes.burns hne]
    simpa using hes.append (shows_before hbs item.reg)

end Run

/-! ## What was read back -/

/-- The places of an item lie one behind the other, `step` apart. -/
structure Spaced (item : OtpItem) (first step : Nat) : Prop where
  place : ∀ t index, item.otpIndex t = some index →
    (index + item.base).toNat = first + step * t.toNat ∧ t.toNat ≤ 5
  len_pos : 0 < item.len
  len_le : item.len ≤ step
  fits : first + step * 5 + item.len < 65536

/-- The copies of a VCOM lie two apart, the first at 36. -/
theorem vcomItem_spaced : Spaced vcomItem 36 2 where
  place t index h := by
    simp only [vcomItem] at h ⊢
    split_ifs at h <;> cases h <;> subst t <;> decide
  len_pos := by decide
  len_le := by decide
  fits := by decide

/-- The copies of an id lie five apart, the first at 2. -/
theorem idItem_spaced : Spaced idItem 2 5 where
  place t index h := by
    simp only [idItem] at h ⊢
    split_ifs at h <;> cases h <;> subst t <;> decide
  len_pos := by decide
  len_le := by decide
  fits := by decide

section Reads

variable {item : OtpItem} {first step : Nat} {asked : List Byte → Prop} {w w' : Board}

/-- So the address of a byte is where its copy starts, and the byte. -/
theorem Spaced.toNat_addr (hsp : Spaced item first step) {t : Byte} {index : BitVec 16} {j : Nat}
    (ht : item.otpIndex t = some index) (hj : j < item.len) :
    (index + item.base + BitVec.ofNat 16 j).toNat = first + step * t.toNat + j := by
  obtain ⟨hplace, hle⟩ := hsp.place t index ht
  have hstep : step * t.toNat ≤ step * 5 := Nat.mul_le_mul_left step hle
  have hfits := hsp.fits
  rw [BitVec.toNat_add, hplace, BitVec.toNat_ofNat, Nat.mod_eq_of_lt (by omega),
    Nat.mod_eq_of_lt (by omega)]

/-- An address belongs to one count, and is one byte of its place. -/
theorem Spaced.addr_inj (hsp : Spaced item first step) {t t' : Byte} {index index' : BitVec 16}
    {j j' : Nat} (ht : item.otpIndex t = some index) (ht' : item.otpIndex t' = some index')
    (hj : j < item.len) (hj' : j' < item.len)
    (h : index + item.base + BitVec.ofNat 16 j = index' + item.base + BitVec.ofNat 16 j') :
    t = t' ∧ j = j' := by
  have haddr := congrArg BitVec.toNat h
  rw [hsp.toNat_addr ht hj, hsp.toNat_addr ht' hj'] at haddr
  have hlen := hsp.len_le
  -- the places of one count lie within one step
  have hdiv : ∀ n k, k < item.len → (step * n + k) / step = n := by
    intro n k hk
    rw [Nat.mul_add_div (by omega), Nat.div_eq_of_lt (by omega), Nat.add_zero]
  -- equal addresses are equal numbers, since none of them wraps
  have hsame : step * t.toNat + j = step * t'.toNat + j' := by omega
  have htimes : t.toNat = t'.toNat := by
    rw [← hdiv t.toNat j hj, hsame, hdiv t'.toNat j' hj']
  exact ⟨BitVec.eq_of_toNat_eq htimes, by rw [htimes] at hsame; omega⟩

/-- The times are the first reply. -/
theorem answered_times : (answered item w).times = replyByte (w.reply 0) 0 := by
  unfold answered
  dsimp only
  cases item.otpIndex (replyByte (w.reply 0) 0) <;> rfl

/-- A reader's bytes are those of the place that its count selects. -/
theorem mem_answered_reads {p : BitVec 16 × Byte} :
    p ∈ (answered item w).reads ↔
      ∃ index j r, item.otpIndex (answered item w).times = some index ∧ j < item.len ∧
        w.reply (1 + j) = some r ∧ p = (index + item.base + BitVec.ofNat 16 j, r.data 0) := by
  rw [answered_times]
  unfold answered
  dsimp only
  -- with no place left nothing is read
  cases hindex : item.otpIndex (replyByte (w.reply 0) 0) with
  | none => simp
  | some index =>
    simp only [replyReads, List.mem_filterMap, List.mem_range, Option.map_eq_some_iff,
      Option.some.injEq]
    constructor
    · rintro ⟨j, hj, r, hr, rfl⟩
      exact ⟨index, j, r, rfl, hj, hr, rfl⟩
    · rintro ⟨_, j, r, rfl, hj, hr, rfl⟩
      exact ⟨j, hj, r, hr, rfl⟩

/-- The count selects a place, and every byte of it was answered. -/
def FullyRead (item : OtpItem) (w : Board) : Prop :=
  (item.otpIndex (answered item w).times).isSome ∧ ∀ j < item.len, (w.reply (1 + j)).isSome

/-- The bytes read back are those behind it. -/
theorem otpVars_answered {index : BitVec 16}
    (hindex : item.otpIndex (answered item w).times = some index) :
    otpVars item (answered item w).data = replyBytes w 1 item.len := by
  rw [answered_times] at hindex
  unfold answered otpVars
  simp [hindex]

/-- What one reading shows: the value asked for, when every byte was read and
the bytes are the ones asked for. -/
theorem holds_answered_iff (hsp : Spaced item first step) :
    Holds item asked (answered item w).reads ↔
      FullyRead item w ∧ asked (otpVars item (answered item w).data) := by
  constructor
  · rintro ⟨t, index, bs, ht, hlen, hasked, hbs⟩
    -- the bytes at one place were read under one count, so it is the one answered
    obtain ⟨index', j, r, hindex', hj, -, haddr⟩ :=
      mem_answered_reads.mp (hbs 0 (by rw [hlen]; exact hsp.len_pos))
    have htimes := (hsp.addr_inj ht hindex' hsp.len_pos hj (congrArg Prod.fst haddr)).1
    have hbyte : ∀ j (hj : j < bs.length), ∃ r, w.reply (1 + j) = some r ∧
        bs[j] = r.data 0 := by
      intro j hj
      obtain ⟨_, j', r, hindex', hj', hr, haddr⟩ := mem_answered_reads.mp (hbs j hj)
      obtain rfl := (hsp.addr_inj ht hindex' (hlen ▸ hj) hj' (congrArg Prod.fst haddr)).2
      exact ⟨r, hr, congrArg Prod.snd haddr⟩
    have hbytes : otpVars item (answered item w).data = bs := by
      rw [otpVars_answered hindex']
      refine List.ext_getElem (by simp [replyBytes, hlen]) fun j h₁ h₂ => ?_
      obtain ⟨r, hr, hb⟩ := hbyte j h₂
      simp [replyBytes, hr, hb, replyByte]
    refine ⟨⟨by rw [hindex']; rfl, fun j hj => ?_⟩, by rw [hbytes]; exact hasked⟩
    obtain ⟨r, hr, -⟩ := hbyte j (by rw [hlen]; exact hj)
    rw [hr]
    rfl
  · rintro ⟨⟨hsome, hall⟩, hasked⟩
    -- a full reading is a witness of its own
    obtain ⟨index, hindex⟩ := Option.isSome_iff_exists.mp hsome
    rw [otpVars_answered hindex] at hasked
    refine ⟨_, index, _, hindex, by simp [replyBytes], hasked, ?_⟩
    intro j hj
    have hj' : j < item.len := by simpa [replyBytes] using hj
    obtain ⟨r, hr⟩ := Option.isSome_iff_exists.mp (hall j hj')
    exact mem_answered_reads.mpr ⟨index, j, r, hindex, hj', hr, by simp [replyBytes, hr, replyByte]⟩

/-- Readings with different counts are of different places: the value is in one
of them. -/
theorem holds_append_iff (hsp : Spaced item first step)
    (hne : (answered item w).times ≠ (answered item w').times) :
    Holds item asked ((answered item w).reads ++ (answered item w').reads) ↔
      Holds item asked (answered item w).reads ∨ Holds item asked (answered item w').reads := by
  constructor
  · rintro ⟨t, index, bs, ht, hlen, hasked, hbs⟩
    have htimes : ∀ {v : Board} {j : Nat} {b : Byte}, j < item.len →
        (index + item.base + BitVec.ofNat 16 j, b) ∈ (answered item v).reads →
        t = (answered item v).times := by
      intro v j b hj hmem
      obtain ⟨_, j', _, hindex', hj', -, haddr⟩ := mem_answered_reads.mp hmem
      exact (hsp.addr_inj ht hindex' hj hj' (congrArg Prod.fst haddr)).1
    -- all bytes of the item come from one of the two readings
    by_cases hfirst : t = (answered item w).times
    · refine Or.inl ⟨t, index, bs, ht, hlen, hasked, fun j hj => ?_⟩
      refine (List.mem_append.mp (hbs j hj)).resolve_right fun hmem => ?_
      exact hne (hfirst.symm.trans (htimes (by rw [← hlen]; exact hj) hmem))
    · refine Or.inr ⟨t, index, bs, ht, hlen, hasked, fun j hj => ?_⟩
      refine (List.mem_append.mp (hbs j hj)).resolve_left fun hmem => ?_
      exact hfirst (htimes (by rw [← hlen]; exact hj) hmem)
  · rintro (⟨t, index, bs, ht, hlen, hasked, hbs⟩ | ⟨t, index, bs, ht, hlen, hasked, hbs⟩)
    · exact ⟨t, index, bs, ht, hlen, hasked, fun j hj => List.mem_append_left _ (hbs j hj)⟩
    · exact ⟨t, index, bs, ht, hlen, hasked, fun j hj => List.mem_append_right _ (hbs j hj)⟩

end Reads

/-! ## When a message is sound -/

/-- The result is OK, of the value read at first or of the one read after the
burn, only when that was read in full and is the whole value asked for. -/
def SoundWhen (item : OtpItem) (maxOtpTimes : Int) (want : List Byte) (inRange goesOn : Prop)
    (w : Board) : Prop :=
  let old := answered item w
  let again := w.after old.asked []
  let new := answered item again
  (otpVars item old.data = want → FullyRead item w ∧ inRange) ∧
    (otpVars item old.data ≠ want → old.times.toNat < maxOtpTimes → goesOn →
      old.times < new.times → otpVars item new.data = want → FullyRead item again ∧ inRange)

section Sound

variable {item : OtpItem} {maxOtpTimes : Int} {asked : List Byte → Prop} {w w' : Board} {s : Seen}

/-- Soundness of a log comes down to what it shows. -/
theorem otpSound_iff_of_shows (h : LogShows item w w' s) (honce : s.burns ≤ 1) :
    OtpSound item maxOtpTimes asked (w'.log.drop w.log.length) ↔
      (s.burns = 1 → ((answered item w).times.toNat : Int) < maxOtpTimes ∧
        ¬ Holds item asked (answered item w).reads) ∧
      (eErrorOk ∈ s.results → Holds item asked s.reads) := by
  obtain ⟨es, hlog, hes, hbefore⟩ := h
  rw [hlog, List.drop_left]
  constructor
  · rintro ⟨-, hbelow, hdiffers, hok⟩
    -- the count and the bytes compared were read before the program pulse
    refine ⟨fun hburn => ?_, fun hzero => ?_⟩
    · have hpre := hbefore (by omega)
      have hprog : es.countP isProgram = 1 := hes.burns.trans hburn
      obtain ⟨t, ht, hlt⟩ := hbelow hprog
      obtain rfl : (answered item w).times = t := by simpa [hpre.counts] using ht
      have hreads : otpReads (before es) = (answered item w).reads := hpre.otpReads
      refine ⟨hlt, ?_⟩
      rw [← hreads]
      exact hdiffers hprog
    · rw [← hes.otpReads]
      exact hok (by rw [hes.results]; exact hzero)
  · rintro ⟨hburnt, hok⟩
    constructor
    · rw [hes.burns]
      exact honce
    · intro hprog
      rw [hes.burns] at hprog
      exact ⟨_, (hbefore (by omega)).counts, (hburnt hprog).1⟩
    · intro hprog
      rw [hes.burns] at hprog
      unfold ReadBack
      rw [(hbefore (by omega)).otpReads]
      exact (hburnt hprog).2
    · intro hzero
      unfold ReadBack
      rw [hes.otpReads]
      exact hok (by rw [← hes.results]; exact hzero)

/-- The check passes if the times went up and the bytes are the ones asked for. -/
theorem otpCheckError_eq_ok {old new : Byte} {want got : List Byte} :
    eErrorOk = otpCheckError old new want got ↔ old < new ∧ want = got := by
  unfold otpCheckError
  split_ifs with hle hne
  · have hnot : ¬ old < new := BitVec.not_lt.mpr hle
    simp [eErrorOk, eErrorOtpTimesNotChange, hnot]
  · simp [eErrorOk, eErrorOtpDataWriteFailed, hne]
  · have hlt : old < new := BitVec.not_le.mp hle
    simp only [ne_eq, not_not] at hne
    simp [hlt, hne]

end Sound

section Sound

variable {item : OtpItem} {first step : Nat} {channel maxOtpTimes : Int} {want : List Byte}
  {asked : List Byte → Prop} {inRange goesOn : Prop} {burn finish : Call Unit}
  {send : Int → Call Unit}

/-- **When a message is sound**, for every chip. -/
theorem otpProc_sound_iff (hsp : Spaced item first step) (hreg : item.reg ≠ 0xED)
    (hasked : ∀ bs, asked bs ↔ inRange ∧ bs = want) (w : Board)
    (hsend : ∀ r, Sends item.reg (send r) [r]) (hfinish : Sends item.reg finish [])
    (hburn : Burns w.mem burn goesOn) :
    OtpSound item maxOtpTimes asked
        ((final (otpProc item channel maxOtpTimes want burn send finish w)).log.drop w.log.length) ↔
      SoundWhen item maxOtpTimes want inRange goesOn w := by
  unfold SoundWhen
  dsimp only
  have hholds : ∀ v : Board, Holds item asked (answered item v).reads ↔
      FullyRead item v ∧ inRange ∧ otpVars item (answered item v).data = want :=
    fun v => (holds_answered_iff hsp).trans (and_congr_right fun _ => hasked _)
  have hold := hholds w
  have hnew := hholds (w.after (answered item w).asked [])
  by_cases hsame : otpVars item (answered item w).data = want
  · -- nothing is burnt; OK rests on the reading made
    rw [otpSound_iff_of_shows (run_otpProc_same hreg hsend hfinish hsame) (by simp)]
    simp [hold, hsame]
  have hfirst : ¬ Holds item asked (answered item w).reads := fun h => hsame (hold.mp h).2.2
  by_cases hmax : maxOtpTimes ≤ (answered item w).times.toNat
  · -- no burn is left; the result is an error
    rw [otpSound_iff_of_shows (run_otpProc_end hreg hsend hfinish hsame hmax) (by simp)]
    simp [hsame, Int.not_lt.mpr hmax, eErrorOk, eErrorOtpTimesEnd]
  by_cases hgoes : goesOn
  · obtain ⟨burns, honce, hrun⟩ := run_otpProc_burn hreg hsend hfinish hburn hgoes hsame hmax
    rw [otpSound_iff_of_shows hrun honce]
    -- the burn itself is allowed, the result OK is of the second reading
    simp only [hsame, Int.not_le.mp hmax, hfirst, hgoes, List.mem_singleton, otpCheckError_eq_ok,
      readAfter, not_false_eq_true, and_self, implies_true, true_and, false_implies, ne_eq,
      forall_const]
    constructor
    · -- a higher count: the bytes asked for can only come from the second reading
      intro hok hlt hwant
      have hboth := hok ⟨hlt, hwant.symm⟩
      rw [holds_append_iff hsp (BitVec.ne_of_lt hlt)] at hboth
      obtain ⟨hfull, hrange, -⟩ := hnew.mp (hboth.resolve_left hfirst)
      exact ⟨hfull, hrange⟩
    · rintro hok ⟨hlt, hwant⟩
      rw [holds_append_iff hsp (BitVec.ne_of_lt hlt)]
      obtain ⟨hfull, hrange⟩ := hok hlt hwant.symm
      exact Or.inr (hnew.mpr ⟨hfull, hrange, hwant.symm⟩)
  · -- the burn does not return, so there is no result
    rw [otpSound_iff_of_shows (run_otpProc_fault hreg hburn hgoes hsame hmax) (by simp)]
    simp [hsame, hgoes]

end Sound

/-! ## The two messages -/

/-- The bytes of the VCOM are its low 16 bits. -/
theorem vcomBytes_append (v : CInt) :
    ((v.sshiftRight 8).setWidth 8 : Byte) ++ (v.setWidth 8 : Byte) = v.setWidth 16 := by
  ext i hi
  simp only [BitVec.getElem_append, BitVec.getElem_setWidth, BitVec.getLsbD_sshiftRight]
  by_cases hlow : i < 8
  · rw [dif_pos hlow]
  · rw [dif_neg hlow, if_pos (by omega), show 8 + (i - 8) = i by omega]
    simp only [show ¬ 32 ≤ i - 8 by omega, decide_false, Bool.not_false, Bool.true_and]

/-- Two texts of one length in front. -/
theorem append_inj {h l h' l' : Byte} (heq : h ++ l = h' ++ l') : h = h' ∧ l = l' := by
  constructor
  · have hhigh := congrArg (BitVec.extractLsb' 8 8) heq
    rwa [BitVec.extractLsb'_append_eq_left, BitVec.extractLsb'_append_eq_left] at hhigh
  · have hlow := congrArg (BitVec.setWidth 8) heq
    rwa [BitVec.setWidth_append_eq_right, BitVec.setWidth_append_eq_right] at hlow

/-- The two bytes are the VCOM asked for. -/
def vcomAsked (vcom : CInt) (bs : List Byte) : Prop :=
  ∃ h l : Byte, bs = [h, l] ∧ ((h ++ l : BitVec 16).toNat : Int) = vcom.toInt

/-- A VCOM can be asked for if it is of 16 bits. -/
theorem vcomAsked_iff (vcom : CInt) (bs : List Byte) :
    vcomAsked vcom bs ↔ (0 ≤ vcom.toInt ∧ vcom.toInt < 2 ^ 16) ∧ bs = vcomBytes vcom := by
  unfold vcomAsked vcomBytes
  simp only [toNat_eq_toInt_iff (show 16 < 32 by decide), ← vcomBytes_append vcom]
  constructor
  · rintro ⟨h, l, rfl, hrange, happ⟩
    obtain ⟨rfl, rfl⟩ := append_inj happ
    exact ⟨hrange, rfl⟩
  · rintro ⟨hrange, rfl⟩
    exact ⟨_, _, rfl, hrange, rfl⟩

/-- The three bytes are the ids asked for. -/
def idsAsked (ids : List CInt) (bs : List Byte) : Prop :=
  bs.map (fun b => (b.toNat : Int)) = ids.map BitVec.toInt

/-- Ids can be asked for if each is of eight bits. -/
theorem idsAsked_iff (ids : List CInt) (bs : List Byte) :
    idsAsked ids bs ↔
      (∀ id ∈ ids, 0 ≤ id.toInt ∧ id.toInt < 2 ^ 8) ∧ bs = ids.map fun id => id.setWidth 8 := by
  unfold idsAsked
  induction ids generalizing bs with
  | nil => simp
  -- byte by byte: an id in range is its own low byte
  | cons id ids ih =>
    cases bs with
    | nil => simp
    | cons b bs =>
      simp only [List.map_cons, List.cons.injEq, ih, toNat_eq_toInt_iff (show 8 < 32 by decide),
        List.forall_mem_cons]
      tauto

/-- An event that is neither a read nor a burn shows the result in it. -/
theorem sends_emit (reg : Byte) {e : Event} (hread : ∀ p : OtpPort, p.step e = p)
    (hcount : countRead reg e = none) (hprog : isProgram e = false) :
    Sends reg (emit e) (reported e).toList := by
  refine fun _ => ⟨[e], rfl, ?_, fun p => ?_, ?_, ?_⟩
  · simp [hcount]
  · simp [hread]
  · simp [hprog]
  · cases hr : reported e <;> simp [hr]

/-- Burning the VCOM is its routine, on every channel. -/
theorem burns_burnVcom (m : Mem) (channel : Int) (vcom : CInt) :
    Burns m (burnVcom channel vcom) True where
  goes _ w _ := by
    obtain ⟨a, es, hrun, hprog, hes⟩ := qcOtpVcom_burnsOnce channel ((vcom.sshiftRight 8).setWidth 8)
      (vcom.setWidth 8) w.mem.pgCurPtnId w
    exact ⟨es, by simp [burnVcom, hrun], hprog.le, hes⟩
  faults h := absurd trivial h

/-- The burn of an id burns nothing, with any chip. -/
theorem burns_burnId (m : Mem) (channel : Int) (idData : List Byte) :
    Burns m (burnId channel idData) (m.index ≠ .jd9367) where
  goes h w hm := by
    subst hm
    exact ⟨[], by simp [burnId, burnChipId, run_icMgrBurnChipId_other _ _ _ _ w h], by simp, by simp⟩
  faults h w hm := by
    subst hm
    simp [burnId, burnChipId, run_icMgrBurnChipId_jd9367 _ _ _ w (not_not.mp h)]

/-- The messages that burn an item. -/
inductive OtpMsg
  | otp (msg : MsgOtp)
  | writeIdOtpInfo (msg : MsgWriteIdOtpInfo)

namespace OtpMsg

/-- The log of its handling. -/
def log (msg : OtpMsg) (w : Board) : List Event :=
  let handler := match msg with
    | otp msg => server2cliMsgOtp msg
    | writeIdOtpInfo msg => server2cliMsgWriteIdOtpInfo msg
  (final (handler w)).log.drop w.log.length

/-- Sound handling: of the VCOM asked for, or of the ids. -/
def Sound (msg : OtpMsg) (w : Board) : Prop :=
  match msg with
  | otp m => OtpSound vcomItem m.maxOtpTimes.toInt (vcomAsked m.vcomValue) (msg.log w)
  | writeIdOtpInfo m => OtpSound idItem m.maxOtpTimes.toInt (idsAsked m.ids) (msg.log w)

/-- The condition for it: the bytes compared were read, and are all there is of
the value asked for. The burn of an id goes on only when it does nothing. -/
def SoundWhen (msg : OtpMsg) (w : Board) : Prop :=
  match msg with
  | otp m => Server.SoundWhen vcomItem m.maxOtpTimes.toInt (vcomBytes m.vcomValue)
      (0 ≤ m.vcomValue.toInt ∧ m.vcomValue.toInt < 2 ^ 16) True w
  | writeIdOtpInfo m => Server.SoundWhen idItem m.maxOtpTimes.toInt
      (m.ids.map fun id => id.setWidth 8) (∀ id ∈ m.ids, 0 ≤ id.toInt ∧ id.toInt < 2 ^ 8)
      (w.mem.index ≠ .jd9367) w

end OtpMsg

/-- The case of OTP. -/
theorem msgOtp_sound_iff (msg : MsgOtp) (w : Board) :
    (OtpMsg.otp msg).Sound w ↔ (OtpMsg.otp msg).SoundWhen w := by
  unfold OtpMsg.Sound OtpMsg.SoundWhen OtpMsg.log server2cliMsgOtp
  exact otpProc_sound_iff vcomItem_spaced (by decide) (vcomAsked_iff msg.vcomValue) w
    (fun _ => sends_emit _ (fun _ => rfl) rfl rfl) (sends_emit _ (fun _ => rfl) rfl rfl)
    (burns_burnVcom w.mem _ _)

/-- The case of WRITE_ID_OTP_INFO. -/
theorem msgWriteIdOtpInfo_sound_iff (msg : MsgWriteIdOtpInfo) (w : Board) :
    (OtpMsg.writeIdOtpInfo msg).Sound w ↔ (OtpMsg.writeIdOtpInfo msg).SoundWhen w := by
  unfold OtpMsg.Sound OtpMsg.SoundWhen OtpMsg.log server2cliMsgWriteIdOtpInfo
  have hpure : Sends idItem.reg (pure ()) [] :=
    fun w => ⟨[], by simp, rfl, fun _ => by simp, rfl, rfl⟩
  exact otpProc_sound_iff idItem_spaced (by decide) (idsAsked_iff msg.ids) w
    (fun _ => sends_emit _ (fun _ => rfl) rfl rfl) hpure (burns_burnId w.mem _ _)

/-- **When an OTP message is sound**, for every value asked for, every maximum
and every chip. -/
theorem otpMsg_sound_iff (msg : OtpMsg) (w : Board) : msg.Sound w ↔ msg.SoundWhen w := by
  cases msg with
  | otp msg => exact msgOtp_sound_iff msg w
  | writeIdOtpInfo msg => exact msgWriteIdOtpInfo_sound_iff msg w

/-- A panel that answers nothing. -/
def silent : Board := ⟨fun _ => none, 0, [], .boot⟩

/-- Asked for the VCOM 0, it is said to be burnt in a chip that was never read. -/
theorem silent_otp_ok :
    ¬ (OtpMsg.otp { channel := 1, vcom := some 0, maxVcomOtpTimes := some 3 }).Sound silent := by
  rw [msgOtp_sound_iff]
  intro h
  exact absurd (h.1 rfl).1.1 (by decide)

/-! ## The burn of an id, end to end -/

/-- The burn routine of the driver, with the ids as `id_data`. -/
def burnRoutine (channel : Int) (id1 id2 id3 : Byte) (ptnId : Int) : Call Int :=
  chipJd9367BurnChipId channel (fun k => [id1, id2, id3].getD k 0) 3 ptnId

/-- The routine has the ids in their registers when it programs. -/
def IdWritten (channel : Fin 4) (id1 id2 id3 : Byte) (ptnId : Int) (w : Board) : Prop :=
  let es := (final (burnRoutine (channel : Nat) id1 id2 id3 ptnId w)).log.drop w.log.length
  let regs := jdRegs (channel : Nat) (before es)
  regs 0 0x78 = some id1 ∧ regs 0 0x79 = some id2 ∧ regs 0 0x7A = some id3

/-- The call of the handler comes to that routine, and it writes the ids. -/
structure BurnIdEndToEnd (channel : Fin 4) (id1 id2 id3 : Byte) (ptnId : Int) (w : Board) :
    Prop where
  reaches : burnChipId (channel : Nat) [id1, id2, id3] ptnId w =
    burnRoutine (channel : Nat) id1 id2 id3 ptnId w
  writes : IdWritten channel id1 id2 id3 ptnId w

/-- The routine itself programs the first byte and two zeros. -/
theorem run_burnRoutine (channel : Int) (id1 id2 id3 : Byte) (ptnId : Int) (w : Board) :
    ∃ es, burnRoutine channel id1 id2 id3 ptnId w = .ok 0 (w.after 0 es) ∧
      jdRegs channel (before es) 0 0x78 = some id1 ∧
      jdRegs channel (before es) 0 0x79 = some 0 ∧
      jdRegs channel (before es) 0 0x7A = some 0 := by
  obtain ⟨es, hrun, hregs⟩ := qcOtpId_regs channel id1 id2 (id3.setWidth 16) ptnId w
  refine ⟨es, ?_, hregs⟩
  unfold burnRoutine chipJd9367BurnChipId
  simp [hrun]

/-- So its registers are right for an id of one byte only. -/
theorem idWritten_iff (channel : Fin 4) (id1 id2 id3 : Byte) (ptnId : Int) (w : Board) :
    IdWritten channel id1 id2 id3 ptnId w ↔ id2 = 0 ∧ id3 = 0 := by
  obtain ⟨es, hrun, h₁, h₂, h₃⟩ := run_burnRoutine (channel : Nat) id1 id2 id3 ptnId w
  unfold IdWritten
  simp only [hrun, final_ok, World.after_log, List.drop_left, h₁, h₂, h₃, Option.some.injEq,
    true_and]
  exact and_congr eq_comm eq_comm

/-- The jd9367's entry for an id is not the routine with the pattern it was given. -/
theorem burnChipId_ne_routine (channel : Fin 4) (id1 id2 id3 : Byte) (ptnId : Int) (w : Board)
    (hchip : w.mem.index = .jd9367) : burnChipId (channel : Nat) [id1, id2, id3] ptnId w ≠
      burnRoutine (channel : Nat) id1 id2 id3 ptnId w := by
  obtain ⟨es, hrun, -⟩ := run_burnRoutine (channel : Nat) id1 id2 id3 ptnId w
  unfold burnChipId
  rw [run_icMgrBurnChipId_jd9367 _ _ _ _ hchip, hrun]
  nofun

/-- **No id is burnt end to end.** -/
theorem not_burnIdEndToEnd (channel : Fin 4) (id1 id2 id3 : Byte) (ptnId : Int) (w : Board)
    (hchip : w.mem.index = .jd9367) : ¬ BurnIdEndToEnd channel id1 id2 id3 ptnId w :=
  fun h => burnChipId_ne_routine channel id1 id2 id3 ptnId w hchip h.reaches

/-- A board with the jd9367 chosen. -/
def jd9367Board : Board := silent.withMem { Mem.boot with index := .jd9367 }

/-- The id of the chip itself, on channel 1. -/
theorem not_burnIdEndToEnd_936701 : ¬ BurnIdEndToEnd 1 0x93 0x67 0x01 5 jd9367Board :=
  not_burnIdEndToEnd 1 0x93 0x67 0x01 5 jd9367Board rfl

/-- The id 1, 2, 3 is not burnt. -/
theorem burnId_010203 : ¬ BurnIdEndToEnd 0 0x01 0x02 0x03 0 jd9367Board :=
  fun h => burnChipId_ne_routine 0 0x01 0x02 0x03 0 jd9367Board rfl h.reaches

end PgClient.Server
