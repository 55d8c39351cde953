import Mathlib.Data.Fintype.Card
import PgClient.Lcd.Probe
import PgClient.Lib.PartialRun

/-!
# The registry of the probes

`MSG_LCD_CMD_TTYUSB_ADD` and `MSG_LCD_CMD_TTYUSB_REMOVE` of `pubLcdTask.c`. A device that is plugged
in is opened on a channel that no entry has, and put into an entry of `m_lcd_list` that has no
channel. The name comes in a block of 256 bytes; an entry has 64 for it, and the path 128.

The channels are those of `ca310.c`, which keeps two probes and lets the channels 0, 1 and 2 pass.

* `allocChannel_spec` — where an entry is free, so is a channel.
* `stepOk_of_step` — what a message does to the list and its version, if it can be handled.
* `step_isSome_iff` — when it can: there is one probe at most.
* `probes_sound_iff` — both all along any messages.
* `run_registered` — the probe of an entry has its device.
-/

namespace PgClient.Lcd.Registry

open PartialRun

/-! ## The code -/

/-- A text up to its NUL. -/
structure CText where
  bytes : List Byte
  noNul : 0 ∉ bytes
  deriving DecidableEq

/-- `strlen`. -/
def CText.strlen (text : CText) : Nat := text.bytes.length

/-- `strcpy` into this many bytes, with the NUL. -/
def strcpy (size : Nat) (src : CText) : Option CText := if src.strlen < size then some src else none

/-- `sprintf(dev_path_name, "/dev/%s", devname)`. -/
def devPath (devname : CText) : CText :=
  ⟨[0x2F, 0x64, 0x65, 0x76, 0x2F] ++ devname.bytes, by simpa using devname.noNul⟩

/-- An entry of the list. -/
structure LcdDevice where
  fd : Int
  name : CText
  channel : Int
  deriving DecidableEq

/-- An entry after `memset`. -/
def LcdDevice.zero : LcdDevice := ⟨0, ⟨[], List.not_mem_nil⟩, 0⟩

/-- `m_lcd_list`, of `MAX_LCD_DEVICE_NUMBER` entries. -/
abbrev LcdList := Fin 4 → LcdDevice

/-- `work_mode`. -/
inductive WorkMode
  | idle
  | xylv
  | flick
  deriving DecidableEq

/-- `ca310_probe_info_t`. -/
structure Ca310ProbeInfo where
  lcdChannel : Int
  uartFd : Int
  devName : CText
  workMode : WorkMode
  deriving DecidableEq

/-- A probe after `memset`. -/
def Ca310ProbeInfo.zero : Ca310ProbeInfo := ⟨0, 0, ⟨[], List.not_mem_nil⟩, .idle⟩

/-- `s_ca310_probe`, of `MAX_LCD_PROBE_NUMS` probes. -/
abbrev Ca310Probes := Fin 2 → Ca310ProbeInfo

/-- `lcd_channel > MAX_LCD_PROBE_NUMS` and below 0: what the functions of `ca310.c` refuse. -/
def Refused (lcdChannel : Int) : Prop := lcdChannel < 0 ∨ lcdChannel > 2

instance (lcdChannel : Int) : Decidable (Refused lcdChannel) := inferInstanceAs (Decidable (_ ∨ _))

/-- `s_ca310_probe[lcd_channel]`; the last channel that is let pass is behind the array. -/
def probeAt (lcdChannel : Int) : Option (Fin 2) :=
  if lcdChannel = 0 then some ⟨0, Nat.two_pos⟩
  else if lcdChannel = 1 then some ⟨1, Nat.one_lt_two⟩
  else none

/-- `ca310_reset`. -/
def ca310Reset (lcdChannel : Int) (probes : Ca310Probes) : Option (Int × Ca310Probes) :=
  if Refused lcdChannel then some (-1, probes)
  else do
    let k ← probeAt lcdChannel
    some (0, Function.update probes k { Ca310ProbeInfo.zero with uartFd := -1 })

/-- `ca310_open`, when `uart_open` gives `fd`. It does not look at that. -/
def ca310Open (lcdChannel : Int) (devName : CText) (fd : Int) (probes : Ca310Probes) :
    Option (Int × Ca310Probes) :=
  if Refused lcdChannel then some (-1, probes)
  else do
    let k ← probeAt lcdChannel
    let name ← strcpy 32 devName
    some (0, Function.update probes k ⟨lcdChannel, fd, name, .idle⟩)

/-- `ca310_close`. -/
def ca310Close (lcdChannel : Int) (probes : Ca310Probes) : Option (Int × Ca310Probes) :=
  if Refused lcdChannel then some (-1, probes)
  else do
    let k ← probeAt lcdChannel
    if 0 < (probes k).uartFd then
      some (0, Function.update probes k { probes k with uartFd := -1, workMode := .idle })
    else some (0, probes)

/-- `ca310_test`, when `uart_open` gives `fd` and `read` these bytes. The reply is printed. -/
def ca310Test (fd : Int) (reads : List Piece) : Option Unit :=
  if 0 < fd then do
    let (_, buf) ← uartReadEnd reads (Vector.replicate 1024 0)
    let _ ← cstr buf
    some ()
  else some ()

/-- `ca310_stop_flick_mode`, when `read` gives these bytes. A reply that is no `OK00` is printed. -/
def ca310StopFlickMode (lcdChannel : Int) (reads : List Piece) (probes : Ca310Probes) :
    Option (Int × Ca310Probes) :=
  if Refused lcdChannel then some (-1, probes)
  else do
    let k ← probeAt lcdChannel
    let (recvLen, buf) ← uartReadEnd reads (Vector.replicate 32 0)
    if 0 < recvLen then
      if strncmp cmdOkKey buf.toList cmdOkKey.length then
        some (0, Function.update probes k { probes k with workMode := .idle })
      else do
        let _ ← cstr buf
        some (-1, probes)
    else some (-1, probes)

/-- The list, `m_lcd_list_version`, and the probes. -/
structure LcdTask where
  list : LcdList
  version : BitVec 32
  probes : Ca310Probes

/-- `memset` of `initLcd`; it leaves the version alone. The probes are zeros from the start. -/
def initLcd (version : BitVec 32) : LcdTask := ⟨fun _ => .zero, version, fun _ => .zero⟩

/-- The loops over the list, up to their `break`. -/
def findEntry (list : LcdList) (wanted : LcdDevice → Bool) : Option (Fin 4) :=
  (List.finRange 4).find? fun i => wanted (list i)

/-- `tmp_find`. -/
def channelUsed (list : LcdList) (tmp_channel : Int) : Bool :=
  (findEntry list fun lcd => 0 < lcd.channel ∧ lcd.channel = tmp_channel).isSome

/-- The new channel, or 0. -/
def allocChannel (list : LcdList) : Int :=
  ([1, 2, 3, 4].find? fun tmp_channel => !channelUsed list tmp_channel).getD 0

/-- The next version. -/
def nextVersion (ver : BitVec 32) : BitVec 32 := if ver = 0xffffffff then 1 else ver + 1

/-- What the device gives: to `uart_open` and `read` of `ca310_test`, and then to those of
`ca310_open` and `ca310_stop_flick_mode`. -/
structure Uart where
  testFd : Int
  testReads : List Piece
  fd : Int
  reads : List Piece

/-- The device is opened on a channel, and put into an entry. -/
def openEntry (i : Fin 4) (channel : Int) (devname : CText) (uart : Uart) (s : LcdTask) :
    Option LcdTask := do
  let (_, probes) ← ca310Reset channel s.probes
  -- no copy looks at the length; behind the end of its array it is undefined
  let path ← strcpy 128 (devPath devname)
  ca310Test uart.testFd uart.testReads
  let (ret, probes) ← ca310Open channel path uart.fd probes
  if ret = 0 then do
    let (_, probes) ← ca310StopFlickMode channel uart.reads probes
    let name ← strcpy 64 devname
    some ⟨Function.update s.list i { s.list i with name := name, channel := channel },
      nextVersion s.version, probes⟩
  else some { s with probes := probes }

/-- `MSG_LCD_CMD_TTYUSB_ADD`. -/
def ttyusbAdd (devname : CText) (uart : Uart) (s : LcdTask) : Option LcdTask :=
  match findEntry s.list fun lcd => lcd.channel = 0 with
  | none => some s
  | some i =>
    let channel := allocChannel s.list
    -- the loop ends at the first free entry, whether the device can be opened or not
    if 0 < channel then openEntry i channel devname uart s else some s

/-- `MSG_LCD_CMD_TTYUSB_REMOVE`. -/
def ttyusbRemove (devname : CText) (s : LcdTask) : Option LcdTask :=
  match findEntry s.list fun lcd =>
    0 < lcd.channel ∧ devname.strlen = lcd.name.strlen ∧ devname = lcd.name with
  | none => some s
  | some i => do
    let (_, probes) ← ca310Close (s.list i).channel s.probes
    some ⟨Function.update s.list i .zero, nextVersion s.version, probes⟩

/-- A message; the name is `none` for `NULL`, where `malloc` gave nothing. -/
inductive LcdMsg
  | ttyusbAdd (devname : Option CText) (uart : Uart)
  | ttyusbRemove (devname : Option CText)

/-- `lcd_message_proc`. -/
def step : LcdMsg → LcdTask → Option LcdTask
  | .ttyusbAdd (some devname) uart, s => ttyusbAdd devname uart s
  | .ttyusbRemove (some devname), s => ttyusbRemove devname s
  | _, s => some s

/-! ## What is kept -/

/-- The channels that are not 0 are from 1 to 4, and no two entries have the same. -/
structure Channels (list : LcdList) : Prop where
  range : ∀ i, (list i).channel ≠ 0 → 1 ≤ (list i).channel ∧ (list i).channel ≤ 4
  distinct : ∀ i j, (list i).channel ≠ 0 → (list i).channel = (list j).channel → i = j

/-- What a message may change in the list. -/
def Changes (list list' : LcdList) : LcdMsg → Prop
  | .ttyusbAdd devname _ => list' = list ∨ ∃ i, (list i).channel = 0 ∧
      devname = some (list' i).name ∧ ∀ j, j ≠ i → list' j = list j
  | .ttyusbRemove devname => list' = list ∨ ∃ i, (list i).channel ≠ 0 ∧
      devname = some (list i).name ∧ list' = Function.update list i .zero

/-- A message that is handled as it should be. -/
structure StepOk (msg : LcdMsg) (s s' : LcdTask) : Prop where
  channels : Channels s'.list
  changes : Changes s.list s'.list msg
  version : s'.version ≠ s.version ↔ s'.list ≠ s.list
  nonzero : s.version ≠ 0 → s'.version ≠ 0

/-- A message that can be handled, and is so. -/
def Sound (msg : LcdMsg) (s : LcdTask) : Prop := ∃ s', step msg s = some s' ∧ StepOk msg s s'

/-- A reply that fits a buffer, and leaves room for a NUL or brings one. -/
def ReplyFits (n : Nat) (reads : List Piece) : Prop :=
  (taken reads).length ≤ n ∧ ((taken reads).length < n ∨ 0 ∈ taken reads)

/-- A reply to `ca310_stop_flick_mode`; one with `OK00` in front needs no NUL. -/
def StopFits (reads : List Piece) : Prop :=
  ReplyFits 32 reads ∨ (taken reads).length = 32 ∧ cmdOkKey <+: taken reads

/-- A device comes when there is no other, with a name that fits the probe with `/dev/` in front,
and replies that fit. -/
def Fits : LcdMsg → LcdTask → Prop
  | .ttyusbAdd (some devname) uart, s => (∀ i, (s.list i).channel = 0) ∧ devname.strlen < 27 ∧
      (0 < uart.testFd → ReplyFits 1024 uart.testReads) ∧ StopFits uart.reads
  | _, _ => True

/-! ## The searches -/

variable {list : LcdList} {i j : Fin 4} {wanted : LcdDevice → Bool}

/-- What is found is wanted. -/
theorem findEntry_eq_some (h : findEntry list wanted = some i) : wanted (list i) := by
  have hfound := List.find?_some h
  exact hfound

/-- Nothing that is wanted is missed. -/
theorem findEntry_eq_none (h : findEntry list wanted = none) (i : Fin 4) : ¬wanted (list i) :=
  List.find?_eq_none.mp h i (List.mem_finRange i)

/-- What is wanted is found. -/
theorem exists_findEntry (h : wanted (list i)) : ∃ j, findEntry list wanted = some j := by
  rw [← Option.ne_none_iff_exists']
  exact fun hnone => findEntry_eq_none hnone i h

/-- A channel in use is one that an entry has. -/
theorem channelUsed_iff {c : Int} (hc : 0 < c) :
    channelUsed list c ↔ ∃ j, (list j).channel = c := by
  rw [channelUsed, Option.isSome_iff_exists]
  constructor
  · rintro ⟨j, hj⟩
    exact ⟨j, (of_decide_eq_true (findEntry_eq_some hj)).2⟩
  · rintro ⟨j, rfl⟩
    exact exists_findEntry (decide_eq_true ⟨hc, rfl⟩)

/-- Four channels, and at most three entries with one. -/
theorem exists_free_channel (hi : (list i).channel = 0) :
    ∃ c ∈ ([1, 2, 3, 4] : List Int), ∀ j, (list j).channel ≠ c := by
  have hcard : ((Finset.univ.erase i).image fun j => (list j).channel).card <
      ({1, 2, 3, 4} : Finset Int).card := by
    refine Finset.card_image_le.trans_lt ?_
    rw [Finset.card_erase_of_mem (Finset.mem_univ i), Finset.card_univ, Fintype.card_fin]
    decide
  obtain ⟨c, hc, hfree⟩ := Finset.exists_mem_notMem_of_card_lt_card hcard
  have hmem : c ∈ ([1, 2, 3, 4] : List Int) := by simpa using hc
  refine ⟨c, hmem, ?_⟩
  rintro j rfl
  rcases eq_or_ne j i with rfl | hji
  · -- the free entry has channel 0, which is none of the four
    rw [hi] at hmem
    exact absurd hmem (by decide)
  · exact hfree (Finset.mem_image_of_mem _ (Finset.mem_erase.mpr ⟨hji, Finset.mem_univ j⟩))

/-- **Where an entry is free, so is a channel**, and `tmp_channel` stops at one. -/
theorem allocChannel_spec (hi : (list i).channel = 0) :
    1 ≤ allocChannel list ∧ allocChannel list ≤ 4 ∧
      ∀ j, (list j).channel ≠ allocChannel list := by
  have hpos : ∀ c ∈ ([1, 2, 3, 4] : List Int), 1 ≤ c ∧ c ≤ 4 := by decide
  obtain ⟨c, hc, hfree⟩ := exists_free_channel hi
  have hunused : !channelUsed list c := by
    rw [Bool.not_eq_true', ← Bool.not_eq_true, channelUsed_iff (hpos c hc).1]
    rintro ⟨j, hj⟩
    exact hfree j hj
  have hfound : ([1, 2, 3, 4].find? fun c => !channelUsed list c).isSome :=
    List.find?_isSome.mpr ⟨c, hc, hunused⟩
  -- the one that the loop stops at need not be the same
  obtain ⟨c', hc'⟩ := Option.isSome_iff_exists.mp hfound
  have hmem' := hpos c' (List.mem_of_find?_eq_some hc')
  have hunused' := List.find?_some hc'
  rw [Bool.not_eq_true', ← Bool.not_eq_true, channelUsed_iff hmem'.1] at hunused'
  rw [allocChannel, hc', Option.getD_some]
  exact ⟨hmem'.1, hmem'.2, fun j hj => hunused' ⟨j, hj⟩⟩

/-! ## One message -/

/-- The version changes. -/
theorem nextVersion_ne (ver : BitVec 32) : nextVersion ver ≠ ver := by
  unfold nextVersion
  split_ifs with hver
  · rw [hver]
    decide
  · bv_omega

/-- It is never 0, which stands for no version. -/
theorem nextVersion_ne_zero (ver : BitVec 32) : nextVersion ver ≠ 0 := by
  unfold nextVersion
  split_ifs with hver
  · decide
  · bv_omega

/-- An entry gets a channel that no entry has, or none. -/
theorem Channels.update (h : Channels list) {lcd : LcdDevice}
    (hlcd : lcd.channel ≠ 0 →
      1 ≤ lcd.channel ∧ lcd.channel ≤ 4 ∧ ∀ j, (list j).channel ≠ lcd.channel) :
    Channels (Function.update list i lcd) where
  range j hj := by
    rcases eq_or_ne j i with rfl | hji
    · rw [Function.update_self] at hj ⊢
      exact ⟨(hlcd hj).1, (hlcd hj).2.1⟩
    · rw [Function.update_of_ne hji] at hj ⊢
      exact h.range j hj
  distinct j k hj heq := by
    -- the new channel meets no other, and two old ones are distinct already
    rcases eq_or_ne j i with rfl | hji <;> rcases eq_or_ne k j with rfl | hkj
    · rfl
    · rw [Function.update_self] at hj heq
      rw [Function.update_of_ne hkj] at heq
      exact absurd heq.symm ((hlcd hj).2.2 k)
    · rfl
    · rw [Function.update_of_ne hji] at hj heq
      rcases eq_or_ne k i with rfl | hki
      · rw [Function.update_self] at heq
        exact absurd heq ((hlcd (heq ▸ hj)).2.2 j)
      · rw [Function.update_of_ne hki] at heq
        exact h.distinct j k hj heq

variable {s s' : LcdTask} {msg : LcdMsg} {devname : CText} {uart : Uart}

/-- A message that changes neither the list nor the version is in order. -/
theorem stepOk_same (hs : Channels s.list) (hlist : s'.list = s.list) (hversion : s'.version = s.version) :
    StepOk msg s s' where
  channels := by rwa [hlist]
  changes := by cases msg <;> exact .inl hlist
  version := iff_of_false (not_not.mpr hversion) (not_not.mpr hlist)
  nonzero := by rw [hversion]; exact id

/-- One entry changes, and with it the version. -/
theorem stepOk_update {lcd : LcdDevice} (hlist : s'.list = Function.update s.list i lcd)
    (hversion : s'.version = nextVersion s.version) (hs : Channels s'.list)
    (hne : lcd.channel ≠ (s.list i).channel) (hchanges : Changes s.list s'.list msg) :
    StepOk msg s s' where
  channels := hs
  changes := hchanges
  version := by
    rw [hversion, hlist]
    refine iff_of_true (nextVersion_ne s.version) fun heq => hne ?_
    rw [← Function.update_eq_self_iff.mp heq]
  nonzero _ := by
    rw [hversion]
    exact nextVersion_ne_zero s.version

/-- Where no entry is free nothing happens. -/
theorem ttyusbAdd_full (h : ¬∃ i, (s.list i).channel = 0) : ttyusbAdd devname uart s = some s := by
  cases hfind : findEntry s.list fun lcd => lcd.channel = 0 with
  | none => rw [ttyusbAdd, hfind]
  | some i => exact absurd ⟨i, of_decide_eq_true (findEntry_eq_some hfind)⟩ h

/-- Otherwise the device is opened for a free entry. -/
theorem ttyusbAdd_free (h : ∃ i, (s.list i).channel = 0) :
    ∃ i, (s.list i).channel = 0 ∧
      ttyusbAdd devname uart s = openEntry i (allocChannel s.list) devname uart s := by
  obtain ⟨j, hj⟩ := h
  obtain ⟨i, hi⟩ : ∃ i, findEntry s.list (fun lcd => lcd.channel = 0) = some i :=
    exists_findEntry (decide_eq_true hj)
  refine ⟨i, of_decide_eq_true (findEntry_eq_some hi), ?_⟩
  have hpos : 0 < allocChannel s.list := (allocChannel_spec hj).1
  rw [ttyusbAdd, hi]
  exact if_pos hpos

/-- A copy stays in its array if there is room for the NUL. -/
theorem strcpy_eq_some_iff {size : Nat} {src name : CText} :
    strcpy size src = some name ↔ src.strlen < size ∧ name = src := by
  unfold strcpy
  split_ifs with hlen <;> simp [hlen, eq_comm]

/-- The entry gets the device, or the list stays as it is. -/
theorem openEntry_cases {channel : Int} (h : openEntry i channel devname uart s = some s') :
    s'.list = s.list ∧ s'.version = s.version ∨
      s'.list = Function.update s.list i { s.list i with name := devname, channel := channel } ∧
        s'.version = nextVersion s.version := by
  unfold openEntry at h
  simp only [Option.bind_eq_bind, Option.bind_eq_some_iff, Prod.exists] at h
  obtain ⟨-, -, -, -, -, -, -, ret, probes, -, h⟩ := h
  -- only an open that went well is followed by the store
  split_ifs at h
  · obtain ⟨stopped, -, hcopy⟩ := Option.bind_eq_some_iff.mp h
    obtain ⟨name, hname, hs'⟩ := Option.bind_eq_some_iff.mp hcopy
    rw [← Option.some.inj hs', (strcpy_eq_some_iff.mp hname).2]
    exact .inr ⟨rfl, rfl⟩
  · rw [← Option.some.inj h]
    exact .inl ⟨rfl, rfl⟩

/-- The first entry with the name goes, if there is one. -/
theorem ttyusbRemove_cases (devname : CText) (s : LcdTask) :
    ttyusbRemove devname s = some s ∨
      ∃ i, (s.list i).channel ≠ 0 ∧ devname = (s.list i).name ∧ ttyusbRemove devname s =
        (ca310Close (s.list i).channel s.probes).map fun closed =>
          ⟨Function.update s.list i .zero, nextVersion s.version, closed.2⟩ := by
  unfold ttyusbRemove
  cases hfind : findEntry s.list fun lcd =>
      0 < lcd.channel ∧ devname.strlen = lcd.name.strlen ∧ devname = lcd.name with
  | none => exact .inl rfl
  | some i =>
    obtain ⟨hpos, -, hname⟩ := of_decide_eq_true (findEntry_eq_some hfind)
    exact .inr ⟨i, hpos.ne', hname, Option.map_eq_bind.symm⟩

/-- **A message that can be handled** is handled as it should be. -/
theorem stepOk_of_step (hs : Channels s.list) (h : step msg s = some s') : StepOk msg s s' := by
  have hsame : s = s' → StepOk msg s s' := by
    rintro rfl
    exact stepOk_same hs rfl rfl
  rcases msg with ⟨_ | devname, uart⟩ | ⟨_ | devname⟩
  · exact hsame (Option.some.inj h)
  · by_cases hfree : ∃ i, (s.list i).channel = 0
    · obtain ⟨i, hi, hadd⟩ := @ttyusbAdd_free s devname uart hfree
      obtain ⟨hone, hfour, hunused⟩ := allocChannel_spec hi
      rw [step, hadd] at h
      rcases openEntry_cases h with ⟨hlist, hversion⟩ | ⟨hlist, hversion⟩
      · exact stepOk_same hs hlist hversion
      · refine stepOk_update hlist hversion ?_ (Ne.symm (hunused i))
          (.inr ⟨i, hi, ?_, fun j hj => ?_⟩)
        · rw [hlist]
          exact hs.update fun _ => ⟨hone, hfour, hunused⟩
        · rw [hlist, Function.update_self]
        · rw [hlist, Function.update_of_ne hj]
    · exact hsame (Option.some.inj ((ttyusbAdd_full hfree).symm.trans h))
  · exact hsame (Option.some.inj h)
  · rcases ttyusbRemove_cases devname s with heq | ⟨i, hi, hname, heq⟩
    · exact hsame (Option.some.inj (heq.symm.trans h))
    · rw [step, heq] at h
      obtain ⟨closed, -, rfl⟩ := Option.map_eq_some_iff.mp h
      -- an entry of zeros has no channel
      have hzero : LcdDevice.zero.channel = 0 := rfl
      exact stepOk_update rfl rfl (hs.update fun h => absurd hzero h) (hzero ▸ Ne.symm hi)
        (.inr ⟨i, hi, congrArg some hname, rfl⟩)

/-! ## The calls to `ca310.c` -/

/-- A text in zeros is found with a NUL behind it, or in it. -/
theorem cstr_isSome_iff {text : List Byte} {n : Nat} (hlen : text.length ≤ n) :
    (cstr (Vector.ofFn fun i : Fin n => text.getD i 0)).isSome ↔ text.length < n ∨ 0 ∈ text := by
  rw [← zero_mem_iff hlen, cstr]
  split_ifs with hnul
  · exact iff_of_true rfl hnul
  · exact iff_of_false (by simp) hnul

/-- The test prints the reply of a device that was opened. -/
theorem ca310Test_isSome_iff (fd : Int) (reads : List Piece) :
    (ca310Test fd reads).isSome ↔ (0 < fd → ReplyFits 1024 reads) := by
  unfold ca310Test
  split_ifs with hfd
  · rw [forall_prop_of_true hfd, uartReadEnd_zeroed (show 1024 ≤ bufSize from le_rfl), ReplyFits]
    by_cases hfits : (taken reads).length ≤ 1024
    · rw [if_pos hfits, and_iff_right hfits, ← cstr_isSome_iff hfits]
      simp only [Option.bind_eq_bind, Option.bind_some]
      cases cstr (Vector.ofFn fun i : Fin 1024 => (taken reads).getD i 0) <;> rfl
    · rw [if_neg hfits]
      exact iff_of_false (by simp) fun h => hfits h.1
  · simp [hfd]

/-- The key is looked for in the first four bytes of the buffer. -/
theorem strncmp_ok_iff {text : List Byte} :
    strncmp cmdOkKey (Vector.ofFn fun i : Fin 32 => text.getD i 0).toList cmdOkKey.length = true ↔
      cmdOkKey <+: text := by
  have htake : (Vector.ofFn fun i : Fin 32 => text.getD i 0).toList.take 4 =
      [text.getD 0 0, text.getD 1 0, text.getD 2 0, text.getD 3 0] := by
    rw [Vector.toList_ofFn, List.ofFn_succ, List.ofFn_succ, List.ofFn_succ, List.ofFn_succ]
    rfl
  unfold strncmp
  rw [show cmdOkKey.length = 4 from rfl, htake]
  -- behind the end of the text there are zeros, and the key has none
  rcases text with _ | ⟨a, _ | ⟨b, _ | ⟨c, _ | ⟨d, rest⟩⟩⟩⟩
  · simp [cmdOkKey]
  · simp [cmdOkKey]
  · simp [cmdOkKey]
  · simp [cmdOkKey]
  · simp [cmdOkKey]

/-- On the probe that there is, the reply decides. -/
theorem ca310StopFlickMode_isSome_iff (reads : List Piece) (probes : Ca310Probes) :
    (ca310StopFlickMode 1 reads probes).isSome ↔ StopFits reads := by
  have hone : ¬Refused 1 := by decide
  have hprobe : probeAt 1 = some 1 := rfl
  unfold ca310StopFlickMode
  rw [if_neg hone, hprobe, uartReadEnd_zeroed (show 32 ≤ bufSize by decide), StopFits, ReplyFits]
  simp only [Option.bind_eq_bind, Option.bind_some]
  by_cases hfits : (taken reads).length ≤ 32
  · rw [if_pos hfits, Option.bind_some, and_iff_right hfits]
    split_ifs with hsome hok
    · -- with the key in front the text is not printed
      refine iff_of_true rfl ?_
      rcases hfits.lt_or_eq with hlt | hfull
      · exact .inl (.inl hlt)
      · exact .inr ⟨hfull, strncmp_ok_iff.mp hok⟩
    · rw [or_iff_left fun h => hok (strncmp_ok_iff.mpr h.2), ← cstr_isSome_iff hfits]
      dsimp only
      cases cstr (Vector.ofFn fun i : Fin 32 => (taken reads).getD i 0) <;> rfl
    · exact iff_of_true rfl (.inl (.inl (by omega)))
  · rw [if_neg hfits]
    exact iff_of_false (by simp) fun h => h.elim (fun h => hfits h.1) fun h => hfits h.1.le

/-- The probes after `ca310_open` on the channel 1. -/
def probesOpened (devname : CText) (fd : Int) (probes : Ca310Probes) : Ca310Probes :=
  Function.update probes 1 ⟨1, fd, devPath devname, .idle⟩

/-- The path of a device is five bytes longer than its name. -/
theorem ca310Open_one (fd : Int) (probes : Ca310Probes) :
    ca310Open 1 (devPath devname) fd probes =
      if devname.strlen < 27 then some (0, probesOpened devname fd probes) else none := by
  have hpath : (devPath devname).strlen = devname.strlen + 5 := rfl
  have hone : ¬Refused 1 := by decide
  have hprobe : probeAt 1 = some 1 := rfl
  unfold ca310Open
  rw [if_neg hone, hprobe]
  -- 32 bytes hold the path and its NUL, or the copy leaves the array
  split_ifs with hshort
  · have hcopy := strcpy_eq_some_iff.mpr ⟨show (devPath devname).strlen < 32 by omega, rfl⟩
    simp only [Option.bind_eq_bind, Option.bind_some, hcopy]
    rfl
  · have hcopy : strcpy 32 (devPath devname) = none := if_neg (by omega)
    simp only [Option.bind_eq_bind, Option.bind_some, hcopy, Option.bind_none]

/-- Stopping the flicker mode changes at most the mode. -/
theorem devName_ca310StopFlickMode {channel ret : Int} {reads : List Piece} {probes probes' : Ca310Probes}
    (h : ca310StopFlickMode channel reads probes = some (ret, probes')) (k : Fin 2) :
    (probes' k).devName = (probes k).devName := by
  unfold ca310StopFlickMode at h
  split_ifs at h
  · rw [(Prod.mk.inj (Option.some.inj h)).2]
  · obtain ⟨k', -, hread⟩ := Option.bind_eq_some_iff.mp h
    obtain ⟨got, -, hstatus⟩ := Option.bind_eq_some_iff.mp hread
    dsimp only at hstatus
    -- no reply, an OK, and anything else, which is printed
    split_ifs at hstatus
    · rw [← (Prod.mk.inj (Option.some.inj hstatus)).2]
      rcases eq_or_ne k k' with rfl | hne
      · rw [Function.update_self]
      · rw [Function.update_of_ne hne]
    · obtain ⟨-, -, hret⟩ := Option.bind_eq_some_iff.mp hstatus
      rw [(Prod.mk.inj (Option.some.inj hret)).2]
    · rw [(Prod.mk.inj (Option.some.inj hstatus)).2]

/-! ## Opening a device -/

/-- The device gets the channel 1, and everything fits. -/
theorem openEntry_one_isSome_iff : (openEntry i 1 devname uart s).isSome ↔
    devname.strlen < 27 ∧ (0 < uart.testFd → ReplyFits 1024 uart.testReads) ∧ StopFits uart.reads := by
  have hreset : ∃ probes, ca310Reset 1 s.probes = some (0, probes) := ⟨_, rfl⟩
  obtain ⟨probes, hreset⟩ := hreset
  have hpath : (devPath devname).strlen = devname.strlen + 5 := rfl
  rw [← ca310Test_isSome_iff]
  unfold openEntry
  simp only [hreset, Option.bind_eq_bind, Option.bind_some]
  by_cases hshort : devname.strlen < 27
  · -- a name that fits the probe fits the path and the entry, too
    have hcopy := strcpy_eq_some_iff.mpr ⟨show (devPath devname).strlen < 128 by omega, rfl⟩
    have hname := strcpy_eq_some_iff.mpr ⟨show devname.strlen < 64 by omega, rfl⟩
    have hopen : ca310Open 1 (devPath devname) uart.fd probes = _ :=
      (ca310Open_one uart.fd probes).trans (if_pos hshort)
    rw [hcopy, Option.bind_some, and_iff_right hshort]
    cases ca310Test uart.testFd uart.testReads with
    | none => simp
    | some done =>
      have hstop := ca310StopFlickMode_isSome_iff uart.reads (probesOpened devname uart.fd probes)
      simp only [Option.bind_some, hopen, if_true, hname, Option.isSome_some, true_and]
      rw [← hstop]
      cases ca310StopFlickMode 1 uart.reads (probesOpened devname uart.fd probes) <;> rfl
  · -- `ca310_open` copies the path to 32 bytes
    refine iff_of_false (fun h => ?_) fun h => hshort h.1
    obtain ⟨s', hs'⟩ := Option.isSome_iff_exists.mp h
    obtain ⟨path, hpath', hs'⟩ := Option.bind_eq_some_iff.mp hs'
    obtain ⟨-, rfl⟩ := strcpy_eq_some_iff.mp hpath'
    obtain ⟨done, -, hs'⟩ := Option.bind_eq_some_iff.mp hs'
    rw [ca310Open_one, if_neg hshort] at hs'
    cases hs'

/-- The device is in the entry then, and its path in the probe. -/
theorem openEntry_one (h : openEntry i 1 devname uart s = some s') :
    s'.list = Function.update s.list i { s.list i with name := devname, channel := 1 } ∧
      (s'.probes 1).devName = devPath devname := by
  have hshort := (openEntry_one_isSome_iff.mp (by rw [h]; rfl)).1
  unfold openEntry at h
  simp only [Option.bind_eq_bind, Option.bind_eq_some_iff, Prod.exists] at h
  -- reset, test and open went through, so that the store is reached
  obtain ⟨-, probes, -, path, hpath, -, -, ret, probes', hopen, h⟩ := h
  obtain ⟨-, rfl⟩ := strcpy_eq_some_iff.mp hpath
  rw [ca310Open_one, if_pos hshort] at hopen
  obtain ⟨rfl, rfl⟩ := Prod.mk.inj (Option.some.inj hopen)
  rw [if_pos rfl] at h
  obtain ⟨stopped, hstop, hcopy⟩ := Option.bind_eq_some_iff.mp h
  obtain ⟨name, hname, hs'⟩ := Option.bind_eq_some_iff.mp hcopy
  rw [← Option.some.inj hs', (strcpy_eq_some_iff.mp hname).2]
  refine ⟨rfl, (devName_ca310StopFlickMode hstop 1).trans ?_⟩
  rw [probesOpened, Function.update_self]

/-- **The second device** would be reset behind the end of the probes. -/
theorem openEntry_two : openEntry i 2 devname uart s = none := rfl

/-! ## Any messages -/

/-- There is one device at most: its channel is 1, and the probe of that has its path. -/
structure Inv (s : LcdTask) : Prop where
  channels : Channels s.list
  one : ∀ i, (s.list i).channel ≠ 0 → (s.list i).channel = 1
  device : ∀ i, (s.list i).channel ≠ 0 → (s.probes 1).devName = devPath (s.list i).name

/-- The registry is in order at boot. -/
theorem inv_initLcd (version : BitVec 32) : Inv (initLcd version) where
  channels := ⟨fun _ h => absurd rfl h, fun _ _ h => absurd rfl h⟩
  one _ h := absurd rfl h
  device _ h := absurd rfl h

/-- Where there is no device the first channel is taken, and else the second. -/
theorem allocChannel_eq (hs : Inv s) :
    allocChannel s.list = if ∀ i, (s.list i).channel = 0 then 1 else 2 := by
  have hused : ∀ c, 0 < c → (channelUsed s.list c = true ↔ ∃ j, (s.list j).channel = c) :=
    fun c hc => channelUsed_iff hc
  -- no entry has the second channel, by the invariant
  have htwo : channelUsed s.list 2 = false := by
    rw [← Bool.not_eq_true, hused 2 (by decide)]
    rintro ⟨j, hj⟩
    have hone := hs.one j (by omega)
    omega
  unfold allocChannel
  split_ifs with hnone
  · have hone : channelUsed s.list 1 = false := by
      rw [← Bool.not_eq_true, hused 1 (by decide)]
      rintro ⟨j, hj⟩
      rw [hnone j] at hj
      cases hj
    simp [hone]
  · have hone : channelUsed s.list 1 = true := by
      obtain ⟨j, hj⟩ := not_forall.mp hnone
      exact (hused 1 (by decide)).mpr ⟨j, hs.one j hj⟩
    simp [hone, htwo]

/-- There is always room for an entry. -/
theorem exists_free (hs : Inv s) : ∃ i, (s.list i).channel = 0 := by
  by_contra hfull
  rw [not_exists] at hfull
  -- the first two entries would both have the channel 1
  have heq := hs.channels.distinct 0 1 (hfull 0) (by rw [hs.one 0 (hfull 0), hs.one 1 (hfull 1)])
  cases heq

/-- Closing keeps the names. -/
theorem ca310Close_one (probes : Ca310Probes) : ∃ ret probes', ca310Close 1 probes = some (ret, probes') ∧
    ∀ k, (probes' k).devName = (probes k).devName := by
  unfold ca310Close
  rw [if_neg (by decide), show probeAt 1 = some 1 from rfl]
  simp only [Option.bind_eq_bind, Option.bind_some]
  split_ifs
  · refine ⟨_, _, rfl, fun k => ?_⟩
    rcases eq_or_ne k 1 with rfl | hne
    · rw [Function.update_self]
    · rw [Function.update_of_ne hne]
  · exact ⟨_, _, rfl, fun k => rfl⟩

/-- **When a message can be handled.** -/
theorem step_isSome_iff (hs : Inv s) : (step msg s).isSome ↔ Fits msg s := by
  rcases msg with ⟨_ | devname, uart⟩ | ⟨_ | devname⟩
  · exact iff_of_true rfl trivial
  -- an ADD opens a free entry, on the channel that is free
  · obtain ⟨i, hi, hadd⟩ := @ttyusbAdd_free s devname uart (exists_free hs)
    rw [step, hadd, allocChannel_eq hs, Fits]
    split_ifs with hnone
    · rw [openEntry_one_isSome_iff]
      exact (and_iff_right hnone).symm
    · rw [openEntry_two]
      exact iff_of_false (by simp) fun h => hnone h.1
  · exact iff_of_true rfl trivial
  -- a REMOVE closes the entry, whose channel is inside the array
  · refine iff_of_true ?_ trivial
    rcases ttyusbRemove_cases devname s with heq | ⟨i, hi, -, heq⟩
    · rw [step, heq]
      rfl
    · obtain ⟨ret, probes, hclose, -⟩ := ca310Close_one s.probes
      rw [step, heq, hs.one i hi, hclose]
      rfl

/-- The device that comes is the only one, and the one that goes was. -/
theorem step_inv (hs : Inv s) (h : step msg s = some s') : Inv s' := by
  have hchannels := (stepOk_of_step hs.channels h).channels
  have hsame : s = s' → Inv s' := fun heq => heq ▸ hs
  rcases msg with ⟨_ | devname, uart⟩ | ⟨_ | devname⟩
  · exact hsame (Option.some.inj h)
  · have hfits := (step_isSome_iff hs).mp (by rw [h]; rfl)
    obtain ⟨i, hi, hadd⟩ := @ttyusbAdd_free s devname uart (exists_free hs)
    rw [step, hadd, allocChannel_eq hs, if_pos hfits.1] at h
    obtain ⟨hlist, hdev⟩ := openEntry_one h
    -- every other entry has no channel
    have hother : ∀ j, (s'.list j).channel ≠ 0 → j = i := by
      intro j hj
      by_contra hne
      rw [hlist, Function.update_of_ne hne] at hj
      exact hj (hfits.1 j)
    refine ⟨hchannels, fun j hj => ?_, fun j hj => ?_⟩
    · rw [hother j hj, hlist, Function.update_self]
    · rw [hother j hj, hlist, Function.update_self, hdev]
  · exact hsame (Option.some.inj h)
  · rcases ttyusbRemove_cases devname s with heq | ⟨i, hi, -, heq⟩
    · exact hsame (Option.some.inj (heq.symm.trans h))
    · obtain ⟨ret, probes, hclose, hdev⟩ := ca310Close_one s.probes
      rw [step, heq, hs.one i hi, hclose] at h
      obtain rfl := Option.some.inj h
      -- the entries that are left had their device before
      have hleft : ∀ j, ((Function.update s.list i .zero) j).channel ≠ 0 →
          (Function.update s.list i .zero) j = s.list j := by
        intro j hj
        rcases eq_or_ne j i with rfl | hne
        · rw [Function.update_self] at hj
          exact absurd rfl hj
        · rw [Function.update_of_ne hne]
      refine ⟨hchannels, fun j hj => ?_, fun j hj => ?_⟩
      · have hj' := hleft j hj
        dsimp only at hj ⊢
        rw [hj'] at hj ⊢
        exact hs.one j hj
      · have hj' := hleft j hj
        dsimp only at hj ⊢
        rw [hj'] at hj ⊢
        exact (hdev 1).trans (hs.device j hj)

/-- A message that fits is handled, and as it should be. -/
theorem step_sound_iff (hs : Inv s) : Sound msg s ↔ Fits msg s := by
  rw [← step_isSome_iff hs, Option.isSome_iff_exists]
  exact exists_congr fun s' => and_iff_left_of_imp fun h => stepOk_of_step hs.channels h

/-- **The registry of the probes** is kept along any messages exactly when each device that comes is
the only one, with a name and replies that fit. -/
theorem probes_sound_iff (msgs : List LcdMsg) (version : BitVec 32) :
    Along step Sound msgs (initLcd version) ↔ Along step Fits msgs (initLcd version) :=
  along_congr (fun _ _ => step_sound_iff) (fun _ _ _ hs _ hstep => step_inv hs hstep) msgs
    (inv_initLcd version)

/-- `ttyUSB0` and so on. -/
def ttyUSB (n : Fin 8) : CText :=
  ⟨[0x74, 0x74, 0x79, 0x55, 0x53, 0x42, 0x30 + BitVec.ofNat 8 n], by revert n; decide⟩

/-- A device that says nothing. -/
def silent : Uart := ⟨3, [], 3, []⟩

/-- Two devices come one after the other. -/
def secondDevice : List LcdMsg :=
  [.ttyusbAdd (some (ttyUSB 0)) silent, .ttyusbAdd (some (ttyUSB 1)) silent]

/-- The second device goes to channel 2, behind the array. -/
theorem secondDevice_not_sound : ¬Along step Sound secondDevice (initLcd 0) := by
  rintro ⟨⟨s₁, hs₁, -⟩, hsecond⟩
  have hfits := (step_sound_iff (step_inv (inv_initLcd 0) hs₁)).mp (hsecond s₁ hs₁).1
  -- the first entry has the channel 1, so the second device gets the one behind the two probes
  have hlist := (openEntry_one (i := 0) hs₁).1
  have hzero := hfits.1 0
  rw [hlist, Function.update_self] at hzero
  cases hzero

/-- **The probe of an entry has its device**, after any messages. -/
theorem run_registered (msgs : List LcdMsg) (version : BitVec 32) {s' : LcdTask}
    (hrun : runAll step msgs (initLcd version) = some s') (i : Fin 4)
    (hi : (s'.list i).channel ≠ 0) : ∃ k, probeAt (s'.list i).channel = some k ∧
      (s'.probes k).devName = devPath (s'.list i).name := by
  have hs' : Inv s' := runAll_inv (fun _ _ _ hs hstep => step_inv hs hstep) (inv_initLcd version) hrun
  exact ⟨1, by rw [hs'.one i hi]; rfl, hs'.device i hi⟩

end PgClient.Lcd.Registry
