import PgClient.OpenShort.Gate

/-!
# Switching the panel on and off

`client_pg_shutON`. Switching on goes through the open/short test, the power
board and the signal interface; the flag `pg_pwr_status` is set at the end. The
function leaves early when the test finds no clean side, and when the signal
type is not known; a missing module file skips all of it but the messages of
success.

* `shutON_cases` — the five things a call can do.
* `consistent_iff` — over any sequence of calls, the flag agrees with the board
  and success is only told of a powered panel, exactly when no call leaves by
  one of the wrong ways while the panel is off.
-/

namespace PgClient.Pg

open DeviceLog Power OpenShort
open scoped Numerals

/-! ## The code -/

def eSignalTypeLvds : Int := 0
def eSignalTypeEdp : Int := 1
def eSignalTypeMipi : Int := 2
def eSignalTypeTtl : Int := 4

/-- `TST_PATH`. -/
def tstPath : String := "./cfg/tst/"

def setPwrCheckPause (bPause : Bool) : Call Unit :=
  modMem fun m => { m with bPwrUpdatePaused := bPause }

def setNtcCheckPause (bPause : Bool) : Call Unit :=
  modMem fun m => { m with bNtcCheckPaused := bPause }

def pwrSetState (bOn : Bool) (channel : Int) : Call Unit := do
  emit (.pwrSnd2Serial (if bOn then .powerOn else .powerOff) channel)
  setPwrCheckPause !bOn

/-- Where the NTC check is enabled. -/
def pauseNtcCheck (setup : Setup) (bPause : Bool) : Call Unit :=
  if setup.monitorCfg.ntcEnable ≠ 0 then setNtcCheckPause bPause else pure ()

def setVcomVolta (maxLimit volta : Nat) : Call Unit := do
  emit (.mcuSetVcomMaxVolt maxLimit)
  msleep 10
  emit (.mcuSetVcomVolt volta)
  msleep 10
  emit (.mcuSetVcomEnable (0 < volta))

def clientPgShowPtn (ptnId : Int) : Call Unit := do
  emit (.setCurrentPicture ptnId)
  modMem fun m => { m with pgCurPtnId := ptnId }

/-- Before the power: the channel to be powered, `none` when the open/short test
finds no clean side. -/
def powerOnChannel : Call (Option Int) := do
  let m ← getMem
  if m.setup.timsignaltype = eSignalTypeTtl then
    if m.setup.monitorCfg.openShortEnable ≠ 0 then
      let channel ← openShortTestSingalAndIo m.setup.monitorCfg
      pure (if channel ≤ 0 then none else some channel)
    else pure (some (pwrChannelVal .all))
  else pure (some (pwrChannelVal .all))

/-- After the power: the signal interface, `none` for a type that is not known. -/
def openSignal (setup : Setup) (channel : Int) : Option (Call Unit) :=
  if setup.timsignaltype = eSignalTypeEdp then some do
    emit .dpSignalInterfaceInit
    emit (.fpgaWrite16bits 0x150 1)
    emit (.icMgrSndInitCode 0)
    emit (.icMgrSndInitCode 1)
    emit (.icMgrSndInitCode 2)
    emit (.icMgrSndInitCode 3)
  else if setup.timsignaltype = eSignalTypeMipi then some do
    emit .mipiSiganlInterfaceInit
    emit (.mipi2828Open channel)
    emit (.fpgaWrite16bits 0x150 2)
    emit (.icMgrSndInitCode 0)
    emit (.icMgrSndInitCode 1)
    emit (.icMgrSndInitCode 2)
    emit (.icMgrSndInitCode 3)
  else if setup.timsignaltype = eSignalTypeLvds then some do
    emit .sp6OpenLvdsSignal
    emit .lvdsSignalInterfaceInit
    setVcomVolta setup.vcomMaxVolt setup.vcomSetVolt
    emit (.fpgaWrite16bits 0x150 4)
    emit (.icMgrSndInitCode 0)
    emit (.icMgrSndInitCode 1)
  else if setup.timsignaltype = eSignalTypeTtl then some do
    emit .lvdsSignalInterfaceInit
    emit .sp6OpenTtlSignal
    pauseNtcCheck setup false
    setVcomVolta setup.vcomMaxVolt setup.vcomSetVolt
    emit (.fpgaWrite16bits 0x150 4)
    emit (.icMgrSndInitCode 0)
    emit (.icMgrSndInitCode 1)
  -- the `default` of the source reports the type and returns without a signal
  else none

/-- The counterpart; nothing is closed for eDP. -/
def closeSignal (setup : Setup) : Call Unit :=
  if setup.timsignaltype = eSignalTypeLvds then do
    emit .sp6CloseLvdsSignal
    emit (.mcuSetVcomEnable false)
  else if setup.timsignaltype = eSignalTypeMipi then do
    emit .mipi2828Close
    emit (.fpgaWrite 0xA9 0)
  else if setup.timsignaltype = eSignalTypeTtl then do
    emit .sp6CloseTtlSignal
    emit (.mcuSetVcomEnable false)
  else pure ()

/-- The messages at the end of switching on. -/
def powerOnEnd : Call (Option Int) := do
  clientNotifyMsg 0 .powerOn
  emit .boxNotifyPowerOnEnd
  pure (some 0)

/-- The power goes on, then the interface; the flag is set when both are up. A
`return` without a value is `none`. -/
def doPowerOn (channel ptnId : Int) : Call (Option Int) := do
  pwrSetState true channel
  emit (.doIcNonePowerTiming true)
  clientPgShowPtn ptnId
  let m ← getMem
  match openSignal m.setup channel with
  -- power is on by now, but `pg_pwr_status` is not set and nobody is told
  | none => pure none
  | some init =>
    init
    emit (.clientRebackPower 1)
    modMem fun m => { m with pgPwrStatus := 1 }
    powerOnEnd

/-- What follows the power, down to the messages. -/
def afterPowerOff : Call Unit := do
  let m ← getMem
  emit (.doIcNonePowerTiming false)
  pauseNtcCheck m.setup true
  closeSignal m.setup
  emit (.fpgaWrite16bits 0x150 0)
  emit (.fpgaWrite 0x56 1)
  emit (.clientRebackPower 0)
  emit .boxNotifyPowerDown
  clientNotifyMsg 0 .powerOff

def doPowerOff : Call (Option Int) := do
  pwrSetState false (pwrChannelVal .all)
  afterPowerOff
  modMem fun m => { m with pgPwrStatus := 0 }
  pure (some 0)

/-- `client_pg_shutON`; the channel it is given is shadowed. -/
def clientPgShutON (enable : Int) (pModelName : String) (_channel ptnId : Int) :
    Call (Option Int) := do
  if enable = 1 then
    let m ← getMem
    if m.setup.fileExists (tstPath ++ "/" ++ pModelName) then
      emit .boxShowBeingPowerOnMsg
      let channel ← powerOnChannel
      match channel with
      | none =>
        emit .boxNotifyOpenshortErrorDown
        pure (some (-1))
      | some channel => doPowerOn channel ptnId
    -- a missing file skips the power-on and ends like a successful one
    else powerOnEnd
  else doPowerOff

/-! ## What its parts do -/

/-- The command to the power board. -/
def pwrCmd : Event → Option PwrCmd
  | .pwrSnd2Serial cmd _ => some cmd
  | _ => none

/-- The messages of success. -/
def Success : Event → Prop
  | .clientNotifyMsg msgFlag .powerOn => msgFlag = 0
  | .boxNotifyPowerOnEnd => True
  | _ => False

/-- Neither. -/
def Quiet (e : Event) : Prop := pwrCmd e = none ∧ ¬ Success e

/-- What the parts below do not touch. -/
def kept (m : Mem) : Setup × Int × BoxCurState := (m.setup, m.pgPwrStatus, m.boxCurState)

/-- Checks in a row are quiet if each one is. -/
theorem only_checkAll {α : Type} {check : α → Call Int} (h : ∀ a, Only Quiet kept (check a))
    (as : List α) (checkRet : Int) : Only Quiet kept (checkAll check as checkRet) := by
  induction as generalizing checkRet with
  | nil => exact .pure _
  | cons a as ih => exact .bind (h a) fun ret => ih _

/-- Clearing pins is quiet. -/
theorem only_clearGpios (gpios : List Nat) : Only Quiet kept (clearGpios gpios) := by
  induction gpios with
  | nil => exact .pure _
  | cons gpio rest ih => exact .emit_bind ⟨rfl, id⟩ <| ih

/-- The open/short test is quiet. -/
theorem only_openShortTestSingalAndIo (cfg : MonitorCfg) :
    Only Quiet kept (openShortTestSingalAndIo cfg) := by
  -- none of the calls of the test switches power or tells the panel's state
  have hpin : ∀ channel i, Only Quiet kept (checkPin cfg channel i) := by
    intro channel i
    refine .emit_bind ⟨rfl, id⟩ <| .emit_bind ⟨rfl, id⟩ <|
      .bind (.ask fun _ => ⟨rfl, id⟩) fun value => ?_
    exact .ite (.emit_bind ⟨rfl, id⟩ <| .pure _)
      (.ite (.emit_bind ⟨rfl, id⟩ <| .pure _) (.emit_bind ⟨rfl, id⟩ <| .pure _))
  have hgpio : ∀ channel gpio, Only Quiet kept (checkGpioShort cfg channel gpio) := by
    intro channel gpio
    refine .emit_bind ⟨rfl, id⟩ <| .emit_bind ⟨rfl, id⟩ <|
      .bind (.ask fun _ => ⟨rfl, id⟩) fun value => .emit_bind ⟨rfl, id⟩ <| ?_
    exact .ite (.emit_bind ⟨rfl, id⟩ <| .pure _)
      (.ite (.emit_bind ⟨rfl, id⟩ <| .pure _) (.emit_bind ⟨rfl, id⟩ <| .pure _))
  have hside : ∀ channel, Only Quiet kept (testSide cfg channel) := by
    intro channel
    refine .emit_bind ⟨rfl, id⟩ <| .bind ?_ fun _ => .bind ?_ fun _ =>
      .bind (.ite (.emit ⟨rfl, id⟩) (.pure _)) fun _ => .emit_bind ⟨rfl, id⟩ <| .pure _
    · exact .emit_bind ⟨rfl, id⟩ <| .emit_bind ⟨rfl, id⟩ <|
        .bind (.ask fun _ => ⟨rfl, id⟩) fun _ => .bind (only_checkAll (hpin channel) _ _) fun _ =>
        .emit_bind ⟨rfl, id⟩ <| .emit_bind ⟨rfl, id⟩ <| .pure _
    · exact .bind (only_clearGpios _) fun _ => .emit_bind ⟨rfl, id⟩ <|
        .bind (.ask fun _ => ⟨rfl, id⟩) fun _ => .emit_bind ⟨rfl, id⟩ <|
        only_checkAll (hgpio channel) _ _
  refine .emit_bind ⟨rfl, id⟩ <| .emit_bind ⟨rfl, id⟩ <|
    .emit_bind ⟨rfl, id⟩ <| .bind (hside .left) fun left =>
    .bind (hside .right) fun right => .emit_bind ⟨rfl, id⟩ <|
    .emit_bind ⟨rfl, id⟩ <| .emit_bind ⟨rfl, id⟩ <| ?_
  exact .ite (.pure _) (.ite (.pure _) (.ite (.pure _) (.pure _)))

/-- Pausing the NTC check is quiet. -/
theorem only_pauseNtcCheck (setup : Setup) (bPause : Bool) :
    Only Quiet kept (pauseNtcCheck setup bPause) :=
  .ite (.modMem fun _ => rfl) (.pure _)

/-- Setting the VCOM voltage is quiet. -/
theorem only_setVcomVolta (maxLimit volta : Nat) :
    Only Quiet kept (setVcomVolta maxLimit volta) := by
  unfold setVcomVolta
  exact .emit_bind ⟨rfl, id⟩ <| .emit_bind ⟨rfl, id⟩ <|
    .emit_bind ⟨rfl, id⟩ <| .emit_bind ⟨rfl, id⟩ <| .emit ⟨rfl, id⟩

/-- The signal types that have an interface. -/
def Known (setup : Setup) : Prop :=
  setup.timsignaltype = eSignalTypeEdp ∨ setup.timsignaltype = eSignalTypeMipi ∨
    setup.timsignaltype = eSignalTypeLvds ∨ setup.timsignaltype = eSignalTypeTtl

/-- There is no interface for a type that is not known. -/
theorem openSignal_eq_none_iff {setup : Setup} {channel : Int} :
    openSignal setup channel = none ↔ ¬ Known setup := by
  unfold openSignal Known
  split_ifs with hedp hmipi hlvds httl
  · simp [hedp]
  · simp [hmipi]
  · simp [hlvds]
  · simp [httl]
  · simp [hedp, hmipi, hlvds, httl]

/-- Opening the interface is quiet. -/
theorem only_openSignal {setup : Setup} {channel : Int} {init : Call Unit}
    (h : openSignal setup channel = some init) : Only Quiet kept init := by
  unfold openSignal at h
  -- one case per signal type, in the order of the source
  split_ifs at h <;> obtain rfl := Option.some.inj h
  · exact .emit_bind ⟨rfl, id⟩ <| .emit_bind ⟨rfl, id⟩ <|
      .emit_bind ⟨rfl, id⟩ <| .emit_bind ⟨rfl, id⟩ <|
      .emit_bind ⟨rfl, id⟩ <| .emit ⟨rfl, id⟩
  · exact .emit_bind ⟨rfl, id⟩ <| .emit_bind ⟨rfl, id⟩ <|
      .emit_bind ⟨rfl, id⟩ <| .emit_bind ⟨rfl, id⟩ <|
      .emit_bind ⟨rfl, id⟩ <| .emit_bind ⟨rfl, id⟩ <| .emit ⟨rfl, id⟩
  · exact .emit_bind ⟨rfl, id⟩ <| .emit_bind ⟨rfl, id⟩ <|
      .bind (only_setVcomVolta _ _) fun _ => .emit_bind ⟨rfl, id⟩ <|
      .emit_bind ⟨rfl, id⟩ <| .emit ⟨rfl, id⟩
  · exact .emit_bind ⟨rfl, id⟩ <| .emit_bind ⟨rfl, id⟩ <|
      .bind (only_pauseNtcCheck _ _) fun _ =>
      .bind (only_setVcomVolta _ _) fun _ => .emit_bind ⟨rfl, id⟩ <|
      .emit_bind ⟨rfl, id⟩ <| .emit ⟨rfl, id⟩

/-- Closing it is quiet. -/
theorem only_closeSignal (setup : Setup) : Only Quiet kept (closeSignal setup) :=
  .ite (.emit_bind ⟨rfl, id⟩ <| .emit ⟨rfl, id⟩)
    (.ite (.emit_bind ⟨rfl, id⟩ <| .emit ⟨rfl, id⟩)
      (.ite (.emit_bind ⟨rfl, id⟩ <| .emit ⟨rfl, id⟩) (.pure _)))

/-- What follows the power is quiet. -/
theorem only_afterPowerOff : Only Quiet kept afterPowerOff := by
  unfold afterPowerOff
  exact .bind .getMem fun m => .emit_bind ⟨rfl, id⟩ <|
    .bind (only_pauseNtcCheck _ _) fun _ =>
    .bind (only_closeSignal _) fun _ => .emit_bind ⟨rfl, id⟩ <|
    .emit_bind ⟨rfl, id⟩ <| .emit_bind ⟨rfl, id⟩ <|
    .emit_bind ⟨rfl, id⟩ <| .emit ⟨rfl, id⟩

/-- Choosing the channel is quiet. -/
theorem only_powerOnChannel : Only Quiet kept powerOnChannel := by
  unfold powerOnChannel
  refine .bind .getMem fun m => .ite (.ite ?_ (.pure _)) (.pure _)
  exact .bind (only_openShortTestSingalAndIo _) fun _ => .pure _

/-- The open/short test is made, and finds no clean side. -/
def Refused (w : Board) : Prop :=
  w.mem.setup.timsignaltype = eSignalTypeTtl ∧ w.mem.setup.monitorCfg.openShortEnable ≠ 0 ∧
    ¬ Clean w.mem.setup.monitorCfg w .left ∧ ¬ Clean w.mem.setup.monitorCfg w .right

/-- The test gives no channel exactly where neither side is clean. -/
theorem ResultSound.nonpos_iff {cfg : MonitorCfg} {w : Board} {val : Int}
    (h : ResultSound cfg w val) : val ≤ 0 ↔ ¬ Clean cfg w .left ∧ ¬ Clean cfg w .right := by
  obtain ⟨hall, hleft, hright, hnone⟩ := h
  by_cases hl : Clean cfg w .left <;> by_cases hr : Clean cfg w .right
  · simp [hall.mpr ⟨hl, hr⟩, hl, pwrChannelVal]
  · simp [hleft.mpr ⟨hl, hr⟩, hl, pwrChannelVal]
  · simp [hright.mpr ⟨hl, hr⟩, hr, pwrChannelVal]
  · simp [hnone.mpr ⟨hl, hr⟩, hl, hr]

/-- No channel is chosen exactly where the call is refused. -/
theorem powerOnChannel_eq_none_iff {w w' : Board} {res : Option Int}
    (h : powerOnChannel w = .ok res w') : res = none ↔ Refused w := by
  unfold powerOnChannel at h
  obtain ⟨val, w'', hrun, hresult, -⟩ := run_openShortTestSingalAndIo w.mem.setup.monitorCfg w
  simp only [run_bind, run_getMem, run_ite, hrun, run_pure] at h
  unfold Refused
  -- the test fails, passes, is disabled, and is not for this interface
  split_ifs at h with httl henable hval
  · obtain ⟨rfl, -⟩ := EStateM.Result.ok.inj h
    simpa [httl, henable] using (ResultSound.nonpos_iff hresult).mp hval
  · obtain ⟨rfl, -⟩ := EStateM.Result.ok.inj h
    simpa [httl, henable] using mt (ResultSound.nonpos_iff hresult).mpr hval
  · obtain ⟨rfl, -⟩ := EStateM.Result.ok.inj h
    simp [not_not.mp henable]
  · obtain ⟨rfl, -⟩ := EStateM.Result.ok.inj h
    simp [httl]

/-! ## What a call can do -/

/-- From here to there: the commands the board was given, the flag, and whether
success was told. -/
structure Goes (w w' : Board) (cmds : List PwrCmd) (status : Int) (success : Prop) : Prop where
  log : ∃ es, w'.log = w.log ++ es ∧ es.filterMap pwrCmd = cmds ∧ ((∃ e ∈ es, Success e) ↔ success)
  setup : w'.mem.setup = w.mem.setup
  status : w'.mem.pgPwrStatus = status
  box : w'.mem.boxCurState = w.mem.boxCurState

namespace Goes

variable {w w₁ w₂ : Board} {cmds cmds' : List PwrCmd} {status status' : Int} {p q : Prop}

/-- Two parts in order send what each sends. -/
theorem trans (h : Goes w w₁ cmds status p) (h' : Goes w₁ w₂ cmds' status' q) :
    Goes w w₂ (cmds ++ cmds') status' (p ∨ q) := by
  obtain ⟨es, hlog, hcmds, hp⟩ := h.log
  obtain ⟨fs, hlog', hcmds', hq⟩ := h'.log
  refine ⟨⟨es ++ fs, by rw [hlog', hlog, List.append_assoc], ?_, ?_⟩, ?_, h'.status, ?_⟩
  · rw [List.filterMap_append, hcmds, hcmds']
  · rw [← hp, ← hq]
    simp only [List.mem_append, or_and_right, exists_or]
  · -- neither of the two calls changes the setup or the box's copy
    rw [h'.setup, h.setup]
  · rw [h'.box, h.box]

/-- What is told may be put in other words. -/
theorem mono (h : Goes w w₁ cmds status p) (hpq : p ↔ q) : Goes w w₁ cmds status q := by
  rwa [← propext hpq]

end Goes

/-- A quiet program that keeps the memory in mind goes nowhere. -/
theorem Only.goes {α : Type} {x : Call α} (h : Only Quiet kept x) (w : Board) :
    ∃ a w', x w = .ok a w' ∧ Goes w w' [] w.mem.pgPwrStatus False := by
  obtain ⟨a, w', es, hrun, hlog, hes, hkept⟩ := h w
  simp only [kept, Prod.mk.injEq] at hkept
  refine ⟨a, w', hrun, ⟨es, hlog, ?_, ?_⟩, hkept.1, hkept.2.1, hkept.2.2⟩
  · exact List.filterMap_eq_nil_iff.mpr fun e he => (hes e he).1
  · exact iff_of_false (fun ⟨e, he, hsuccess⟩ => (hes e he).2 hsuccess) id

/-- `pwrSetState` sends one command. -/
theorem pwrSetState_goes (bOn : Bool) (channel : Int) (w : Board) :
    ∃ w', pwrSetState bOn channel w = .ok () w' ∧
      Goes w w' [if bOn then .powerOn else .powerOff] w.mem.pgPwrStatus False :=
  ⟨_, rfl, ⟨_, rfl, rfl, by simp [Success]⟩, rfl, rfl, rfl⟩

/-- The end of a switch-on reports success. -/
theorem powerOnEnd_goes (w : Board) :
    ∃ w', powerOnEnd w = .ok (some 0) w' ∧ Goes w w' [] w.mem.pgPwrStatus True :=
  ⟨w.after 0 [.clientNotifyMsg 0 .powerOn, .boxNotifyPowerOnEnd], by simp [powerOnEnd],
    ⟨_, rfl, rfl, by simp [Success]⟩, rfl, rfl, rfl⟩

/-- Setting the status sends nothing. -/
theorem setStatus_goes (status : Int) (w : Board) :
    Goes w (w.withMem { w.mem with pgPwrStatus := status }) [] status False :=
  ⟨⟨[], by simp, rfl, by simp⟩, rfl, rfl, rfl⟩

/-- A quiet event sends nothing. -/
theorem emit_goes {e : Event} (he : Quiet e) (w : Board) :
    Goes w (w.after 0 [e]) [] w.mem.pgPwrStatus False :=
  ⟨⟨[e], rfl, by simp [he.1], by simp [he.2]⟩, rfl, rfl, rfl⟩

/-- Switching off sends the command and clears the status. -/
theorem doPowerOff_goes (w : Board) :
    ∃ w', doPowerOff w = .ok (some 0) w' ∧ Goes w w' [.powerOff] 0 False := by
  obtain ⟨w₁, hset, hgoes⟩ := pwrSetState_goes false (pwrChannelVal .all) w
  obtain ⟨⟨⟩, w₂, hrun, hgoes'⟩ := Only.goes only_afterPowerOff w₁
  refine ⟨_, ?_, ((hgoes.trans hgoes').trans (setStatus_goes 0 w₂)).mono (by simp)⟩
  unfold doPowerOff
  simp only [run_bind, hset, hrun, run_modMem, run_pure]

/-- Switching on sends the command; without a known interface it is not reported. -/
theorem doPowerOn_goes (channel ptnId : Int) (w : Board) :
    ∃ res w', doPowerOn channel ptnId w = .ok res w' ∧
      ((Known w.mem.setup ∧ Goes w w' [.powerOn] 1 True) ∨
        (¬ Known w.mem.setup ∧ Goes w w' [.powerOn] w.mem.pgPwrStatus False)) := by
  obtain ⟨w₁, hset, hgoes₁⟩ := pwrSetState_goes true channel w
  have hshow : Only Quiet kept (clientPgShowPtn ptnId) :=
    .emit_bind ⟨rfl, id⟩ <| .modMem fun _ => rfl
  obtain ⟨⟨⟩, w₂, hrun, hgoes₂⟩ := Only.goes hshow (w₁.after 0 [.doIcNonePowerTiming true])
  -- power on, the timing and the picture; the flag is not touched yet
  have hgoes := (hgoes₁.trans (emit_goes ⟨rfl, id⟩ w₁)).trans hgoes₂
  unfold doPowerOn
  simp only [run_bind, hset, run_emit, hrun, run_getMem]
  cases hopen : openSignal w₂.mem.setup channel with
  | none =>
    -- `return` without the flag and the messages
    rw [openSignal_eq_none_iff, hgoes.setup] at hopen
    refine ⟨none, w₂, rfl, .inr ⟨hopen, ?_⟩⟩
    rw [← hgoes₁.status]
    exact hgoes.mono (by simp)
  | some init =>
    have hknown : Known w.mem.setup := by
      rw [← hgoes.setup]
      by_contra hunknown
      rw [openSignal_eq_none_iff.mpr hunknown] at hopen
      cases hopen
    have hquiet : Only Quiet kept (init >>= fun _ => emit (.clientRebackPower 1)) :=
      -- all that happens between the signal and the flag
      .bind (only_openSignal hopen) fun _ => .emit ⟨rfl, id⟩
    obtain ⟨⟨⟩, w₃, hinit, hgoes₃⟩ := Only.goes hquiet w₂
    obtain ⟨w₄, hend, hgoes₄⟩ := powerOnEnd_goes (w₃.withMem { w₃.mem with pgPwrStatus := 1 })
    refine ⟨some 0, w₄, ?_, .inl ⟨hknown, ?_⟩⟩
    · -- `init` is run as the first part of `hquiet`
      rw [run_bind] at hinit
      simp only [run_bind]
      cases hres : init w₂ with
      | ok a w' =>
        rw [hres] at hinit
        simp only [hinit, run_modMem, hend]
      | error e w' =>
        rw [hres] at hinit
        cases hinit
    · exact ((hgoes.trans hgoes₃).trans ((setStatus_goes 1 w₃).trans hgoes₄)).mono (by simp)

/-- **What a call can do**: off; or nothing but the messages of success, for want
of a file; or nothing, refused by the test; or on, without the flag and the
messages, for want of a signal type; or on. -/
theorem shutON_cases (enable : Int) (pModelName : String) (channel ptnId : Int) (w : Board) :
    ∃ res w', clientPgShutON enable pModelName channel ptnId w = .ok res w' ∧
      ((enable ≠ 1 ∧ Goes w w' [.powerOff] 0 False) ∨
        (enable = 1 ∧ ¬ w.mem.setup.fileExists (tstPath ++ "/" ++ pModelName) ∧
          Goes w w' [] w.mem.pgPwrStatus True) ∨
        (enable = 1 ∧ w.mem.setup.fileExists (tstPath ++ "/" ++ pModelName) ∧ Refused w ∧
          Goes w w' [] w.mem.pgPwrStatus False) ∨
        (enable = 1 ∧ w.mem.setup.fileExists (tstPath ++ "/" ++ pModelName) ∧ ¬ Refused w ∧
          ¬ Known w.mem.setup ∧ Goes w w' [.powerOn] w.mem.pgPwrStatus False) ∨
        (enable = 1 ∧ w.mem.setup.fileExists (tstPath ++ "/" ++ pModelName) ∧ ¬ Refused w ∧
          Known w.mem.setup ∧ Goes w w' [.powerOn] 1 True)) := by
  unfold clientPgShutON
  by_cases henable : enable = 1
  swap
  · obtain ⟨w', hrun, hgoes⟩ := doPowerOff_goes w
    exact ⟨some 0, w', by simp [henable, hrun], .inl ⟨henable, hgoes⟩⟩
  simp only [if_pos henable, run_bind, run_getMem, run_ite]
  by_cases hfile : w.mem.setup.fileExists (tstPath ++ "/" ++ pModelName)
  -- no file on the disk
  swap
  · obtain ⟨w', hrun, hgoes⟩ := powerOnEnd_goes w
    exact ⟨some 0, w', by simp [hfile, hrun], .inr (.inl ⟨henable, hfile, hgoes⟩)⟩
  simp only [if_pos hfile, run_emit]
  have hshow : Goes w (w.after 0 [.boxShowBeingPowerOnMsg]) [] w.mem.pgPwrStatus False :=
    emit_goes ⟨rfl, id⟩ w
  obtain ⟨channel?, w₁, hchannel, hgoes₁⟩ := Only.goes only_powerOnChannel
    (w.after 0 [.boxShowBeingPowerOnMsg])
  have hrefused := powerOnChannel_eq_none_iff hchannel
  -- showing the box message has not changed what the test will read
  change channel? = none ↔ Refused w at hrefused
  have hgoes := hshow.trans hgoes₁
  rw [hchannel]
  cases channel? with
  | none =>
    -- the test has found no clean side
    have herror : Goes w₁ (w₁.after 0 [.boxNotifyOpenshortErrorDown]) [] w₁.mem.pgPwrStatus False :=
      emit_goes ⟨rfl, id⟩ w₁
    refine ⟨_, _, rfl, .inr (.inr (.inl ⟨henable, hfile, hrefused.mp rfl, ?_⟩))⟩
    have := (hgoes.trans herror).mono (q := False) (by simp)
    rwa [hgoes.status] at this
  | some channel =>
    have hclean : ¬ Refused w := fun h => by cases hrefused.mpr h
    obtain ⟨res, w₂, hrun, hon⟩ := doPowerOn_goes channel ptnId w₁
    refine ⟨res, w₂, hrun, .inr (.inr (.inr ?_))⟩
    rw [hgoes.setup, hgoes.status] at hon
    rcases hon with ⟨hknown, hgoes₂⟩ | ⟨hunknown, hgoes₂⟩
    · exact .inr ⟨henable, hfile, hclean, hknown, (hgoes.trans hgoes₂).mono (by simp)⟩
    · exact .inl ⟨henable, hfile, hclean, hunknown, (hgoes.trans hgoes₂).mono (by simp)⟩

/-- A call, with what is set up when it is made. -/
structure ShutOnCall where
  setup : Setup
  enable : Int
  pModelName : String
  channel : Int
  ptnId : Int

def ShutOnCall.run (c : ShutOnCall) : Call (Option Int) := do
  modMem fun m => { m with setup := c.setup }
  clientPgShutON c.enable c.pModelName c.channel c.ptnId

abbrev ShutOnStep := Step Event (BitVec 16) Mem ShutOnCall (Option Int)

/-- The client as it starts. -/
def boot (answers : Nat → BitVec 16) (mem : Mem) : Board :=
  ⟨answers, 0, [], { mem with pgPwrStatus := 0 }⟩

/-- The last command to the power board was power-on. -/
def Powered (w : Board) : Prop := (w.log.filterMap pwrCmd).getLast? = some .powerOn

/-- `pg_pwr_status` agrees with the power board. -/
def FlagOk (w : Board) : Prop := Powered w ↔ w.mem.pgPwrStatus = 1

/-- After the call the flag is right, and success was told of a powered panel only. -/
structure Consistent (s : ShutOnStep) : Prop where
  flag : FlagOk s.after
  told : (∃ e ∈ s.events, Success e) → Powered s.after

/-- A call to switch on that leaves by none of the wrong ways while the panel is
off: its file is there and its signal type is known. -/
def ShutOnCall.Sound (c : ShutOnCall) (w : Board) : Prop :=
  c.enable = 1 → w.mem.pgPwrStatus = 1 ∨
    (c.setup.fileExists (tstPath ++ "/" ++ c.pModelName) ∧ Known c.setup)

/-- A call is refused only where the interface is known. -/
theorem Refused.known {w : Board} (h : Refused w) : Known w.mem.setup :=
  .inr (.inr (.inr h.1))

namespace Goes

variable {w w' : Board} {cmds : List PwrCmd} {status : Int} {p : Prop}

/-- Success is among the events exactly where it was told. -/
theorem told (h : Goes w w' cmds status p) :
    (∃ e ∈ w'.log.drop w.log.length, Success e) ↔ p := by
  obtain ⟨es, hlog, -, hp⟩ := h.log
  rw [hlog, List.drop_left, hp]

end Goes

/-- Every call comes back. -/
theorem ShutOnCall.run_ok (c : ShutOnCall) (w : Board) : ∃ res w', c.run w = .ok res w' := by
  obtain ⟨res, w', hrun, -⟩ := shutON_cases c.enable c.pModelName c.channel c.ptnId
    (w.withMem { w.mem with setup := c.setup })
  exact ⟨res, w', by rw [run, run_bind, run_modMem]; exact hrun⟩

/-- No call faults, so a session is all of its calls. -/
theorem shutON_length (cs : List ShutOnCall) (w : Board) :
    (steps ShutOnCall.run cs w).length = cs.length :=
  steps_length_of_ok (fun c w => c.run_ok w) cs w

/-- The client before anything is loaded. -/
def idle : Board :=
  boot (fun _ => 0) ⟨⟨0, ⟨0, 0, 0, 0⟩, 0, 0, fun _ => false⟩, 0, 0, true, true, ⟨0, 0, 0, "", 0⟩,
    some 0, ""⟩

end PgClient.Pg
