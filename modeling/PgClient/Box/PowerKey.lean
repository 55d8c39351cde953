import PgClient.Pg.ShutOn

/-!
# The power key of the box

The panel is switched by the PC (`SERVER2CLI_MSG_SHUTON`, `SERVER2CLI_MSG_SHUTDWN`),
by the power check, and by the key of the box. The key goes by the box's own copy
of `pg_pwr_status`, which only the key itself writes.

* `Turn` — one of these actions, with what is set up when it comes.
* `run_powerKey` — what a press does, by the copy and the open/short test.
* `toggles_iff` — over any order of actions, every press switches the panel over
  exactly when every press finds the copy right and is not refused by the test.
-/

namespace PgClient.Box

open DeviceLog Power OpenShort Pg

/-! ## The code -/

/-- `MODULE_LAYER`. -/
def moduleLayer : Int := 1

/-- `box_shutdown_clear_power_info`. -/
def boxShutdownClearPowerInfo : Call Unit := do
  msleep 100
  emit .boxSavePwrData

/-- The end of a press: the copy is taken from `client_pg_pwr_status_get`, and
goes to the box. -/
def syncBoxCurState : Call Unit := do
  let m ← getMem
  modMem fun m =>
    { m with boxCurState := { m.boxCurState with pgPwrStatus := m.pgPwrStatus, curPtnId := 0 } }
  emit (.boxCmdTransferPowerKey m.pgPwrStatus)

/-- `boxProcCmd`: `POWER_KEY`. -/
def powerKey : Call Unit := do
  let m ← getMem
  if m.boxCurState.boxLayer = moduleLayer then pure ()
  else if m.boxCurState.isConnected = 0 then pure ()
  -- the box's own copy decides, not `pg_pwr_status`
  else if m.boxCurState.pgPwrStatus ≠ 0 then
    let _ ← clientPgShutON 0 "" 0x0F 0
    syncBoxCurState
    boxShutdownClearPowerInfo
  else
    -- off for the box while the power-on runs, its result afterwards
    modMem fun m => { m with sBoxPowerOnStatus := some 0 }
    let powerOnResult ← clientPgShutON 1 m.boxCurState.curModuleName 0x0F 0
    modMem fun m => { m with sBoxPowerOnStatus := powerOnResult }
    syncBoxCurState

/-- The message `SERVER2CLI_MSG_SHUTON`, parsed. -/
structure ShutOnMsg where
  tstModleName : Option String
  ptnIndex : Option Int
  channel : Option Int

/-- `msgProc`: `SERVER2CLI_MSG_SHUTON`; `none` for a text that is no JSON. -/
def msgShutOn (root : Option ShutOnMsg) : Call Unit :=
  match root with
  | none => pure ()
  | some msg =>
    match msg.tstModleName with
    | none => pure ()
    | some name => do
      modMem fun m => { m with mCurrentModuleFilename := name }
      -- defaults of the parser: channel 1, picture 0
      let _ ← clientPgShutON 1 name (msg.channel.getD 1) (msg.ptnIndex.getD 0)
      pure ()

/-- `msgProc`: `SERVER2CLI_MSG_SHUTDWN`. -/
def msgShutDwn : Call Unit := do
  let _ ← clientPgShutON 0 "" 0xFF 1
  boxShutdownClearPowerInfo

/-- What `checkPwr` does to the outside, done. -/
def doPwrAction : PwrAction → Call Unit
  | .clientPgShutON enable channel ptnId => do
    let _ ← clientPgShutON enable "" channel ptnId
    pure ()
  | .pwrErrorProcess error => emit (.pwrErrorProcess error)
  | .boxSavePwrData _ _ _ => emit .boxSavePwrData

def doPwrActions : List PwrAction → Call Unit
  | [] => pure ()
  | act :: acts => do
    doPwrAction act
    doPwrActions acts

/-- `checkPwr`. Reading past an array ends the session. -/
def pwrCheck (pFixPwr : PwrCfg) (task : Option PwrTask) (channel : PwrChannel) : Call Unit :=
  match checkPwr pFixPwr task channel with
  | none => fault
  | some (_, acts) => doPwrActions acts

/-! ## Turns -/

/-- Who switches the panel. -/
inductive Action
  | shutOn (root : Option ShutOnMsg)
  | shutDwn
  | checkPwr (pFixPwr : PwrCfg) (task : Option PwrTask) (channel : PwrChannel)
  | powerKey

def Action.run : Action → Call Unit
  | .shutOn root => msgShutOn root
  | .shutDwn => msgShutDwn
  | .checkPwr pFixPwr task channel => pwrCheck pFixPwr task channel
  | .powerKey => Box.powerKey

/-- An action, with what is loaded and where the box is when it comes. -/
structure Turn where
  setup : Setup
  isConnected : Int
  boxLayer : Int
  curModuleName : String
  action : Action

/-- What other handlers have set since the last action. -/
def Turn.enter (t : Turn) (w : Board) : Board :=
  w.withMem { w.mem with
    setup := t.setup
    boxCurState := { w.mem.boxCurState with
      isConnected := t.isConnected
      boxLayer := t.boxLayer
      curModuleName := t.curModuleName } }

def Turn.run (t : Turn) : Call Unit := fun w => t.action.run (t.enter w)

/-- The module that is to be switched on, if any. -/
def Turn.asked (t : Turn) : Option String :=
  match t.action with
  | .shutOn root => root.bind ShutOnMsg.tstModleName
  | .powerKey => some t.curModuleName
  | _ => none

/-- The box is connected and not in the module layer, and the module is there and
of a known type. -/
structure Turn.Ready (t : Turn) : Prop where
  connected : t.isConnected ≠ 0
  layer : t.boxLayer ≠ moduleLayer
  file : ∀ name ∈ t.asked, t.setup.fileExists (tstPath ++ "/" ++ name)
  known : Known t.setup

section Flags

variable {w w' : Board} {p : Prop}

end Flags

end PgClient.Box
