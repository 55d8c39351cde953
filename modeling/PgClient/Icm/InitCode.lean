import PgClient.Json.RoundTrip
import PgClient.Spi.Wire

/-!
# Init codes

`sndInitCode` and `parseInitCodeAndProcess` of `chip_hx_8298c.c` and `chip_s1d19k08.cpp`: a JSON
file of register lines and delays goes to the panel over the bit-banged SPI. The hx8298c takes words
of 8 bits, a register and its parameters in one selection; the s1d19k08 takes words of 9 bits, each
in a selection of its own, whose first bit tells a parameter from a register.

* `Line`, `codeLines` — what a script says.
* `initCode_sampled` — the slave takes the words of any script, and is left selected by a last
  register without parameters.
* `initCode_script` — a script that is printed into the file arrives, unless the file is longer than
  the block.
-/

namespace PgClient.Icm.InitCode

open Text Json PartialRun
open Spi (Wire wordBits)

/-! ## The code -/

/-- The two drivers. -/
inductive Chip
  | hx8298c
  | s1d19k08
  deriving DecidableEq

/-- What is done with the controller of the channel. -/
inductive Action
  | spi (call : Spi.Call)
  | msleep (msecond : BitVec 32)

/-- `vspiCtrlSetCsState`, which hands on the negation. -/
def vspiCtrlSetCsState (bSelected : Bool) : Action := .spi (.setCsState (if bSelected then 0 else 1))

def chipHx8298cSpiConfig : List Action :=
  [.spi (.setMode .wire3Line), .spi (.setByteFormat 8), vspiCtrlSetCsState false, .msleep 1,
    vspiCtrlSetCsState true]

def chipHx8298cStartWrite2IcReg (addr : BitVec 32) : List Action :=
  chipHx8298cSpiConfig ++ [.spi (.write addr)]

def chipHx8298cSendRegParam2Ic (value : BitVec 32) : List Action := [.spi (.write value)]

def chipHx8298cStopWrite2IcReg : List Action := [vspiCtrlSetCsState false]

def sndData2Ic (value : BitVec 32) : List Action :=
  [.spi (.setMode .wire4Line), .spi (.setByteFormat 9), vspiCtrlSetCsState false, .msleep 1,
    vspiCtrlSetCsState true, .spi (.write value), vspiCtrlSetCsState false]

/-- `TRANSLATE_2_CMD`. -/
def translate2Cmd (value : BitVec 32) : BitVec 32 := (value &&& 0xff) ||| (0x0 <<< 8)

/-- `TRANSLATE_2_PARAM`. -/
def translate2Param (value : BitVec 32) : BitVec 32 := (value &&& 0xff) ||| (0x1 <<< 8)

namespace Chip

def start : Chip → BitVec 32 → List Action
  | hx8298c, regAddr => chipHx8298cStartWrite2IcReg regAddr
  | s1d19k08, regAddr => sndData2Ic (translate2Cmd regAddr)

def param : Chip → BitVec 32 → List Action
  | hx8298c, value => chipHx8298cSendRegParam2Ic value
  | s1d19k08, value => sndData2Ic (translate2Param value)

/-- After the parameters. -/
def stop : Chip → List Action
  | hx8298c => chipHx8298cStopWrite2IcReg
  | s1d19k08 => []

end Chip

/-- `valueint`, in an `unsigned int`. -/
def unsigned (item : Item) : BitVec 32 := BitVec.ofInt 32 item.valueint

variable (chip : Chip)

/-- The loop over `params`. -/
def processParams (pParamsObj : Item) : List Action :=
  (List.range pParamsObj.child.size).flatMap fun j =>
    match pParamsObj.child.get? j with
    | none => []
    | some pParamObj => chip.param (unsigned pParamObj)

/-- A turn of the loop over `codeArea`. Without `params` it goes on to the next line at once. -/
def processLine (pLineObj : Item) : List Action :=
  match pLineObj.getObjectItem (ascii "sign") with
  | none => []
  | some pSignObj =>
    match pSignObj.valuestring with
    | none => []
    | some sign =>
      if sameName sign (ascii "isReg") then
        match pLineObj.getObjectItem (ascii "regAddr") with
        | none => []
        | some pRegObj =>
          chip.start (unsigned pRegObj) ++
            match pLineObj.getObjectItem (ascii "params") with
            | none => []
            | some pParamsObj => processParams chip pParamsObj ++ chip.stop
      else if sameName sign (ascii "isDelay") then
        match pLineObj.getObjectItem (ascii "delay") with
        | none => []
        | some pDelayObj => [.msleep (unsigned pDelayObj)]
      else []

def processCodeArea (pCodeArea : Item) : List Action :=
  (List.range pCodeArea.child.size).flatMap fun i =>
    match pCodeArea.child.get? i with
    | none => []
    | some pLineObj => processLine chip pLineObj

/-- `parseInitCodeAndProcess`; `none` is a parser that leaves the block or the stack. -/
def parseInitCodeAndProcess (stack : Nat) (pInitCode : List Byte) : Option (List Action) :=
  match cJSONParse stack pInitCode with
  | .ok pRoot _ =>
    match pRoot.getObjectItem (ascii "codeArea") with
    | none => some []
    | some pCodeArea => some (processCodeArea chip pCodeArea)
  | .null => some []
  | .fault => none
  | .stuck => none

/-- `DEV_CHANNEL_E`. -/
def translateDevChannel2Local (channel : Int) : Int := if channel = 1 then 3 else channel

/-- The controller that `vspiCtrlInstance` gives. -/
def vspiCtrlInstance (channel : Int) : Fin 2 :=
  if channel = 0 ∨ channel = 1 then ⟨0, Nat.two_pos⟩ else ⟨1, Nat.one_lt_two⟩

/-- `INIT_CODE_MAX_LEN`. -/
def initCodeMaxLen : Nat := 100 * 1024

/-- The block that is read: `calloc` has filled it with zeros. -/
def initCodeBlock (file : List Byte) : List Byte :=
  file.take initCodeMaxLen ++ List.replicate (initCodeMaxLen - file.length) 0

/-- `sndInitCode`, with the files that can be opened: the controller, and what is done with it;
`none` is also a name that `codeName` has no room for. -/
def sndInitCode (stack : Nat) (open_ : List Byte → Option (List Byte)) (channel : Int)
    (pInitCodeName : Option (List Byte)) : Option (Fin 2 × List Action) :=
  let ctrlId := vspiCtrlInstance (translateDevChannel2Local channel)
  match pInitCodeName with
  | none => some (ctrlId, [])
  | some name =>
    if 128 < (ascii "cfg/initcode/" ++ name).length + 1 then none
    else
      match open_ (ascii "cfg/initcode/" ++ name) with
      | none => some (ctrlId, [])
      | some file =>
        (parseInitCodeAndProcess chip stack (initCodeBlock file)).map fun actions =>
          (ctrlId, actions)

/-! ## Scripts -/

/-- A line of a script. -/
inductive Line
  | reg (regAddr : BitVec 32) (params : Option (List (BitVec 32)))
  | delay (msecond : BitVec 32)

/-- The items of an array, without their names. -/
def items : Chain → List Item
  | .nil => []
  | .cons _ item next => item :: items next

/-- The line that an item is, if it is one. -/
def lineOf (item : Item) : Option Line := do
  let sign ← (← item.getObjectItem (ascii "sign")).valuestring
  if sameName sign (ascii "isReg") then
    let regAddr ← item.getObjectItem (ascii "regAddr")
    some (.reg (unsigned regAddr)
      ((item.getObjectItem (ascii "params")).map fun params => (items params.child).map unsigned))
  else if sameName sign (ascii "isDelay") then
    let delay ← item.getObjectItem (ascii "delay")
    some (.delay (unsigned delay))
  else none

/-- The script in a file. -/
def codeLines (root : Item) : List Line :=
  match root.getObjectItem (ascii "codeArea") with
  | none => []
  | some codeArea => (items codeArea.child).filterMap lineOf

/-- What a driver does for a line. -/
def Line.actions (l : Line) : List Action :=
  match l with
  | .reg regAddr none => chip.start regAddr
  | .reg regAddr (some params) => chip.start regAddr ++ params.flatMap chip.param ++ chip.stop
  | .delay msecond => [.msleep msecond]

/-- A walk by `cJSON_GetArraySize` and `cJSON_GetArrayItem` meets every item. -/
theorem flatMap_get? {α : Type} (f : Item → List α) (c : Chain) :
    ((List.range c.size).flatMap fun k => ((c.get? k).map f).getD []) = (items c).flatMap f := by
  induction c using items.induct with
  | case1 => rfl
  | case2 name item next ih =>
    rw [Chain.size, List.range_succ_eq_map, List.flatMap_cons, List.flatMap_map, items,
      List.flatMap_cons, ← ih]
    rfl

/-- The parameters of a line are its child items, as unsigned. -/
theorem processParams_eq (pParamsObj : Item) :
    processParams chip pParamsObj =
      ((items pParamsObj.child).map unsigned).flatMap chip.param := by
  rw [List.flatMap_map, ← flatMap_get?]
  unfold processParams
  congr 1
  funext k
  cases pParamsObj.child.get? k <;> rfl

/-- A line is what its fields make it. -/
theorem processLine_eq (pLineObj : Item) :
    processLine chip pLineObj = ((lineOf pLineObj).map (Line.actions chip)).getD [] := by
  unfold processLine lineOf
  cases pLineObj.getObjectItem (ascii "sign") with
  | none => rfl
  | some pSignObj =>
    cases hsign : pSignObj.valuestring with
    | none => simp [hsign]
    | some sign =>
      simp only [hsign, Option.bind_eq_bind, Option.bind_some]
      -- a line is a register, a delay, or nothing that is known
      split
      · cases pLineObj.getObjectItem (ascii "regAddr") with
        | none => rfl
        | some pRegObj =>
          cases pLineObj.getObjectItem (ascii "params") with
          | none => exact List.append_nil _
          | some pParamsObj =>
            simp [Line.actions, processParams_eq]
      · split
        · cases pLineObj.getObjectItem (ascii "delay") <;> rfl
        · rfl

/-- The area is its lines in order. -/
theorem processCodeArea_eq (pCodeArea : Item) :
    processCodeArea chip pCodeArea =
      ((items pCodeArea.child).filterMap lineOf).flatMap (Line.actions chip) := by
  have hwalk : processCodeArea chip pCodeArea =
      (items pCodeArea.child).flatMap (processLine chip) := by
    rw [← flatMap_get?]
    unfold processCodeArea
    congr 1
    funext k
    cases pCodeArea.child.get? k <;> rfl
  rw [hwalk]
  induction items pCodeArea.child with
  | nil => rfl
  | cons item rest ih =>
    rw [List.flatMap_cons, ih, processLine_eq]
    -- an item that is no line adds nothing
    cases hline : lineOf item with
    | none => rw [List.filterMap_cons_none hline]; rfl
    | some line => rw [List.filterMap_cons_some hline, List.flatMap_cons]; rfl

/-- What is done is what the script says, line by line. -/
theorem parseInitCodeAndProcess_eq {stack : Nat} {pInitCode rest : List Byte} {root : Item}
    (hparse : cJSONParse stack pInitCode = .ok root rest) :
    parseInitCodeAndProcess chip stack pInitCode =
      some ((codeLines root).flatMap (Line.actions chip)) := by
  unfold parseInitCodeAndProcess codeLines
  rw [hparse]
  dsimp only
  cases root.getObjectItem (ascii "codeArea") with
  | none => rfl
  | some codeArea => exact congrArg some (processCodeArea_eq chip codeArea)

/-! ## On the wire -/

/-- The calls on the controller. -/
def spiCalls (actions : List Action) : List Spi.Call :=
  actions.filterMap fun action =>
    match action with
    | .spi call => some call
    | .msleep _ => none

/-- The bits of a word. -/
def Chip.format : Chip → Nat
  | .hx8298c => 8
  | .s1d19k08 => 9

/-- The word of a register. -/
def Chip.regBits : Chip → BitVec 32 → List Bool
  | .hx8298c, regAddr => wordBits regAddr 8
  | .s1d19k08, regAddr => wordBits (translate2Cmd regAddr) 9

/-- The word of a parameter. -/
def Chip.paramBits : Chip → BitVec 32 → List Bool
  | .hx8298c, value => wordBits value 8
  | .s1d19k08, value => wordBits (translate2Param value) 9

/-- The bits of a line. -/
def Line.bits : Line → List Bool
  | .reg regAddr params => chip.regBits regAddr ++ (params.getD []).flatMap chip.paramBits
  | .delay _ => []

/-- Whether the slave is selected after a line: the hx8298c is, by a register without parameters. -/
def Line.left (selected : Bool) : Line → Bool
  | .reg _ params => chip = .hx8298c && params.isNone
  | .delay _ => selected

/-- The line after a line of the script. -/
def Line.after (w : Wire) (l : Line) : Wire where
  taken := w.taken ++ l.bits chip
  selected := l.left chip w.selected
  format := match l with
    | .reg _ _ => chip.format
    | .delay _ => w.format

/-- The SPI calls of two lists of actions. -/
theorem spiCalls_append (as as' : List Action) :
    spiCalls (as ++ as') = spiCalls as ++ spiCalls as' := List.filterMap_append

/-- After the word of a register the hx8298c is still selected. -/
theorem runAll_start (regAddr : BitVec 32) (w : Wire) :
    runAll Wire.step (spiCalls (chip.start regAddr)) w =
      some ⟨w.taken ++ chip.regBits regAddr, chip = .hx8298c, chip.format⟩ := by
  cases chip <;> rfl

/-- And so it is after every parameter. -/
theorem runAll_params (params : List (BitVec 32)) (taken : List Bool) :
    runAll Wire.step (spiCalls (params.flatMap chip.param)) ⟨taken, chip = .hx8298c, chip.format⟩ =
      some ⟨taken ++ params.flatMap chip.paramBits, chip = .hx8298c, chip.format⟩ := by
  -- the line is left selected and with its format by each parameter
  induction params generalizing taken with
  | nil => exact congrArg (fun bits => some (Wire.mk bits _ _)) (List.append_nil taken).symm
  | cons param params ih =>
    have hparam : runAll Wire.step (spiCalls (chip.param param))
        ⟨taken, chip = .hx8298c, chip.format⟩ =
          some ⟨taken ++ chip.paramBits param, chip = .hx8298c, chip.format⟩ := by
      cases chip <;> rfl
    rw [List.flatMap_cons, spiCalls_append, runAll_append, hparam, Option.bind_some, ih,
      List.flatMap_cons, List.append_assoc]

/-- One line on the wire is what it says. -/
theorem runAll_line (l : Line) (w : Wire) :
    runAll Wire.step (spiCalls (l.actions chip)) w = some (l.after chip w) := by
  cases l with
  | delay msecond =>
    simp [Line.actions, spiCalls, runAll, Line.after, Line.bits, Line.left]
  | reg regAddr params =>
    cases params with
    | none =>
      rw [Line.actions, runAll_start]
      simp [Line.after, Line.bits, Line.left]
    | some params =>
      -- the register, then its parameters, then the end of the selection
      rw [Line.actions, spiCalls_append, spiCalls_append, runAll_append, runAll_append,
        runAll_start, Option.bind_some, runAll_params, Option.bind_some, List.append_assoc]
      cases chip <;> rfl

/-- The lines of a script, one after the other. -/
theorem runAll_lines (lines : List Line) (w : Wire) :
    runAll Wire.step (spiCalls (lines.flatMap (Line.actions chip))) w =
      some (lines.foldl (Line.after chip) w) := by
  induction lines generalizing w with
  | nil => rfl
  | cons l lines ih =>
    rw [List.flatMap_cons, spiCalls_append, runAll_append, runAll_line, Option.bind_some, ih,
      List.foldl_cons]

/-- The bits of the lines add up. -/
theorem foldl_after_taken (lines : List Line) (w : Wire) :
    (lines.foldl (Line.after chip) w).taken = w.taken ++ lines.flatMap (Line.bits chip) := by
  induction lines generalizing w with
  | nil => exact (List.append_nil _).symm
  | cons l lines ih =>
    rw [List.foldl_cons, ih, List.flatMap_cons, ← List.append_assoc]
    rfl

/-- Only the last register counts. -/
theorem foldl_after_selected (lines : List Line) (w : Wire) :
    (lines.foldl (Line.after chip) w).selected = lines.foldl (Line.left chip) w.selected := by
  induction lines generalizing w with
  | nil => rfl
  | cons l lines ih => exact ih (l.after chip w)

/-- The parameters of the last register, if there is one. -/
def lastParams : List Line → Option (Option (List (BitVec 32)))
  | [] => none
  | .reg _ params :: lines => some ((lastParams lines).getD params)
  | .delay _ :: lines => lastParams lines

/-- Lines without parameters leave the selection as it was; the last one with them decides it. -/
theorem foldl_left (lines : List Line) (selected : Bool) :
    lines.foldl (Line.left chip) selected =
      ((lastParams lines).map fun params => chip = .hx8298c && params.isNone).getD selected := by
  induction lines generalizing selected with
  | nil => rfl
  | cons l lines ih =>
    rw [List.foldl_cons, ih]
    cases l with
    | delay msecond => rfl
    | reg regAddr params => cases hlast : lastParams lines <;> simp [lastParams, Line.left, hlast]

/-- What becomes of the slave of a channel with a script: it takes the words of its lines, and is
selected in the end as the last register leaves it. -/
def Written (lines : List Line) (actions : List Action) (present : Nat → Bool)
    (s : Spi.VirtualSpiCtrl × Spi.Board) : Prop :=
  ∃ s', runAll (Spi.Call.step present) (spiCalls actions) s = some s' ∧ Spi.Resting s' ∧
    s'.2.side.taken = s.2.side.taken ++ lines.flatMap (Line.bits chip) ∧
    (!(s'.2.pins .cs).level) = ((lastParams lines).map fun params =>
      chip = .hx8298c && params.isNone).getD (!(s.2.pins .cs).level)

/-- The lines of a script are written. -/
theorem written_lines (lines : List Line) (present : Nat → Bool)
    {s : Spi.VirtualSpiCtrl × Spi.Board} (hs : Spi.Resting s) :
    Written chip lines (lines.flatMap (Line.actions chip)) present s := by
  obtain ⟨s', hrun, hrest, hwire⟩ :=
    Spi.run_wire present hs (runAll_lines chip lines (Spi.wireOf s))
  have htaken := congrArg Wire.taken hwire
  have hselected := congrArg Wire.selected hwire
  rw [foldl_after_taken] at htaken
  rw [foldl_after_selected, foldl_left] at hselected
  exact ⟨s', hrun, hrest, htaken, hselected⟩

section Send

variable {stack : Nat} {open_ : List Byte → Option (List Byte)} {channel : Int}
  {name file : List Byte}

/-- A file with a name that `codeName` has room for. -/
theorem sndInitCode_eq (hname : name.length ≤ 114)
    (hopen : open_ (ascii "cfg/initcode/" ++ name) = some file) :
    sndInitCode chip stack open_ channel (some name) =
      (parseInitCodeAndProcess chip stack (initCodeBlock file)).map fun actions =>
        (vspiCtrlInstance (translateDevChannel2Local channel), actions) := by
  have hroom : ¬ 128 < (ascii "cfg/initcode/" ++ name).length + 1 := by
    have hprefix : (ascii "cfg/initcode/").length = 13 := rfl
    rw [List.length_append, hprefix]
    omega
  rw [sndInitCode, if_neg hroom, hopen]

end Send

/-! ## Scripts in a file -/

/-- An array of items. -/
def chainOf : List Item → Chain
  | [] => .nil
  | item :: rest => .cons none item (chainOf rest)

/-- A chain has the items it was made from. -/
theorem items_chainOf (l : List Item) : items (chainOf l) = l := by
  induction l with
  | nil => rfl
  | cons item rest ih => rw [chainOf, items, ih]

def number (v : BitVec 32) : Item := createNumber v.toInt

/-- A number is read back. -/
theorem unsigned_number (v : BitVec 32) : unsigned (number v) = v := BitVec.ofInt_toInt

/-- A line as an item. -/
def Line.item : Line → Item
  | .reg regAddr none => .object (.cons (some (ascii "sign")) (.string (ascii "isReg"))
      (.cons (some (ascii "regAddr")) (number regAddr) .nil))
  | .reg regAddr (some params) => .object (.cons (some (ascii "sign")) (.string (ascii "isReg"))
      (.cons (some (ascii "regAddr")) (number regAddr)
        (.cons (some (ascii "params")) (.array (chainOf (params.map number))) .nil)))
  | .delay msecond => .object (.cons (some (ascii "sign")) (.string (ascii "isDelay"))
      (.cons (some (ascii "delay")) (number msecond) .nil))

/-- A script as an item. -/
def script (lines : List Line) : Item :=
  .object (.cons (some (ascii "codeArea")) (.array (chainOf (lines.map Line.item))) .nil)

/-- A line is read back. -/
theorem lineOf_item (l : Line) : lineOf l.item = some l := by
  cases l with
  | delay msecond => exact congrArg (fun v => some (Line.delay v)) (unsigned_number msecond)
  | reg regAddr params =>
    cases params with
    | none => exact congrArg (fun v => some (Line.reg v none)) (unsigned_number regAddr)
    | some params =>
      -- each parameter is read as the number it was
      have hparams : (items (chainOf (params.map number))).map unsigned = params := by
        rw [items_chainOf, List.map_map]
        exact (List.map_congr_left fun v _ => unsigned_number v).trans (List.map_id params)
      have hline : lineOf (Line.reg regAddr (some params)).item =
          some (.reg (unsigned (number regAddr))
            (some ((items (chainOf (params.map number))).map unsigned))) := rfl
      rw [hline, hparams, unsigned_number]

/-- A script says what it was made of. -/
theorem codeLines_script (lines : List Line) : codeLines (script lines) = lines := by
  have hitems : codeLines (script lines) =
      (items (chainOf (lines.map Line.item))).filterMap lineOf := rfl
  rw [hitems, items_chainOf, List.filterMap_map]
  exact (List.filterMap_congr fun l _ => lineOf_item l).trans List.filterMap_some

/-- A number can be printed and read. -/
theorem sound_number (v : BitVec 32) : (number v).Sound :=
  ⟨rfl, BitVec.le_toInt v, by have := BitVec.toInt_lt (x := v); omega⟩

/-- A chain can if its items can. -/
theorem sound_chainOf {l : List Item} (h : ∀ item ∈ l, item.Sound) : (chainOf l).SoundElements := by
  induction l with
  | nil => exact trivial
  | cons item rest ih =>
    obtain ⟨hitem, hrest⟩ := List.forall_mem_cons.mp h
    exact ⟨rfl, hitem, ih hrest⟩

/-- It is as deep as the deepest of them. -/
theorem levels_chainOf {l : List Item} {n : Nat} (h : ∀ item ∈ l, item.levels ≤ n) :
    (chainOf l).levels ≤ n := by
  induction l with
  | nil => exact Nat.zero_le n
  | cons item rest ih =>
    obtain ⟨hitem, hrest⟩ := List.forall_mem_cons.mp h
    exact max_le hitem (ih hrest)

/-- A line can be printed and read. -/
theorem sound_item (l : Line) : l.item.Sound := by
  have hsign : Plain (ascii "sign") ∧ Plain (ascii "isReg") ∧ Plain (ascii "isDelay") ∧
      Plain (ascii "regAddr") ∧ Plain (ascii "params") ∧ Plain (ascii "delay") := by decide
  -- the names and the signs are plain, and all else is numbers
  obtain ⟨hsign, hreg, hisDelay, hregAddr, hparams, hdelay⟩ := hsign
  cases l with
  | delay msecond =>
    exact ⟨⟨_, rfl, hsign⟩, hisDelay, ⟨_, rfl, hdelay⟩, sound_number msecond, trivial⟩
  | reg regAddr params =>
    cases params with
    | none => exact ⟨⟨_, rfl, hsign⟩, hreg, ⟨_, rfl, hregAddr⟩, sound_number regAddr, trivial⟩
    | some params =>
      refine ⟨⟨_, rfl, hsign⟩, hreg, ⟨_, rfl, hregAddr⟩, sound_number regAddr, ⟨_, rfl, hparams⟩,
        sound_chainOf ?_, trivial⟩
      intro item hitem
      obtain ⟨v, -, rfl⟩ := List.mem_map.mp hitem
      exact sound_number v

/-- A line is three levels deep. -/
theorem levels_item (l : Line) : l.item.levels ≤ 3 := by
  cases l with
  | delay msecond => exact (by decide : 2 ≤ 3)
  | reg regAddr params =>
    cases params with
    | none => exact (by decide : 2 ≤ 3)
    | some params =>
      have hparams : (chainOf (params.map number)).levels ≤ 1 := by
        refine levels_chainOf fun item hitem => ?_
        obtain ⟨v, -, rfl⟩ := List.mem_map.mp hitem
        exact Nat.le_refl 1
      simp only [Line.item, Item.levels, Chain.levels, number, createNumber]
      omega

/-- A script can be printed and read. -/
theorem sound_script (lines : List Line) : (script lines).Sound := by
  refine ⟨⟨_, rfl, by decide⟩, sound_chainOf fun item hitem => ?_, trivial⟩
  obtain ⟨l, -, rfl⟩ := List.mem_map.mp hitem
  exact sound_item l

/-- A script is five levels deep. -/
theorem levels_script (lines : List Line) : (script lines).levels ≤ 5 := by
  have hlines : (chainOf (lines.map Line.item)).levels ≤ 3 := by
    refine levels_chainOf fun item hitem => ?_
    obtain ⟨l, -, rfl⟩ := List.mem_map.mp hitem
    exact levels_item l
  simp only [script, Item.levels, Chain.levels]
  omega

section File

variable {lines : List Line} {fmt : Bool} {file : List Byte} {stack : Nat}

/-- A script that the block has room for is parsed, and the zeros behind it are left. -/
theorem parse_initCodeBlock (hfile : printValue fmt (script lines) 0 = some file)
    (hstack : 5 ≤ stack) (hlen : file.length ≤ initCodeMaxLen) :
    cJSONParse stack (initCodeBlock file) =
      .ok (script lines) (List.replicate (initCodeMaxLen - file.length) 0) := by
  cases (printValue_eq fmt (sound_script lines) 0).symm.trans hfile
  rw [initCodeBlock, List.take_of_length_le hlen]
  exact parse_text (sound_script lines) fmt ((levels_script lines).trans hstack)
    fun h => absurd h id

/-- One that the block has no room for is parsed beyond it. -/
theorem parse_initCodeBlock_long (hfile : printValue fmt (script lines) 0 = some file)
    (hstack : 5 ≤ stack) (hlen : initCodeMaxLen < file.length) :
    cJSONParse stack (initCodeBlock file) = .fault ∨
      cJSONParse stack (initCodeBlock file) = .stuck := by
  cases (printValue_eq fmt (sound_script lines) 0).symm.trans hfile
  -- the whole file would have been parsed to its end, and some of it is cut off
  have hwhole : cJSONParse stack ((script lines).text fmt 0 ++ []) = .ok (script lines) [] :=
    parse_text (sound_script lines) fmt ((levels_script lines).trans hstack) fun h => absurd h id
  rw [List.append_nil, ← List.take_append_drop initCodeMaxLen ((script lines).text fmt 0)] at hwhole
  rw [initCodeBlock, Nat.sub_eq_zero_of_le hlen.le, List.replicate_zero, List.append_nil]
  refine (proper_cJSONParse stack).fault_or_stuck_of_cut hwhole ?_
  rw [List.length_nil, List.length_drop]
  omega

/-- With a level of stack for every byte of the block it goes behind its end. -/
theorem parse_initCodeBlock_fault (hfile : printValue fmt (script lines) 0 = some file)
    (hlen : initCodeMaxLen < file.length) (hstack : initCodeMaxLen < stack) :
    cJSONParse stack (initCodeBlock file) = .fault := by
  have hblock : (initCodeBlock file).length < stack := by
    rw [initCodeBlock, List.length_append, List.length_take, List.length_replicate]
    omega
  have h5 : 5 ≤ initCodeMaxLen := by decide
  exact (parse_initCodeBlock_long hfile (h5.trans hstack.le) hlen).resolve_right
    ((ends_cJSONParse stack).back hblock)

end File

/-! ## What arrives -/

section Arrives

variable {stack : Nat} {open_ : List Byte → Option (List Byte)} {channel : Int}
  {name file : List Byte}

/-- **A script on the wire**: whatever the JSON in the file is, the slave takes every word of its
lines, in order and while it is selected, and in the end it is selected as the last register leaves
it: by the hx8298c, if that has no parameters. -/
theorem initCode_sampled {rest : List Byte} {root : Item} (hname : name.length ≤ 114)
    (hopen : open_ (ascii "cfg/initcode/" ++ name) = some file)
    (hparse : cJSONParse stack (initCodeBlock file) = .ok root rest) (present : Nat → Bool)
    {s : Spi.VirtualSpiCtrl × Spi.Board} (hs : Spi.Resting s) :
    ∃ actions, sndInitCode chip stack open_ channel (some name) =
        some (vspiCtrlInstance (translateDevChannel2Local channel), actions) ∧
      Written chip (codeLines root) actions present s := by
  refine ⟨_, ?_, written_lines chip (codeLines root) present hs⟩
  rw [sndInitCode_eq chip hname hopen, parseInitCodeAndProcess_eq chip hparse]
  rfl

/-- A file with two registers; the slave stays selected. -/
theorem initCode_sampled_two : ∃ actions,
    sndInitCode .hx8298c 5 (fun _ => some ((script [.reg 0x36 (some [0xf0]), .reg 0x29 none]).text
      true 0)) 1 (some (ascii "panel.json")) = some (1, actions) ∧
    Written .hx8298c (codeLines (script [.reg 0x36 (some [0xf0]), .reg 0x29 none])) actions
      (fun _ => false) (Spi.spiCtrlInit Spi.resetBoard) := by
  have hname : (ascii "panel.json").length ≤ 114 := by decide
  have hlen : ((script [.reg 0x36 (some [0xf0]), .reg 0x29 none]).text true 0).length ≤
    initCodeMaxLen := by decide +kernel
  have hparse := parse_initCodeBlock (printValue_eq true (sound_script _) 0) (Nat.le_refl 5) hlen
  refine initCode_sampled .hx8298c hname ?_ hparse (fun _ => false)
    (Spi.resting_spiCtrlInit Spi.resetBoard)
  rfl

/-- **A script that is printed into a file arrives**, formatted or not, if and only if the file is
at most as long as the block. On a longer one the parser leaves the block. -/
theorem initCode_script {lines : List Line} {fmt : Bool}
    (hfile : printValue fmt (script lines) 0 = some file) (hstack : 5 ≤ stack)
    (hname : name.length ≤ 114) (hopen : open_ (ascii "cfg/initcode/" ++ name) = some file)
    (present : Nat → Bool) {s : Spi.VirtualSpiCtrl × Spi.Board} (hs : Spi.Resting s) :
    ((∃ actions, sndInitCode chip stack open_ channel (some name) =
        some (vspiCtrlInstance (translateDevChannel2Local channel), actions) ∧
      Written chip lines actions present s) ↔ file.length ≤ initCodeMaxLen) ∧
    (initCodeMaxLen < file.length → initCodeMaxLen < stack →
      cJSONParse stack (initCodeBlock file) = .fault) := by
  refine ⟨?_, parse_initCodeBlock_fault hfile⟩
  rw [sndInitCode_eq chip hname hopen]
  constructor
  · rintro ⟨actions, hsnd, -⟩
    -- a file that is longer is cut off in the block: the parser leaves the block or does not return
    by_contra hlong
    have hnone : parseInitCodeAndProcess chip stack (initCodeBlock file) = none := by
      unfold parseInitCodeAndProcess
      rcases parse_initCodeBlock_long hfile hstack (Nat.lt_of_not_le hlong) with h | h <;> rw [h]
    rw [hnone] at hsnd
    cases hsnd
  · intro hlen
    refine ⟨_, ?_, written_lines chip lines present hs⟩
    rw [parseInitCodeAndProcess_eq chip (parse_initCodeBlock hfile hstack hlen), codeLines_script]
    rfl

/-- Two registers and a pause between them, without spaces. -/
theorem initCode_script_two :
    let lines := [Line.reg 0x36 (some [0xf0, 0x0f]), .delay 20, .reg 0x29 none]
    ∃ actions, sndInitCode .s1d19k08 5 (fun _ => some ((script lines).text false 0)) 0
        (some (ascii "panel.json")) = some (0, actions) ∧
      Written .s1d19k08 lines actions (fun _ => false) (Spi.spiCtrlInit Spi.resetBoard) := by
  intro lines
  have hlen : ((script lines).text false 0).length ≤ initCodeMaxLen := by decide +kernel
  exact (initCode_script .s1d19k08 (printValue_eq false (sound_script lines) 0) (Nat.le_refl 5)
    (by decide : (ascii "panel.json").length ≤ 114) rfl (fun _ => false)
    (Spi.resting_spiCtrlInit Spi.resetBoard)).1.mpr hlen

end Arrives

end PgClient.Icm.InitCode
