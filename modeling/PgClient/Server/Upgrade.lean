import PgClient.Lib.Block
import PgClient.Lib.PartialRun
import PgClient.Util.LittleEndian

/-!
# Upgrade images

`SERVER2CLI_MSG_FIRMWAREUPDATA`, `SERVER2CLI_MSG_BOXUPDATA` and
`SERVER2CLI_MSG_POWERUPDATA` each receive an image: `BINFILE_BEGIN` allocates what is
announced, `BINFILE_BODY` writes at a pointer that moves on, and `BINFILE_OVER` reads
the image. The pointer is not compared with the end of the block, nor the bytes
received with what is read.

* `packets_isSome_iff` — what the box and the power board read.
* `walk_isSome_iff` — what the walk over the firmware records reads.
* `upgrade_iff` — along every sequence of messages, the messages stay within their
  blocks exactly when each is sound where it comes.
-/

namespace PgClient.Server.Upgrade

open PartialRun

/-! ## Data -/

/-- A block being filled, with its write pointer as an offset; both are `none` for
`NULL`. The size is what the firmware has received, or the others were announced. -/
structure Upload where
  buf : Option (List (Option Byte))
  wpt : Option Nat
  size : Nat

/-- A data packet of an upgrade. -/
structure Packet where
  dataType : Byte
  devType : Byte
  len : Nat
  offset : Nat
  blockSize : Nat
  totalSize : Nat
  payLoad : List Byte

/-- A record of the firmware image, with its name up to the NUL. -/
structure FirmwareFile where
  rfiName : List Byte
  pFileData : List Byte

inductive Event
  | writeFirmware (file : FirmwareFile)
  | updataFirmware (name : List Byte)
  | startUpgrade (devType : Byte)
  | sendPacket (packet : Packet)
  | clientEndFirmwareUpgrade (upgradeType upgradeState : Nat)

/-- The three uploads. -/
structure Uploads where
  tmpFirmware : Upload
  tmpBoxUpdate : Upload
  tmpPowerUpdate : Upload
  log : List Event

def Upload.null : Upload := ⟨none, none, 0⟩

def boot : Uploads := ⟨.null, .null, .null, []⟩

/-! ## Receiving -/

/-- `malloc` of an `int`, if it is granted. -/
def mallocInt (fileSize : Int) (granted : Bool) : Option (List (Option Byte)) :=
  if granted then some (Block.alloc (BitVec.ofInt 32 fileSize).toNat) else none

/-- `BINFILE_BEGIN`. -/
def Upload.start (size : Nat) (fileSize : Int) (granted : Bool) : Upload :=
  let block := mallocInt fileSize granted
  ⟨block, block.map fun _ => 0, size⟩

/-- `BINFILE_BODY`, with what is added to the size. -/
def Upload.body (u : Upload) (pcmd : List Byte) (counted : Nat) : Option Upload :=
  match u.buf, u.wpt with
  | some b, some off =>
    (Block.store b off pcmd).map fun b => ⟨some b, some (off + pcmd.length), u.size + counted⟩
  | _, _ => some u

/-! ## The box and the power board -/

/-- The loop over the packets. -/
def packets (devType : Byte) (totalSize : Nat) (b : List (Option Byte)) :
    Nat → Nat → Nat → Option (List Packet)
  | 0, _, _ => some []
  | fuel + 1, offset, len =>
    if len = 0 then some []
    else do
      -- `dataLen` of the packet: 1024 bytes, or what is left
      let dataLen := if 1024 ≤ len then 1024 else len
      let payLoad ← Block.load b offset dataLen
      let rest ← packets devType totalSize b fuel (offset + dataLen) (len - dataLen)
      some (⟨0x73, devType, 12 + dataLen, offset, dataLen, totalSize, payLoad⟩ :: rest)

/-- `MSG_TYPE_POWER`, and the box's. -/
def msgTypePower : Byte := 0x05
def msgTypeBox : Byte := 0x50

/-- `box_upgrade`, which `MsOS_SendMessage` waits for. -/
def boxUpgrade (fileBuffer : List (Option Byte)) (fileSize : Nat) : Option (List Event) := do
  let ps ← packets msgTypeBox fileSize fileBuffer fileSize 0 fileSize
  some (.startUpgrade msgTypeBox :: ps.map .sendPacket)

/-- `pwrUpgrade`, which is given the size as an `int`. -/
def pwrUpgrade (pData : List (Option Byte)) (size : Nat) : Option (List Event) :=
  if (BitVec.ofNat 32 size).toInt ≤ 0 then some []
  else do
    let ps ← packets msgTypePower size pData size 0 size
    some (.startUpgrade msgTypePower :: ps.map .sendPacket)

/-! ## The firmware -/

/-- `strcpy` and `strlen` from the block: the bytes up to the NUL. -/
def loadName (b : List (Option Byte)) : Nat → Nat → Option (List Byte)
  | 0, _ => none
  | fuel + 1, off => do
    let c ← Block.load b off 1
    if c = [0] then some [] else (loadName b fuel (off + 1)).map (c ++ ·)

/-- An `int` in the block. -/
def loadInt (b : List (Option Byte)) (off : Nat) : Option Int :=
  (Block.load b off 4).map fun bs => (le32 bs).toInt

/-- The places for the name: `rfiName`, and `dst_file` of `client_pg_firmware`. -/
def nameFits (name : List Byte) : Prop := name.length < 256 ∧ "/home/updata/".length + name.length < 256

instance (name : List Byte) : Decidable (nameFits name) := inferInstanceAs (Decidable (_ ∧ _))

/-- `sizeof(SUpdataFileList)`. -/
def sizeofSUpdataFileList : Nat := 264

/-- One turn of the record loop: the file, its size and `hasnext`. A negative size
makes `memcpy` run over everything. -/
def loadRecord (b : List (Option Byte)) (off : Nat) : Option (FirmwareFile × Nat × Int) := do
  let name ← loadName b (b.length + 1) off
  let filesize ← loadInt b (off + 256)
  let hasnext ← loadInt b (off + 260)
  if nameFits name ∧ 0 ≤ filesize then
    let data ← Block.load b (off + sizeofSUpdataFileList) filesize.toNat
    some (⟨name, data⟩, filesize.toNat, hasnext)
  else none

/-- The record loop. -/
def walk (b : List (Option Byte)) : Nat → Nat → Option (List FirmwareFile)
  | 0, _ => none
  | fuel + 1, off => do
    let (file, filesize, hasnext) ← loadRecord b off
    if hasnext = 1 then
      let files ← walk b fuel (off + sizeofSUpdataFileList + filesize)
      some (file :: files)
    else some [file]

/-- What is done with the files; the last name goes to the script. -/
def firmwareEvents (files : List FirmwareFile) : List Event :=
  files.map .writeFirmware ++ [.clientEndFirmwareUpgrade 0 0] ++
    (files.getLast?.map fun file => Event.updataFirmware file.rfiName).toList

/-! ## Messages -/

inductive Channel
  | firmware
  | box
  | power
  deriving DecidableEq

/-- The types of the three messages; whether `malloc` grants the block, and the bytes
of a body. -/
inductive BinFile
  | binfileBegin (fileSize : Int) (granted : Bool)
  | binfileBody (pcmd : List Byte)
  | binfileOver

structure Msg where
  channel : Channel
  type : BinFile

/-- What the three have in common: `size` is what `BINFILE_BEGIN` sets and `counted`
what a body adds to it, `read` is what `BINFILE_OVER` does with the block, and `left`
what it leaves. -/
def binfile (size : Int → Nat) (counted : List Byte → Nat)
    (read : List (Option Byte) → Option (List Event)) (left : Upload) (u : Upload) :
    BinFile → Option (Upload × List Event)
  | .binfileBegin fileSize granted => some (Upload.start (size fileSize) fileSize granted, [])
  | .binfileBody pcmd => (u.body pcmd (counted pcmd)).map fun u => (u, [])
  | .binfileOver =>
    match u.buf with
    -- without a block the message is answered and nothing is read
    | none => some (u, [])
    | some b => (read b).map fun es => (left, es)

/-- `msgProc`: `SERVER2CLI_MSG_FIRMWAREUPDATA`. -/
def msgFirmware (u : Upload) : BinFile → Option (Upload × List Event) :=
  binfile (fun _ => 0) List.length (fun b => (walk b (b.length + 1) 0).map firmwareEvents)
    ⟨none, none, u.size⟩ u

/-- `msgProc`: `SERVER2CLI_MSG_BOXUPDATA`. -/
def msgBox (u : Upload) : BinFile → Option (Upload × List Event) :=
  binfile (fun fileSize => (BitVec.ofInt 32 fileSize).toNat) (fun _ => 0)
    (fun b => (boxUpgrade b u.size).map (· ++ [.clientEndFirmwareUpgrade 1 0])) .null u

/-- `msgProc`: `SERVER2CLI_MSG_POWERUPDATA`. -/
def msgPower (u : Upload) : BinFile → Option (Upload × List Event) :=
  binfile (fun fileSize => (BitVec.ofInt 32 fileSize).toNat) (fun _ => 0)
    (fun b => (pwrUpgrade b u.size).map (· ++ [.clientEndFirmwareUpgrade 2 0])) .null u

def Uploads.upload (srv : Uploads) : Channel → Upload
  | .firmware => srv.tmpFirmware
  | .box => srv.tmpBoxUpdate
  | .power => srv.tmpPowerUpdate

def Uploads.setUpload (srv : Uploads) (u : Upload) (es : List Event) : Channel → Uploads
  | .firmware => { srv with tmpFirmware := u, log := srv.log ++ es }
  | .box => { srv with tmpBoxUpdate := u, log := srv.log ++ es }
  | .power => { srv with tmpPowerUpdate := u, log := srv.log ++ es }

/-- The message of the channel. -/
def msgProc : Channel → Upload → BinFile → Option (Upload × List Event)
  | .firmware => msgFirmware
  | .box => msgBox
  | .power => msgPower

def Msg.step (m : Msg) (srv : Uploads) : Option Uploads :=
  (msgProc m.channel (srv.upload m.channel) m.type).map fun (u, es) => srv.setUpload u es m.channel

/-- The message stays within its block: no byte is written outside it, and none is
read that was not received. -/
def Msg.Handled (m : Msg) (srv : Uploads) : Prop := (m.step srv).isSome

/-! ## When they are sound -/

/-- The bytes received since `BINFILE_BEGIN`. -/
def Upload.received (u : Upload) : List Byte :=
  match u.buf, u.wpt with
  | some b, some off => (b.take off).filterMap id
  | _, _ => []

/-- `filesize` and `hasnext` of the record at the front. -/
def filesizeOf (d : List Byte) : Int := (le32 (RingBuffer.slice d 256 4)).toInt
def hasnextOf (d : List Byte) : Int := (le32 (RingBuffer.slice d 260 4)).toInt

/-- A record: its name ends early enough, and its head and its data are there. -/
structure RecordIn (d : List Byte) : Prop where
  name : 0 ∈ d.take 243
  head : sizeofSUpdataFileList ≤ d.length
  size : 0 ≤ filesizeOf d
  data : sizeofSUpdataFileList + (filesizeOf d).toNat ≤ d.length

/-- A chain of records; the last has no next. -/
inductive Image : List Byte → Prop
  | last {d : List Byte} (hrecord : RecordIn d) (hnext : hasnextOf d ≠ 1) : Image d
  | next {d : List Byte} (hrecord : RecordIn d) (hnext : hasnextOf d = 1)
      (rest : Image (d.drop (sizeofSUpdataFileList + (filesizeOf d).toNat))) : Image d

/-- What the reader of the channel needs of the bytes received, if `size` was announced:
for the firmware a chain of records, for the others all that was announced. -/
def Whole (channel : Channel) (size : Nat) (d : List Byte) : Prop :=
  match channel with
  | .firmware => Image d
  | .box => size ≤ d.length
  | .power => (BitVec.ofNat 32 size).toInt ≤ 0 ∨ size ≤ d.length

/-- After a granted `BINFILE_BEGIN`, a body fits what was announced together with the
bodies before it, and the image is as `P` says at the end. -/
def BinFile.Sound (P : List Byte → Prop) (u : Upload) : BinFile → Prop
  | .binfileBegin _ _ => True
  | .binfileBody pcmd => ∀ b, u.buf = some b → u.received.length + pcmd.length ≤ b.length
  | .binfileOver => u.buf ≠ none → P u.received

def Msg.Sound (m : Msg) (srv : Uploads) : Prop :=
  m.type.Sound (Whole m.channel (srv.upload m.channel).size) (srv.upload m.channel)

/-! ## What is kept -/

@[simp] theorem upload_setUpload (srv : Uploads) (u : Upload) (es : List Event) (channel : Channel) :
    (srv.setUpload u es channel).upload channel = u := by cases channel <;> rfl

/-- An upload set on one channel leaves those of the others. -/
theorem upload_setUpload_ne {srv : Uploads} {u : Upload} {es : List Event} {c channel : Channel}
    (hne : c ≠ channel) : (srv.setUpload u es channel).upload c = srv.upload c := by
  cases c <;> cases channel <;> first | rfl | exact absurd rfl hne

/-- The pointer stands where the bytes received end. -/
structure Upload.Ok (u : Upload) : Prop where
  null : u.buf = none → u.wpt = none
  filled : ∀ b, u.buf = some b →
    ∃ data, u.wpt = some data.length ∧ Block.Filled b data ∧ u.received = data

/-- An upload without a buffer is in order. -/
theorem ok_null (size : Nat) : Upload.Ok ⟨none, none, size⟩ := ⟨fun _ => rfl, nofun⟩

/-- An upload that starts is in order, with or without its memory. -/
theorem ok_start (size : Nat) (fileSize : Int) (granted : Bool) :
    (Upload.start size fileSize granted).Ok := by
  unfold Upload.start mallocInt
  cases granted with
  | false => exact ok_null size
  | true =>
    refine ⟨nofun, ?_⟩
    intro b hb
    obtain rfl := Option.some.inj hb
    exact ⟨[], rfl, Block.filled_alloc _, rfl⟩

/-- What has been received is what fills the buffer. -/
theorem received_eq {b : List (Option Byte)} {data : List Byte} (h : Block.Filled b data) (size : Nat) :
    Upload.received ⟨some b, some data.length, size⟩ = data := by
  obtain ⟨k, rfl⟩ := h
  unfold Upload.received
  have hlen : (data.map some).length = data.length := List.length_map _
  simp only [← hlen, List.take_left]
  simp [List.filterMap_map]

/-- A body is stored if it fits. -/
theorem body_spec {u : Upload} (hok : u.Ok) (pcmd : List Byte) (counted : Nat) :
    ((u.body pcmd counted).isSome ↔
      ∀ b, u.buf = some b → u.received.length + pcmd.length ≤ b.length) ∧
      ∀ u', u.body pcmd counted = some u' → u'.Ok := by
  unfold Upload.body
  cases hbuf : u.buf with
  -- a body without a block is dropped
  | none => exact ⟨by simp, fun u' hu' => by rwa [← Option.some.inj hu']⟩
  | some b =>
    obtain ⟨data, hwpt, hfilled, hreceived⟩ := hok.filled b hbuf
    rw [hwpt, hreceived]
    by_cases hroom : data.length + pcmd.length ≤ b.length
    · -- it is appended, and the pointer moves on by its length
      obtain ⟨b', hstore, hfilled', -⟩ := Block.store_filled hfilled hroom
      simp only [hstore, Option.map_some, Option.isSome_some, true_iff, Option.some.injEq]
      refine ⟨by rintro _ rfl; exact hroom, ?_⟩
      rintro _ rfl
      refine ⟨nofun, ?_⟩
      intro b'' hb''
      obtain rfl := Option.some.inj hb''
      have hlen : data.length + pcmd.length = (data ++ pcmd).length := by simp
      rw [hlen]
      exact ⟨data ++ pcmd, rfl, hfilled', received_eq hfilled' _⟩
    · -- it is written past the block
      have hnone : Block.store b data.length pcmd = none :=
        Block.store_eq_none_iff.mpr (not_le.mp hroom)
      simp only [hnone, Option.map_none]
      exact ⟨iff_of_false (by simp) fun h => hroom (h b rfl), nofun⟩

/-! ## What is read -/

section Reads

variable {b : List (Option Byte)} {data : List Byte}

/-- One packet and the ones after it. -/
theorem packet_isSome_iff (h : Block.Filled b data) (devType : Byte) (totalSize : Nat)
    {fuel offset len dataLen : Nat} (hpos : 0 < dataLen) (hle : dataLen ≤ len)
    (ih : (packets devType totalSize b fuel (offset + dataLen) (len - dataLen)).isSome ↔
      len - dataLen = 0 ∨ offset + dataLen + (len - dataLen) ≤ data.length) :
    (do
      let payLoad ← Block.load b offset dataLen
      let rest ← packets devType totalSize b fuel (offset + dataLen) (len - dataLen)
      some (⟨0x73, devType, 12 + dataLen, offset, dataLen, totalSize, payLoad⟩ :: rest) :
        Option (List Packet)).isSome ↔ len = 0 ∨ offset + len ≤ data.length := by
  -- the packet lies in what was received, or it reads past it
  by_cases hin : offset + dataLen ≤ data.length
  · simp only [Block.load_filled h hin, Option.bind_eq_bind, Option.bind_some,
      Option.isSome_bind, Option.isSome_some]
    rw [Option.any_true, ih]
    omega
  · rw [Block.load_beyond h hpos (not_le.mp hin)]
    simp only [Option.bind_eq_bind, Option.bind_none, Option.isSome_none]
    exact iff_of_false Bool.false_ne_true (by omega)

/-- The packets are read exactly where all their bytes were received. -/
theorem packets_isSome_iff (h : Block.Filled b data) (devType : Byte) (totalSize : Nat) :
    ∀ fuel offset len, len ≤ fuel →
      ((packets devType totalSize b fuel offset len).isSome ↔
        len = 0 ∨ offset + len ≤ data.length) := by
  intro fuel
  induction fuel with
  | zero =>
    intro offset len hfuel
    simp [packets, Nat.le_zero.mp hfuel]
  | succ fuel ih =>
    intro offset len hfuel
    unfold packets
    split_ifs with hzero hbig
    · simp [hzero]
    -- a full packet, or the rest in a last one
    · exact packet_isSome_iff h devType totalSize (Nat.succ_pos _) hbig (ih _ _ (by omega))
    · have hpos : 0 < len := Nat.pos_of_ne_zero hzero
      exact packet_isSome_iff h devType totalSize hpos le_rfl (ih _ _ (by omega))

/-- A name is read up to its NUL, if there is one. -/
theorem loadName_eq (h : Block.Filled b data) :
    ∀ fuel off, data.length < fuel + off →
      loadName b fuel off =
        if 0 ∈ data.drop off then some ((data.drop off).takeWhile (· ≠ 0)) else none := by
  intro fuel
  -- on the bytes to be looked at; none is left behind the end of the data
  induction fuel with
  | zero =>
    intro off hfuel
    rw [List.drop_of_length_le (by omega)]
    rfl
  | succ fuel ih =>
    intro off hfuel
    unfold loadName
    rcases Nat.lt_or_ge off data.length with hlt | hge
    · have hslice : RingBuffer.slice data off 1 = [data[off]] := by
        rw [RingBuffer.slice, List.drop_eq_getElem_cons hlt]
        rfl
      -- a byte that was received
      rw [Block.load_filled h hlt, hslice, List.drop_eq_getElem_cons hlt, ih (off + 1) (by omega),
        List.takeWhile_cons]
      simp only [Option.bind_eq_bind, Option.bind_some, List.cons.injEq, and_true, List.mem_cons]
      by_cases hnul : data[off] = 0
      · simp [hnul]
      · have hne : (0 : Byte) ≠ data[off] := fun heq => hnul heq.symm
        have hgo : decide (data[off] ≠ 0) = true := decide_eq_true hnul
        rw [if_neg hnul, hgo]
        by_cases hmem : 0 ∈ data.drop (off + 1)
        · -- this byte is no NUL, so the name ends where the rest has its first one
          rw [if_pos hmem, if_pos (show 0 = data[off] ∨ _ from Or.inr hmem)]
          rfl
        · rw [if_neg hmem, if_neg (show ¬(0 = data[off] ∨ _) from not_or.mpr ⟨hne, hmem⟩)]
          rfl
    · -- past them there is no NUL
      rw [Block.load_beyond h Nat.one_pos (by omega), List.drop_of_length_le hge]
      simp

/-- A string is short when its NUL comes early. -/
theorem length_takeWhile_lt_iff {d : List Byte} (hnul : 0 ∈ d) (n : Nat) :
    (d.takeWhile (· ≠ 0)).length < n ↔ 0 ∈ d.take n := by
  induction d generalizing n with
  | nil => cases hnul
  | cons c d ih =>
    cases n with
    | zero => simp
    -- the string ends before `n` exactly if a NUL is among the first `n` bytes
    | succ n =>
      rw [List.take_succ_cons, List.mem_cons, List.takeWhile_cons]
      by_cases hc : c = 0
      · simp [hc]
      · have hne : (0 : Byte) ≠ c := fun heq => hc heq.symm
        have hrest : 0 ∈ d := (List.mem_cons.mp hnul).resolve_left hne
        rw [if_pos (by simpa using hc), List.length_cons, Nat.succ_lt_succ_iff, ih hrest n]
        exact ⟨Or.inr, fun h => h.resolve_left hne⟩

/-- It fits behind the directory up to 242 bytes. -/
theorem nameFits_iff {name : List Byte} : nameFits name ↔ name.length < 243 := by
  unfold nameFits
  have hlen : "/home/updata/".length = 13 := rfl
  omega

/-- The two numbers of a record whose head is there. -/
theorem loadInt_head (h : Block.Filled b data) {off : Nat}
    (hhead : sizeofSUpdataFileList ≤ (data.drop off).length) :
    loadInt b (off + 256) = some (filesizeOf (data.drop off)) ∧
      loadInt b (off + 260) = some (hasnextOf (data.drop off)) := by
  unfold sizeofSUpdataFileList at hhead
  rw [List.length_drop] at hhead
  unfold loadInt filesizeOf hasnextOf
  rw [Block.load_filled h (by omega), Block.load_filled h (by omega)]
  simp only [RingBuffer.slice, List.drop_drop, Option.map_some, and_self]

/-- An int that is not all there is not read. -/
theorem loadInt_beyond (h : Block.Filled b data) {off : Nat} (hout : data.length < off + 4) :
    loadInt b off = none := by
  unfold loadInt
  rw [Block.load_beyond h (by decide) hout]
  rfl

/-- The file of the record at the front. -/
def fileOf (d : List Byte) : FirmwareFile :=
  ⟨d.takeWhile (· ≠ 0), RingBuffer.slice d sizeofSUpdataFileList (filesizeOf d).toNat⟩

/-- A record that is there. -/
theorem loadRecord_eq (h : Block.Filled b data) {off : Nat} (hrecord : RecordIn (data.drop off)) :
    loadRecord b off = some (fileOf (data.drop off), (filesizeOf (data.drop off)).toNat,
      hasnextOf (data.drop off)) := by
  obtain ⟨hname, hhead, hsize, hdata⟩ := hrecord
  have hnul : 0 ∈ data.drop off := List.mem_of_mem_take hname
  have hle := h.length_le
  -- the path built from the name fits its buffer: the NUL comes in time
  have hfits : nameFits ((data.drop off).takeWhile (· ≠ 0)) :=
    nameFits_iff.mpr ((length_takeWhile_lt_iff hnul 243).mpr hname)
  obtain ⟨hfilesize, hhasnext⟩ := loadInt_head h hhead
  -- the 264 bytes of the head and the data behind it were all received
  have hin : off + sizeofSUpdataFileList + (filesizeOf (data.drop off)).toNat ≤ data.length := by
    have hpos : 0 < sizeofSUpdataFileList := by decide
    rw [List.length_drop] at hdata
    omega
  unfold loadRecord
  rw [loadName_eq h _ _ (by omega), if_pos hnul, hfilesize, hhasnext]
  simp only [Option.bind_eq_bind, Option.bind_some]
  rw [if_pos ⟨hfits, hsize⟩, Block.load_filled h hin, Option.bind_some, fileOf,
    RingBuffer.slice, RingBuffer.slice, List.drop_drop]

/-- A record that is read is there. -/
theorem recordIn_of_loadRecord (h : Block.Filled b data) {off : Nat}
    (hsome : (loadRecord b off).isSome) : RecordIn (data.drop off) := by
  have hle := h.length_le
  unfold loadRecord at hsome
  rw [loadName_eq h _ _ (by omega)] at hsome
  -- the head first, as the two numbers are at its end
  by_cases hhead : sizeofSUpdataFileList ≤ (data.drop off).length
  · obtain ⟨hfilesize, hhasnext⟩ := loadInt_head h hhead
    rw [hfilesize, hhasnext] at hsome
    split_ifs at hsome with hnul
    · simp only [Option.bind_eq_bind, Option.bind_some] at hsome
      split_ifs at hsome with hfits
      · -- the data is read last, so only it can still be missing
        refine ⟨(length_takeWhile_lt_iff hnul 243).mp (nameFits_iff.mp hfits.1), hhead, hfits.2, ?_⟩
        by_contra hout
        rw [List.length_drop] at hhead hout
        have hnone : Block.load b (off + sizeofSUpdataFileList) (filesizeOf (data.drop off)).toNat =
            none := Block.load_beyond h (by omega) (by omega)
        simp [hnone] at hsome
      · simp at hsome
    · simp at hsome
  · rw [List.length_drop] at hhead
    have hbeyond : loadInt b (off + 260) = none :=
      loadInt_beyond h (by unfold sizeofSUpdataFileList at hhead; omega)
    rw [hbeyond] at hsome
    -- the head ends behind the data, so the numbers in it cannot be read
    split_ifs at hsome <;> cases loadInt b (off + 256) <;> simp at hsome

/-- An image is a record. -/
theorem Image.record {d : List Byte} (h : Image d) : RecordIn d := by
  cases h with
  | last hrecord => exact hrecord
  | next hrecord => exact hrecord

/-- The walk reads exactly a chain of records. -/
theorem walk_isSome_iff (h : Block.Filled b data) :
    ∀ fuel off, data.length < fuel + off →
      ((walk b fuel off).isSome ↔ Image (data.drop off)) := by
  intro fuel
  induction fuel with
  | zero =>
    intro off hfuel
    rw [List.drop_of_length_le (by omega)]
    exact iff_of_false nofun fun himage => absurd himage.record.head (by decide)
  | succ fuel ih =>
    intro off hfuel
    unfold walk
    by_cases hrecord : RecordIn (data.drop off)
    · -- the walk goes on behind its data, so the fuel lasts
      rw [loadRecord_eq h hrecord]
      simp only [Option.bind_eq_bind, Option.bind_some]
      split_ifs with hnext
      · have hrest := ih (off + sizeofSUpdataFileList + (filesizeOf (data.drop off)).toNat) (by
          -- every record is at least its head long
          have hpos : 0 < sizeofSUpdataFileList := by decide
          omega)
        rw [Nat.add_assoc, ← List.drop_drop] at hrest
        rw [Option.isSome_bind, Nat.add_assoc]
        simp only [Option.isSome_some, Option.any_true, hrest]
        constructor
        · exact Image.next hrecord hnext
        · intro himage
          cases himage with
          | last _ hlast => exact absurd hnext hlast
          | next _ _ rest => exact rest
      · exact iff_of_true rfl (Image.last hrecord hnext)
    · -- no record, so the walk stops here and there is no image
      have hnone : loadRecord b off = none :=
        Option.not_isSome_iff_eq_none.mp fun hsome => hrecord (recordIn_of_loadRecord h hsome)
      rw [hnone]
      exact iff_of_false nofun fun himage => hrecord himage.record

end Reads

/-! ## Every message -/

/-- The box reads as many bytes as were announced. -/
theorem boxUpgrade_isSome_iff {b : List (Option Byte)} {data : List Byte} (h : Block.Filled b data)
    (size : Nat) : (boxUpgrade b size).isSome ↔ size ≤ data.length := by
  have hpackets := packets_isSome_iff h msgTypeBox size size 0 size le_rfl
  unfold boxUpgrade
  rw [Option.bind_eq_bind, Option.isSome_bind]
  simp only [Option.isSome_some, Option.any_true, hpackets]
  omega

/-- A size that is not positive as an `int` is not looked at. -/
theorem pwrUpgrade_isSome_iff {b : List (Option Byte)} {data : List Byte} (h : Block.Filled b data)
    (size : Nat) :
    (pwrUpgrade b size).isSome ↔ (BitVec.ofNat 32 size).toInt ≤ 0 ∨ size ≤ data.length := by
  have hpackets := packets_isSome_iff h msgTypePower size size 0 size le_rfl
  unfold pwrUpgrade
  split_ifs with hneg
  · -- a size that is negative as an `int` sends nothing
    simp [hneg]
  · rw [Option.bind_eq_bind, Option.isSome_bind]
    simp only [Option.isSome_some, Option.any_true, hpackets, hneg, false_or]
    omega

section Binfile

variable {size : Int → Nat} {counted : List Byte → Nat}
  {read : List (Option Byte) → Option (List Event)} {left u : Upload}

/-- The message is handled exactly when it is sound. -/
theorem binfile_isSome_iff {P : List Byte → Prop} (hok : u.Ok)
    (hread : ∀ b data, Block.Filled b data → ((read b).isSome ↔ P data)) (type : BinFile) :
    (binfile size counted read left u type).isSome ↔ type.Sound P u := by
  unfold binfile BinFile.Sound
  cases type with
  -- `malloc` may fail, but that writes nothing
  | binfileBegin fileSize granted => exact iff_of_true rfl trivial
  | binfileBody pcmd =>
    rw [Option.isSome_map]
    exact (body_spec hok pcmd (counted pcmd)).1
  | binfileOver =>
    cases hbuf : u.buf with
    | none => simp
    | some b =>
      obtain ⟨data, -, hfilled, hreceived⟩ := hok.filled b hbuf
      simp [hreceived, hread b data hfilled]

/-- And the pointer still stands where the bytes end. -/
theorem binfile_ok (hok : u.Ok) (hleft : left.Ok) {type : BinFile} {u' : Upload} {es : List Event}
    (h : binfile size counted read left u type = some (u', es)) : u'.Ok := by
  unfold binfile at h
  cases type with
  | binfileBegin fileSize granted =>
    obtain ⟨rfl, -⟩ := Prod.mk.inj (Option.some.inj h)
    -- a new block has received nothing yet
    exact ok_start _ fileSize granted
  | binfileBody pcmd =>
    obtain ⟨u₁, hbody, heq⟩ := Option.map_eq_some_iff.mp h
    obtain ⟨rfl, -⟩ := Prod.mk.inj heq
    exact (body_spec hok pcmd (counted pcmd)).2 _ hbody
  | binfileOver =>
    cases hbuf : u.buf with
    | none =>
      rw [hbuf] at h
      obtain ⟨rfl, -⟩ := Prod.mk.inj (Option.some.inj h)
      exact hok
    | some b =>
      rw [hbuf] at h
      obtain ⟨es', -, heq⟩ := Option.map_eq_some_iff.mp h
      obtain ⟨rfl, -⟩ := Prod.mk.inj heq
      -- the block is freed, and `left` is what the channel keeps
      exact hleft

end Binfile

/-- Every upload has its pointer where its bytes end. -/
def Inv (srv : Uploads) : Prop := ∀ channel, (srv.upload channel).Ok

/-- At boot nothing is being received. -/
theorem inv_boot : Inv boot := by
  intro channel
  cases channel <;> exact ok_null 0

/-- A message is handled exactly when it is sound. -/
theorem handled_iff (m : Msg) (srv : Uploads) (h : Inv srv) : m.Handled srv ↔ m.Sound srv := by
  obtain ⟨channel, type⟩ := m
  unfold Msg.Handled Msg.step Msg.Sound
  rw [Option.isSome_map]
  cases channel with
  | firmware =>
    refine binfile_isSome_iff (h .firmware) (fun b data hfilled => ?_) type
    -- the walk reads the block up to where it was filled
    have hle := hfilled.length_le
    rw [Option.isSome_map, walk_isSome_iff hfilled _ 0 (by omega)]
    rfl
  | box =>
    refine binfile_isSome_iff (h .box) (fun b data hfilled => ?_) type
    rw [Option.isSome_map, boxUpgrade_isSome_iff hfilled]
    rfl
  | power =>
    refine binfile_isSome_iff (h .power) (fun b data hfilled => ?_) type
    rw [Option.isSome_map, pwrUpgrade_isSome_iff hfilled]
    rfl

/-- Only the upload of the channel changes, and it stays in order. -/
theorem step_inv (m : Msg) {srv srv' : Uploads} (h : Inv srv) (hstep : m.step srv = some srv') :
    Inv srv' := by
  obtain ⟨channel, type⟩ := m
  obtain ⟨⟨u, es⟩, hmsg, rfl⟩ := Option.map_eq_some_iff.mp hstep
  have hu : u.Ok := by
    cases channel with
    | firmware => exact binfile_ok (h .firmware) (ok_null _) hmsg
    | box => exact binfile_ok (h .box) (ok_null _) hmsg
    | power => exact binfile_ok (h .power) (ok_null _) hmsg
  -- a message of one channel leaves the other two as they were
  intro c
  by_cases hc : c = channel
  · subst hc
    rwa [upload_setUpload]
  · rw [upload_setUpload_ne hc]
    exact h c

/-- The messages stay within their blocks exactly when each is sound where it comes. -/
theorem upgrade_iff (msgs : List Msg) :
    Along Msg.step Msg.Handled msgs boot ↔ Along Msg.step Msg.Sound msgs boot :=
  along_congr handled_iff (fun m _ _ h _ hstep => step_inv m h hstep) msgs inv_boot

/-- A box image announced with no bytes, and one byte that comes. -/
def strayByte : List Msg := [⟨.box, .binfileBegin 0 true⟩, ⟨.box, .binfileBody [0x41]⟩]

/-- One byte for which no upload was begun. -/
theorem strayByte_not_handled : ¬Along Msg.step Msg.Handled strayByte boot := by
  rintro ⟨-, hrest⟩
  obtain ⟨hbody, -⟩ := hrest _ rfl
  unfold Msg.Handled at hbody
  revert hbody
  decide

end PgClient.Server.Upgrade
