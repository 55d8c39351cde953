import PgClient.Lib.Block
import PgClient.PgDB.LocalDB
import PgClient.Util.Bitmap
import PgClient.Util.Crc32

/-!
# Receiving files from the server

`SERVER2CLI_MSG_SYNCFILE` announces the files of a module, `SERVER2CLI_MSG_UPDATEFILE`
a single one; each makes a file set. `SERVER2CLI_MSG_SENDFILE` brings the bytes of
the set's current file: `BINFILE_BEGIN` allocates, `BINFILE_BODY` stores, and
`BINFILE_OVER` hands the file over.

Following `NULL`, storing outside a block, reading what was not written and copying a name
that does not fit its field are undefined, `none`. What is done with a file behind its block
is a parameter of the message step, `Store`; the code's own is `storeFile`.

* `Inv` — what every message keeps of the list of sets and of their files.
* `handled_iff` — when a message is handled within its buffers.
* `contained_iff` — that, along every sequence of messages and whatever the `Store`.
-/

namespace PgClient.Sync

open Loop PartialRun PgDB

/-! ## Data -/

/-- An entry of `FilesArray`. -/
structure FileInfo where
  rfiName : String
  rfiSize : Nat
  rfiTime : Int32
  size_lt : rfiSize < 2 ^ 31

/-- `recv_file_info_t`. -/
structure RecvFile where
  info : FileInfo
  pFileData : Option (List (Option Byte))
  actRecvSize : Nat

/-- What `fn_recv_file` is. -/
inductive FnRecvFile
  | syncFile
  | downFile
  deriving DecidableEq

/-- `dwn_file_info_t`. -/
structure DwnFileInfo where
  srcFileName : String
  srcFileType : String
  dstFileName : String

/-- `recv_file_info_set_t`, with the `totalFilesNums` entries of `pRecv_file_info`. -/
structure RecvSet where
  curNo : Nat
  files : List RecvFile
  fnRecvFile : FnRecvFile
  param : Option DwnFileInfo

/-- What the client does to the outside. -/
inductive Event
  | clientPgShutON
  | clientGetFile (fileName : String) (infoSet : Nat)
  | writeFile (dst : String) (data : List Byte)
  | writePtn (ptnFullName : String) (data : List Byte)
  | writeSyncConfig (syncProcess : Nat)
  | clientSyncStatu
  | clientSyncFinish
  | pgDoBoxHomeProc
  deriving DecidableEq

/-- The client. The sets are at their addresses; `nextSet` is the next one. -/
structure Client where
  db : Db
  recvFileList : LoopList Nat
  sets : Nat → Option RecvSet
  nextSet : Nat
  pgPwrStatus : Int
  curModuleName : String
  log : List Event

namespace Client

def emit (c : Client) (es : List Event) : Client := { c with log := c.log ++ es }

/-- Write a set. -/
def setAt (c : Client) (p : Nat) (s : RecvSet) : Client :=
  { c with sets := Function.update c.sets p (some s) }

/-- `free` a set. -/
def freeSet (c : Client) (p : Nat) : Client := { c with sets := Function.update c.sets p none }

end Client

/-! ## The code -/

/-- `recv_file_list_init`. -/
def recvFileListInit : LoopList Nat := LoopList.create 10

/-- `searchRecvConn`. -/
def searchRecvConn (precvConn precv : Nat) : Bool :=
  precvConn ≠ 0 ∧ precv ≠ 0 ∧ precvConn = precv

def recvFileListGet (c : Client) (pData : Nat) : Option Nat :=
  c.recvFileList.search fun p => searchRecvConn p pData

def recvFileListInsert (c : Client) (pData : Nat) : Client :=
  { c with recvFileList := c.recvFileList.pushToTail pData }

/-- `recv_file_list_del`; `NULL` is not in the list. -/
def recvFileListDel (c : Client) (pData : Nat) : Client :=
  match recvFileListGet c pData with
  | none => c
  | some p => { c with recvFileList := c.recvFileList.remove p }

/-- `get_cur_file_info`. -/
def RecvSet.cur (s : RecvSet) : Option RecvFile := s.files[s.curNo]?

/-- `add_file_index`. -/
def RecvSet.addFileIndex (s : RecvSet) : RecvSet := { s with curNo := s.curNo + 1 }

/-- Write the entry `i`. -/
def RecvSet.setFile (s : RecvSet) (i : Nat) (f : RecvFile) : RecvSet :=
  { s with files := s.files.set i f }

/-- `find_file_from_local_db`. -/
def findFileFromLocalDb (db : Db) (f : FileInfo) : Bool :=
  match localDBGetRec db f.rfiName with
  | some r => r.fileTime = f.rfiTime.toInt ∧ r.fileSize = f.rfiSize
  | none => false

/-- The loop of `client_getFileFromSet`. -/
def skipFound (db : Db) : Nat → RecvSet → RecvSet
  | 0, s => s
  | fuel + 1, s =>
    match s.cur with
    | none => s
    | some f => if findFileFromLocalDb db f.info then skipFound db fuel s.addFileIndex else s

/-- `client_getFileFromSet`, with its result. -/
def clientGetFileFromSet (c : Client) (infoSet : Nat) : Option (Client × Int) := do
  let s ← c.sets infoSet
  let s := skipFound c.db s.files.length s
  let c := c.setAt infoSet s
  match s.cur with
  | some f => some (c.emit [.clientGetFile f.info.rfiName infoSet], 0)
  | none => some (c, -1)

/-- The end of a sync. -/
def syncEnd (c : Client) (infoSet : Nat) : Client :=
  ((recvFileListDel c infoSet).freeSet infoSet).emit [.clientSyncFinish, .pgDoBoxHomeProc]

/-- Ask for the next file of the set, or end the sync. -/
def nextFile (c : Client) (infoSet : Nat) : Option Client := do
  let (c, ret) ← clientGetFileFromSet c infoSet
  if ret ≠ 0 then some (syncEnd c infoSet) else some c

/-- Read the first `n` bytes at the pointer. -/
def loadAt (pFileData : Option (List (Option Byte))) (n : Nat) : Option (List Byte) :=
  match pFileData with
  | none => if n = 0 then some [] else none
  | some b => Block.load b 0 n

/-- `memcpy` to the pointer plus an offset. -/
def storeAt (pFileData : Option (List (Option Byte))) (off : Nat) (data : List Byte) :
    Option (Option (List (Option Byte))) :=
  match pFileData with
  | none => if data = [] then some none else none
  | some b => (Block.store b off data).map some

/-- Where the file goes. -/
def dstFile (f : FileInfo) : String := "./" ++ f.rfiName

/-- What is done with the bytes of a file, and the records: it may be undefined. -/
abbrev Store := FileInfo → List Byte → Db → Option (Db × List Event)

/-- The `Store` of `client_pg_syncFile`: a picture goes to the patterns, too, and the file
is recorded. -/
def storeFile (refuses : Stmt → String → Bool) : Store := fun f data db =>
  -- `dst_file` has 256 bytes
  if (dstFile f).utf8ByteSize < 256 then do
    let ptn ← Bitmap.saveBmpToPtn (dstFile f) data
    let db ← syncRecord refuses db f.rfiName f.rfiTime (Int32.ofNat f.rfiSize)
    some (db, ptn.toList.map fun file => .writePtn file.1 file.2)
  else none

/-- What a file that is done does to the outside. -/
def syncEvents (s : RecvSet) (f : FileInfo) (data : List Byte) (es : List Event) : List Event :=
  [.writeFile (dstFile f) data] ++ es ++
    [.writeSyncConfig ((s.curNo + 1) * 100 / s.files.length), .clientSyncStatu]

section Messages

variable (store : Store)

/-- `client_pg_syncFile`. Without a current file it goes on to follow `NULL`. -/
def clientPgSyncFile (c : Client) (infoSet : Nat) : Option Client := do
  let s ← c.sets infoSet
  let f ← s.cur
  let data ← loadAt f.pFileData f.info.rfiSize
  let (db, es) ← store f.info data c.db
  let c := { c with db := db }.emit (syncEvents s f.info data es)
  nextFile (c.setAt infoSet s.addFileIndex) infoSet

/-- `client_pg_downFile`. -/
def clientPgDownFile (c : Client) (infoSet : Nat) : Option Client := do
  let s ← c.sets infoSet
  match s.param with
  | none => some c
  | some info =>
    let f ← s.cur
    let data ← loadAt f.pFileData f.actRecvSize
    some (c.emit [.writeFile info.dstFileName data])

/-- A name that fits `curModuleName`, `rfiName`, `srcFileName` or `dstFileName`. -/
def NameFits (name : String) : Prop := name.utf8ByteSize < 256

instance (name : String) : Decidable (NameFits name) := inferInstanceAs (Decidable (_ < _))

/-- The names of a `SERVER2CLI_MSG_SYNCFILE` fit; `strcpy` to `rfiName` would run into the
size, which is there already. -/
def NamesFit (tstModleName : String) (filesArray : List FileInfo) : Prop :=
  NameFits tstModleName ∧ ∀ f ∈ filesArray, NameFits f.rfiName

instance (tstModleName : String) (filesArray : List FileInfo) :
    Decidable (NamesFit tstModleName filesArray) := inferInstanceAs (Decidable (_ ∧ _))

/-- The names of a `SERVER2CLI_MSG_UPDATEFILE` fit. -/
def DwnFileInfo.Fits (info : DwnFileInfo) : Prop :=
  NameFits info.srcFileName ∧ info.srcFileType.utf8ByteSize < 16 ∧ NameFits info.dstFileName

instance (info : DwnFileInfo) : Decidable info.Fits := inferInstanceAs (Decidable (_ ∧ _))

/-- The set of a sync, before its first file. -/
def syncSet (filesArray : List FileInfo) : RecvSet :=
  ⟨0, filesArray.map fun info => ⟨info, none, 0⟩, .syncFile, none⟩

/-- The set of a single file. -/
def downSet (info : DwnFileInfo) : RecvSet :=
  ⟨0, [⟨⟨info.srcFileName, 0, 0, by decide⟩, none, 0⟩], .downFile, some info⟩

/-- The client when the set of a sync is in the list. -/
def syncStart (c : Client) (tstModleName : String) (filesArray : List FileInfo) : Client :=
  let c := if c.pgPwrStatus ≠ 0 then { c.emit [.clientPgShutON] with pgPwrStatus := 0 } else c
  let p := c.nextSet
  let c := { c with curModuleName := tstModleName, nextSet := p + 1 }
  recvFileListInsert (c.setAt p (syncSet filesArray)) p

/-- `msgProc`: `SERVER2CLI_MSG_SYNCFILE`. -/
def msgSyncFile (c : Client) (tstModleName : String) (filesArray : List FileInfo) :
    Option Client :=
  if NamesFit tstModleName filesArray then
    nextFile (syncStart c tstModleName filesArray) c.nextSet
  else none

/-- `msgProc`: `SERVER2CLI_MSG_UPDATEFILE`. The set is not put in the list. -/
def msgUpdateFile (c : Client) (info : DwnFileInfo) : Option Client :=
  let p := c.nextSet
  if info.Fits then
    some (({ c with nextSet := p + 1 }.setAt p (downSet info)).emit
      [.clientGetFile info.srcFileName p])
  else none

/-- The types of `SERVER2CLI_MSG_SENDFILE`; whether `malloc` grants the block, and
the bytes of a body. -/
inductive BinFile
  | binfileBegin (granted : Bool)
  | binfileBody (pcmd : List Byte)
  | binfileOver

/-- The size test of a body; the sum is an `unsigned int`. -/
def RecvFile.Takes (f : RecvFile) (len : Nat) : Prop :=
  (f.actRecvSize + len) % 2 ^ 32 ≤ f.info.rfiSize ∨ f.info.rfiSize = 0

/-- The size test at the end. -/
def RecvFile.Complete (f : RecvFile) : Prop :=
  f.info.rfiSize = f.actRecvSize ∨ f.info.rfiSize = 0

instance (f : RecvFile) (len : Nat) : Decidable (f.Takes len) := inferInstanceAs (Decidable (_ ∨ _))

instance (f : RecvFile) : Decidable f.Complete := inferInstanceAs (Decidable (_ ∨ _))

/-- `free` of the block of the entry `i`, where the set is still there. -/
def freeFileData (c : Client) (infoSet i : Nat) : Client :=
  match c.sets infoSet with
  | none => c
  | some s =>
    c.setAt infoSet { s with files := s.files.modify i fun f => { f with pFileData := none } }

/-- The handover, and what follows it. -/
def handOver (c : Client) (infoSet : Nat) (s : RecvSet) : Option Client := do
  let c ←
    match s.fnRecvFile with
    | .syncFile => clientPgSyncFile store c infoSet
    | .downFile => clientPgDownFile c infoSet
  some (freeFileData c infoSet s.curNo)

/-- The set a message is for, and its current file. -/
def Client.target (c : Client) (ipnum : Nat) : Option (Nat × RecvSet × RecvFile) := do
  let p ← recvFileListGet c ipnum
  let s ← c.sets p
  let f ← s.cur
  some (p, s, f)

/-- `msgProc`: `SERVER2CLI_MSG_SENDFILE`. -/
def msgSendFile (c : Client) (ipnum : Nat) (type : BinFile) : Option Client := do
  let (p, s, f) ← c.target ipnum
  match type with
  | .binfileBegin granted =>
    -- `malloc` may fail; a set that has a block already loses it here
    let block := if granted then some (Block.alloc f.info.rfiSize) else none
    some (c.setAt p (s.setFile s.curNo { f with pFileData := block, actRecvSize := 0 }))
  | .binfileBody pcmd =>
    if f.Takes pcmd.length then
      let block ← storeAt f.pFileData f.actRecvSize pcmd
      some (c.setAt p (s.setFile s.curNo
        -- the write position moves by the length of the message, whatever was announced
        { f with pFileData := block, actRecvSize := f.actRecvSize + pcmd.length }))
    else some c
  -- an incomplete file is reported and nothing else happens
  | .binfileOver => if f.Complete then handOver store c p s else some c

inductive Msg
  | syncFile (tstModleName : String) (filesArray : List FileInfo)
  | updateFile (info : DwnFileInfo)
  | sendFile (ipnum : Nat) (type : BinFile)

def Msg.step : Msg → Client → Option Client
  | .syncFile tstModleName filesArray, c => msgSyncFile c tstModleName filesArray
  | .updateFile info, c => msgUpdateFile c info
  | .sendFile ipnum type, c => msgSendFile store c ipnum type

end Messages

/-- The client as it starts, on a local database. -/
def boot (db : Db) : Client := ⟨db, recvFileListInit, fun _ => none, 1, 0, "", []⟩

/-! ## What is kept -/

/-- A file that is received holds so far what it has counted, in a block of its size. -/
structure RecvFile.Ok (f : RecvFile) : Prop where
  empty : f.pFileData = none → f.actRecvSize = 0
  block : ∀ b, f.pFileData = some b →
    b.length = f.info.rfiSize ∧ ∃ data, Block.Filled b data ∧ data.length = f.actRecvSize

/-- A set of a sync, with the files from the current one on in order. -/
structure RecvSet.Ok (s : RecvSet) : Prop where
  fn : s.fnRecvFile = .syncFile
  files : ∀ i f, s.curNo ≤ i → s.files[i]? = some f → f.Ok

/-- The list holds these sets, and they are there. -/
structure Client.Lists (c : Client) (q : List Nat) : Prop where
  holds : c.recvFileList.Holds q
  size : c.recvFileList.size = 10
  nodup : q.Nodup
  next : 0 < c.nextSet
  pos : ∀ p ∈ q, p ≠ 0
  old : ∀ p ∈ q, p < c.nextSet
  live : ∀ p ∈ q, ∃ s, c.sets p = some s ∧ s.Ok

def Client.Inv (c : Client) : Prop := ∃ q, c.Lists q

/-- At boot nothing is being received. -/
theorem boot_inv (db : Db) : (boot db).Inv :=
  ⟨[], LoopList.holds_create (by decide), rfl, List.nodup_nil, Nat.one_pos, nofun, nofun, nofun⟩

namespace Client.Lists

variable {c c' : Client} {q : List Nat} {p ipnum : Nat} {s : RecvSet}

theorem get (h : c.Lists q) (hget : recvFileListGet c ipnum = some p) : p = ipnum ∧ p ∈ q := by
  rw [recvFileListGet, LoopList.search_eq h.holds] at hget
  have hfound := List.find?_some hget
  have heq : p ≠ 0 ∧ ipnum ≠ 0 ∧ p = ipnum := by simpa [searchRecvConn] using hfound
  exact ⟨heq.2.2, List.mem_of_find?_eq_some hget⟩

/-- What the list and the sets in it do not see. -/
theorem congr (h : c.Lists q) (hlist : c'.recvFileList = c.recvFileList)
    (hsets : c'.sets = c.sets) (hnext : c.nextSet ≤ c'.nextSet) : c'.Lists q :=
  ⟨by rw [hlist]; exact h.holds, by rw [hlist]; exact h.size, h.nodup, h.next.trans_le hnext,
    h.pos, fun p hp => (h.old p hp).trans_le hnext, by rw [hsets]; exact h.live⟩

theorem setAt (h : c.Lists q) (hs : p ∈ q → s.Ok) : (c.setAt p s).Lists q := by
  refine ⟨h.holds, h.size, h.nodup, h.next, h.pos, h.old, ?_⟩
  intro p' hp'
  unfold Client.setAt
  by_cases heq : p' = p
  · subst heq
    exact ⟨s, by simp, hs hp'⟩
  · obtain ⟨s', hs', hok⟩ := h.live p' hp'
    exact ⟨s', by simpa [heq] using hs', hok⟩

/-- A set is inserted; the oldest may drop out. -/
theorem insert (h : c.Lists q) (hs : c.sets p = some s) (hok : s.Ok) (hp : p ∉ q)
    (hpos : p ≠ 0) (hnext : p < c.nextSet) : ∃ q', (recvFileListInsert c p).Lists q' := by
  have hpush := holds_push h.holds (by rw [h.size]; decide) p
  -- a full ring gives up its oldest set
  have hmem : ∀ p' ∈ (q ++ [p]).rtake (c.recvFileList.size - 1), p' ∈ q ∨ p' = p := by
    intro p' hp'
    simpa using List.mem_of_mem_drop hp'
  refine ⟨_, hpush, by rw [recvFileListInsert, LoopList.size_pushToTail, h.size], ?_, h.next,
    ?_, ?_, ?_⟩
  · refine (List.drop_sublist _ _).nodup (List.nodup_append.mpr ⟨h.nodup, by simp, ?_⟩)
    intro a ha b hb heq
    rw [List.mem_singleton.mp hb] at heq
    exact hp (heq ▸ ha)
  · intro p' hp'
    rcases hmem p' hp' with hp' | rfl
    · exact h.pos p' hp'
    · exact hpos
  · intro p' hp'
    rcases hmem p' hp' with hp' | rfl
    · exact h.old p' hp'
    · exact hnext
  · intro p' hp'
    rcases hmem p' hp' with hp' | rfl
    · exact h.live p' hp'
    · exact ⟨s, hs, hok⟩

/-- A set that is done is taken out and freed. -/
theorem syncEnd (h : c.Lists q) (p : Nat) : ∃ q', (syncEnd c p).Lists q' := by
  -- freeing one set leaves the other ones in memory
  have hfree : ∀ p' ≠ p, ∀ s, c.sets p' = some s →
      (Function.update c.sets p none) p' = some s := fun p' hne s hs => by simpa [hne] using hs
  unfold Sync.syncEnd recvFileListDel
  cases hget : recvFileListGet c p with
  | none =>
    -- it is not in the list
    have hout : ∀ p' ∈ q, p' ≠ p := by
      rintro p' hp' rfl
      rw [recvFileListGet, LoopList.search_eq h.holds, List.find?_eq_none] at hget
      exact hget p' hp' (by simp [searchRecvConn, h.pos p' hp'])
    refine ⟨q, h.holds, h.size, h.nodup, h.next, h.pos, h.old, ?_⟩
    intro p' hp'
    obtain ⟨s, hs, hok⟩ := h.live p' hp'
    exact ⟨s, hfree p' (hout p' hp') s hs, hok⟩
  | some p' =>
    obtain ⟨rfl, hp'⟩ := h.get hget
    have hin : ∀ p ∈ q.erase p', p ∈ q := fun p hp => List.mem_of_mem_erase hp
    refine ⟨q.erase p', LoopList.holds_remove h.holds p',
      (LoopList.size_remove _ _).trans h.size, h.nodup.erase p', h.next,
      fun p hp => h.pos p (hin p hp),
      fun p hp => h.old p (hin p hp), fun p hp => ?_⟩
    have hne : p ≠ p' := fun heq => h.nodup.not_mem_erase (heq ▸ hp)
    obtain ⟨s, hs, hok⟩ := h.live p (hin p hp)
    exact ⟨s, hfree p hne s hs, hok⟩

end Client.Lists

/-! ## The next file -/

/-- The loop only moves the index on. -/
theorem skipFound_eq (db : Db) (fuel : Nat) (s : RecvSet) :
    ∃ k, s.curNo ≤ k ∧ skipFound db fuel s = { s with curNo := k } := by
  induction fuel generalizing s with
  | zero => exact ⟨s.curNo, le_rfl, rfl⟩
  | succ fuel ih =>
    unfold skipFound
    -- past the last file, or at one that is to be fetched, the index stays
    split
    · exact ⟨s.curNo, le_rfl, rfl⟩
    · split
      · obtain ⟨k, hk, heq⟩ := ih s.addFileIndex
        exact ⟨k, (Nat.le_succ _).trans hk, heq⟩
      · exact ⟨s.curNo, le_rfl, rfl⟩

theorem RecvSet.Ok.skip {s : RecvSet} (h : s.Ok) {k : Nat} (hk : s.curNo ≤ k) :
    RecvSet.Ok { s with curNo := k } :=
  ⟨h.fn, fun i f hi hf => h.files i f (hk.trans hi) hf⟩

/-- The next file is the first that is not found. -/
theorem nextFile_eq {c : Client} {p : Nat} {s : RecvSet} (hs : c.sets p = some s) :
    nextFile c p = some
      (match (skipFound c.db s.files.length s).cur with
      | some f => (c.setAt p (skipFound c.db s.files.length s)).emit
          [.clientGetFile f.info.rfiName p]
      | none => syncEnd (c.setAt p (skipFound c.db s.files.length s)) p) := by
  unfold nextFile clientGetFileFromSet
  cases hcur : (skipFound c.db s.files.length s).cur <;> simp [hs, hcur]

/-- The list is kept, and of the set at most its index changes. -/
theorem nextFile_lists {c : Client} {q : List Nat} {p : Nat} {s : RecvSet} (h : c.Lists q)
    (hs : c.sets p = some s) (hok : s.Ok) :
    ∃ c', nextFile c p = some c' ∧ c'.Inv ∧
      ∀ s', c'.sets p = some s' → ∃ k, s.curNo ≤ k ∧ s' = { s with curNo := k } := by
  rw [nextFile_eq hs]
  -- only the index is moved, then a file is asked for or the set is freed
  obtain ⟨k, hk, hskip⟩ := skipFound_eq c.db s.files.length s
  rw [hskip]
  have hset : (c.setAt p { s with curNo := k }).Lists q := h.setAt fun _ => hok.skip hk
  refine ⟨_, rfl, ?_⟩
  split
  · refine ⟨⟨q, hset.congr rfl rfl le_rfl⟩, fun s' hs' => ⟨k, hk, ?_⟩⟩
    simpa [Client.setAt, Client.emit] using hs'.symm
  · refine ⟨hset.syncEnd p, ?_⟩
    intro s' hs'
    simp [syncEnd, Client.freeSet, Client.emit] at hs'

/-! ## One message -/

/-- A body that is taken comes after its `BINFILE_BEGIN`, for a file whose size is
known. -/
def BinFile.Sound (f : RecvFile) : BinFile → Prop
  | .binfileBody pcmd => f.Takes pcmd.length → pcmd = [] ∨
      (f.pFileData ≠ none ∧ f.info.rfiSize ≠ 0 ∧ f.actRecvSize + pcmd.length < 2 ^ 32)
  | _ => True

/-- The names fit, or the set is in the list and has a current file. -/
def Msg.Sound : Msg → Client → Prop
  | .syncFile tstModleName filesArray, _ => NamesFit tstModleName filesArray
  | .updateFile info, _ => info.Fits
  | .sendFile ipnum type, c => ∃ p s f, c.target ipnum = some (p, s, f) ∧ type.Sound f

theorem Msg.sound_sendFile {c : Client} {ipnum : Nat} {type : BinFile} :
    (Msg.sendFile ipnum type).Sound c ↔
      ∃ p s f, c.target ipnum = some (p, s, f) ∧ type.Sound f := Iff.rfl

/-- A `Store` that changes nothing. -/
def leaveIt : Store := fun _ _ db => some (db, [])

/-- The message is handled: no `NULL` is followed, no byte stored outside the block
of the last `BINFILE_BEGIN`, and none read that was not received. What becomes of a file
that was handed over is left out. -/
def Msg.Handled (m : Msg) (c : Client) : Prop := (m.step leaveIt c).isSome

theorem loadAt_complete {f : RecvFile} (hok : f.Ok) (hcomplete : f.Complete) :
    ∃ data, loadAt f.pFileData f.info.rfiSize = some data := by
  unfold loadAt
  unfold RecvFile.Complete at hcomplete
  cases hdata : f.pFileData with
  | none =>
    have hempty := hok.empty hdata
    -- an announced size of 0 is read without a block
    exact ⟨[], if_pos (by omega)⟩
  | some b =>
    obtain ⟨-, data, hfilled, hlen⟩ := hok.block b hdata
    exact ⟨_, Block.load_filled hfilled (by omega)⟩

/-- Storing a body that is taken. -/
theorem storeAt_isSome_iff {f : RecvFile} (hok : f.Ok) {pcmd : List Byte}
    (htakes : f.Takes pcmd.length) :
    (storeAt f.pFileData f.actRecvSize pcmd).isSome ↔ pcmd = [] ∨
      (f.pFileData ≠ none ∧ f.info.rfiSize ≠ 0 ∧ f.actRecvSize + pcmd.length < 2 ^ 32) := by
  unfold storeAt
  have hlt := f.info.size_lt
  cases hdata : f.pFileData with
  | none => simp [apply_ite Option.isSome]
  | some b =>
    obtain ⟨hb, data, hfilled, hlen⟩ := hok.block b hdata
    have hle := hfilled.length_le
    have hroom : (Block.store b f.actRecvSize pcmd).isSome ↔
        f.actRecvSize + pcmd.length ≤ f.info.rfiSize := by
      -- the copy stays in the block if the end of the data does
      rw [← not_iff_not, Option.not_isSome_iff_eq_none, Block.store_eq_none_iff, hb, not_le]
    rw [Option.isSome_map, hroom]
    simp only [ne_eq, reduceCtorEq, not_false_eq_true, true_and]
    constructor
    · -- inside a block of the size announced nothing wraps
      intro hin
      rcases Nat.eq_zero_or_pos pcmd.length with hzero | hpos
      · exact .inl (List.length_eq_zero_iff.mp hzero)
      · exact .inr ⟨by omega, by omega⟩
    · rintro (rfl | ⟨hsize, hwrap⟩)
      · exact hlen.symm.le.trans (hle.trans hb.le)
      · rcases htakes with htakes | hzero
        · -- the size test is made on the 32-bit sum; it means the real one only if that does not
          -- wrap
          rwa [Nat.mod_eq_of_lt hwrap] at htakes
        · exact absurd hzero hsize

theorem storeAt_ok {f : RecvFile} (hok : f.Ok) {pcmd : List Byte} {block : Option (List (Option Byte))}
    (hstore : storeAt f.pFileData f.actRecvSize pcmd = some block) :
    RecvFile.Ok { f with pFileData := block, actRecvSize := f.actRecvSize + pcmd.length } := by
  unfold storeAt at hstore
  cases hdata : f.pFileData with
  | none =>
    rw [hdata] at hstore
    split_ifs at hstore with hnil
    obtain rfl := Option.some.inj hstore
    subst hnil
    exact ⟨fun _ => by simp [hok.empty hdata], nofun⟩
  | some b =>
    rw [hdata] at hstore
    obtain ⟨b', hb', rfl⟩ := Option.map_eq_some_iff.mp hstore
    obtain ⟨hb, data, hfilled, hlen⟩ := hok.block b hdata
    -- a store that succeeded was inside the block
    have hroom : data.length + pcmd.length ≤ b.length := by
      by_contra hout
      rw [hlen] at hout
      rw [Block.store_eq_none_iff.mpr (not_le.mp hout)] at hb'
      cases hb'
    obtain ⟨b'', hstore', hfilled', hlen'⟩ := Block.store_filled hfilled hroom
    rw [hlen, hb', Option.some.injEq] at hstore'
    subst hstore'
    refine ⟨nofun, ?_⟩
    intro b'' hb''
    obtain rfl := Option.some.inj hb''
    exact ⟨hlen'.trans hb, data ++ pcmd, hfilled', by simp [hlen]⟩

/-- The current file is written; the others are as they were. -/
theorem RecvSet.Ok.setCur {s : RecvSet} (h : s.Ok) {f : RecvFile} (hf : f.Ok) :
    (s.setFile s.curNo f).Ok := by
  refine ⟨h.fn, ?_⟩
  intro i f' hi hf'
  change (s.files.set s.curNo f)[i]? = some f' at hf'
  by_cases heq : s.curNo = i
  · subst heq
    rw [List.getElem?_set_self'] at hf'
    obtain ⟨_, -, rfl⟩ := Option.map_eq_some_iff.mp hf'
    exact hf
  · rw [List.getElem?_set_ne heq] at hf'
    exact h.files i f' hi hf'

/-- Freeing the block of a file that is done. -/
theorem Client.Lists.freeFileData {c : Client} {q : List Nat} {p i : Nat} (h : c.Lists q)
    (hdone : ∀ s, c.sets p = some s → i < s.curNo) : (freeFileData c p i).Lists q := by
  unfold Sync.freeFileData
  cases hs : c.sets p with
  | none => exact h
  | some s =>
    refine h.setAt fun hp => ?_
    obtain ⟨s', hs', hok⟩ := h.live p hp
    obtain rfl := Option.some.inj (hs.symm.trans hs')
    -- entries from the current index on are kept well formed; the freed one lies before it
    refine ⟨hok.fn, fun i' f hi hf => hok.files i' f hi ?_⟩
    have hlt := hdone s hs
    have hne : i ≠ i' := (hlt.trans_le hi).ne
    rwa [List.getElem?_modify_ne _ _ hne] at hf

/-- The handover of a complete file, which moves on to the next one if its `Store` is
defined. -/
theorem handOver_spec {c : Client} {q : List Nat} {p : Nat} {s : RecvSet} {f : RecvFile}
    (h : c.Lists q) (hs : c.sets p = some s) (hok : s.Ok) (hcur : s.cur = some f)
    (hcomplete : f.Complete) : ∃ data, ∀ store : Store,
      (store f.info data c.db = none → handOver store c p s = none) ∧
      ∀ db es, store f.info data c.db = some (db, es) →
        ∃ c', handOver store c p s = some c' ∧ c'.Inv := by
  have hf : f.Ok := hok.files s.curNo f le_rfl hcur
  obtain ⟨data, hload⟩ := loadAt_complete hf hcomplete
  refine ⟨data, fun store => ?_⟩
  unfold handOver clientPgSyncFile
  simp only [hok.fn, hs, hcur, hload, Option.bind_eq_bind, Option.bind_some]
  constructor
  · intro hstore
    rw [hstore]
    rfl
  · intro db es hstore
    -- the index moves on before the next file is looked for
    have hok' : s.addFileIndex.Ok := hok.skip (Nat.le_succ _)
    have hdb : (({ c with db := db } : Client).emit (syncEvents s f.info data es)).Lists q :=
      h.congr rfl rfl le_rfl
    have hset := hdb.setAt (p := p) fun _ => hok'
    obtain ⟨c', hnext, ⟨q', hinv⟩, hsets⟩ := nextFile_lists (p := p) hset (by simp [Client.setAt]) hok'
    simp only [hstore, Option.bind_some, hnext]
    -- the entry handed over lies before the current one now
    refine ⟨_, rfl, q', hinv.freeFileData fun s' hs' => ?_⟩
    obtain ⟨k, hk, rfl⟩ := hsets s' hs'
    exact hk

theorem Client.Lists.target {c : Client} {q : List Nat} {ipnum p : Nat} {s : RecvSet} {f : RecvFile}
    (h : c.Lists q) (htarget : c.target ipnum = some (p, s, f)) :
    p = ipnum ∧ c.sets p = some s ∧ s.Ok ∧ s.cur = some f := by
  unfold Client.target at htarget
  cases hget : recvFileListGet c ipnum with
  | none => simp [hget] at htarget
  | some p' =>
    -- the list of sets has the number once, and its set is live
    obtain ⟨hp', hmem⟩ := h.get hget
    obtain ⟨s', hs', hok⟩ := h.live p' hmem
    cases hcur : s'.cur with
    | none => simp [hget, hs', hcur] at htarget
    | some f' =>
      simp only [hget, hs', hcur, Option.bind_eq_bind, Option.bind_some, Option.some.injEq,
        Prod.mk.injEq] at htarget
      obtain ⟨rfl, rfl, rfl⟩ := htarget
      exact ⟨hp', hs', hok, hcur⟩

/-- One `SERVER2CLI_MSG_SENDFILE`. -/
theorem msgSendFile_spec {c : Client} {q : List Nat} (h : c.Lists q) (ipnum : Nat) (type : BinFile) :
    ((msgSendFile leaveIt c ipnum type).isSome ↔ (Msg.sendFile ipnum type).Sound c) ∧
      ∀ store c', msgSendFile store c ipnum type = some c' → c'.Inv := by
  unfold msgSendFile
  rw [Msg.sound_sendFile]
  cases htarget : c.target ipnum with
  -- no such set in the list, or no current file: `NULL` is followed
  | none => simp
  | some target =>
    obtain ⟨p, s, f⟩ := target
    obtain ⟨-, hs, hok, hcur⟩ := h.target htarget
    have hf : f.Ok := hok.files s.curNo f le_rfl hcur
    have hset : ∀ f' : RecvFile, f'.Ok → (c.setAt p (s.setFile s.curNo f')).Inv :=
      fun f' hf' => ⟨q, h.setAt fun _ => hok.setCur hf'⟩
    have hsound : (∃ p' s' f', some (p, s, f) = some (p', s', f') ∧ type.Sound f') ↔
        type.Sound f := by simp
    rw [hsound]
    simp only [Option.bind_eq_bind, Option.bind_some]
    cases type with
    | binfileBegin granted =>
      -- a new block, with nothing received
      refine ⟨by simp [BinFile.Sound], ?_⟩
      intro store c' hc'
      obtain rfl := Option.some.inj hc'
      refine hset _ ⟨fun _ => rfl, fun b hb => ?_⟩
      cases granted with
      | false => cases hb
      | true =>
        obtain rfl := Option.some.inj hb
        exact ⟨List.length_replicate, [], Block.filled_alloc _, rfl⟩
    | binfileBody pcmd =>
      -- whether the copy is made is the size test of the source, and this comes first
      unfold BinFile.Sound
      dsimp only
      split_ifs with htakes
      · have hstore := storeAt_isSome_iff hf htakes
        cases hblock : storeAt f.pFileData f.actRecvSize pcmd with
        | none =>
          rw [hblock] at hstore
          simpa [htakes] using hstore
        | some block =>
          rw [hblock] at hstore
          refine ⟨by simpa [htakes] using hstore, ?_⟩
          intro store c' hc'
          obtain rfl := Option.some.inj hc'
          exact hset _ (storeAt_ok hf hblock)
      · exact ⟨by simp [htakes], fun store c' hc' => ⟨q, by rwa [← Option.some.inj hc']⟩⟩
    | binfileOver =>
      dsimp only
      split_ifs with hcomplete
      · obtain ⟨data, hover⟩ := handOver_spec h hs hok hcur hcomplete
        refine ⟨?_, fun store c' hc' => ?_⟩
        · obtain ⟨c', hc', -⟩ := (hover leaveIt).2 c.db [] rfl
          simp [hc', BinFile.Sound]
        · cases hstore : store f.info data c.db with
          | none =>
            rw [(hover store).1 hstore] at hc'
            cases hc'
          | some done =>
            obtain ⟨c'', hc'', hinv⟩ := (hover store).2 done.1 done.2 hstore
            rwa [← Option.some.inj (hc''.symm.trans hc')]
      · exact ⟨by simp [BinFile.Sound], fun store c' hc' => ⟨q, by rwa [← Option.some.inj hc']⟩⟩

/-- A new set, in the list. -/
theorem msgSyncFile_spec {c : Client} {q : List Nat} (h : c.Lists q) {tstModleName : String}
    {filesArray : List FileInfo} (hfit : NamesFit tstModleName filesArray) :
    ∃ c', msgSyncFile c tstModleName filesArray = some c' ∧ c'.Inv := by
  -- the address handed out is a new one
  have hfresh : c.nextSet ∉ q := fun hin => lt_irrefl _ (h.old _ hin)
  have hs : (syncSet filesArray).Ok := by
    refine ⟨rfl, ?_⟩
    intro i f _ hf
    simp only [syncSet, List.getElem?_map] at hf
    obtain ⟨info, -, rfl⟩ := Option.map_eq_some_iff.mp hf
    exact ⟨fun _ => rfl, fun b hb => by cases hb⟩
  rw [msgSyncFile, if_pos hfit]
  unfold syncStart
  extract_lets c₀ c₁ p c₂
  have h₁ : c₁.Lists q := by
    -- shutting the panel down first, if it has to be, touches no set
    unfold c₁
    split
    · exact h.congr rfl rfl le_rfl
    · exact h
  have hp : p = c.nextSet := by
    unfold p c₁
    split <;> rfl
  have h₂ : c₂.Lists q := h₁.congr rfl rfl (Nat.le_succ _)
  have h₃ : (c₂.setAt p (syncSet filesArray)).Lists q := h₂.setAt fun _ => hs
  obtain ⟨q', h₄⟩ := h₃.insert (by simp [Client.setAt]) hs (by rwa [hp])
    (by rw [hp]; exact h.next.ne') (Nat.lt_succ_self _)
  obtain ⟨c', hnext, hinv, -⟩ := nextFile_lists (p := p) (s := syncSet filesArray) h₄
    (by simp [recvFileListInsert, Client.setAt]) hs
  exact ⟨c', by rw [← hp]; exact hnext, hinv⟩

/-- The set of a single file stays out of the list. -/
theorem msgUpdateFile_spec {c : Client} {q : List Nat} (h : c.Lists q) {info : DwnFileInfo}
    (hfit : info.Fits) : ∃ c', msgUpdateFile c info = some c' ∧ c'.Inv := by
  have hfresh : c.nextSet ∉ q := fun hin => lt_irrefl _ (h.old _ hin)
  have h₁ : ({ c with nextSet := c.nextSet + 1 } : Client).Lists q := h.congr rfl rfl (Nat.le_succ _)
  have h₂ := h₁.setAt (p := c.nextSet) (s := downSet info) fun hin => absurd hin hfresh
  exact ⟨_, if_pos hfit, q, h₂.congr rfl rfl le_rfl⟩

/-- **One message** is handled exactly when it is sound. -/
theorem handled_iff {m : Msg} {c : Client} (h : c.Inv) : m.Handled c ↔ m.Sound c := by
  obtain ⟨q, h⟩ := h
  unfold Msg.Handled
  cases m with
  | syncFile tstModleName filesArray =>
    -- where the names fit, the step is defined
    by_cases hfit : NamesFit tstModleName filesArray
    · obtain ⟨c', hstep, -⟩ := msgSyncFile_spec h hfit
      simp [Msg.step, hstep, Msg.Sound, hfit]
    · simp [Msg.step, msgSyncFile, Msg.Sound, hfit]
  | updateFile info =>
    by_cases hfit : info.Fits
    · obtain ⟨c', hstep, -⟩ := msgUpdateFile_spec h hfit
      simp [Msg.step, hstep, Msg.Sound, hfit]
    · simp [Msg.step, msgUpdateFile, Msg.Sound, hfit]
  | sendFile ipnum type => exact (msgSendFile_spec h ipnum type).1

/-- A message keeps the invariant. -/
theorem step_inv {store : Store} {m : Msg} {c c' : Client} (h : c.Inv)
    (hstep : m.step store c = some c') : c'.Inv := by
  obtain ⟨q, h⟩ := h
  cases m with
  | syncFile tstModleName filesArray =>
    -- names that do not fit have no step
    by_cases hfit : NamesFit tstModleName filesArray
    · obtain ⟨c'', hstep', hinv⟩ := msgSyncFile_spec h hfit
      rwa [← Option.some.inj (hstep'.symm.trans hstep)]
    · rw [Msg.step, msgSyncFile, if_neg hfit] at hstep
      cases hstep
  | updateFile info =>
    by_cases hfit : info.Fits
    · obtain ⟨c'', hstep', hinv⟩ := msgUpdateFile_spec h hfit
      rwa [← Option.some.inj (hstep'.symm.trans hstep)]
    · simp only [Msg.step, msgUpdateFile, if_neg hfit, reduceCtorEq] at hstep
  | sendFile ipnum type => exact (msgSendFile_spec h ipnum type).2 store c' hstep

/-- **File receive**: whatever becomes of the files that are handed over, a sequence of
messages is handled within its buffers exactly when each of its messages is sound where it
comes. -/
theorem contained_iff (store : Store) (msgs : List Msg) (db : Db) :
    Along (Msg.step store) Msg.Handled msgs (boot db) ↔
      Along (Msg.step store) Msg.Sound msgs (boot db) :=
  along_congr (fun _ _ => handled_iff) (fun _ _ _ h _ => step_inv h) msgs (boot_inv db)

/-- A file announced with size 0, and a body of one byte for it. -/
def unknownSize : List Msg :=
  [.syncFile "m" [⟨"a.bmp", 0, 1, by decide⟩], .sendFile 1 (.binfileBegin true),
    .sendFile 1 (.binfileBody [0x41])]

/-- The byte is stored past a block of no bytes. -/
theorem unknownSize_not_handled :
    ¬ Along (Msg.step (storeFile fun _ _ => false)) Msg.Handled unknownSize
      (boot ⟨Table.deleteAll, LoopList.create maxFilesNum⟩) := by
  rintro ⟨-, hsync⟩
  obtain ⟨-, hbegin⟩ := hsync _ rfl
  obtain ⟨hbody, -⟩ := hbegin _ rfl
  exact absurd hbody (by unfold Msg.Handled; decide)

end PgClient.Sync
