import PgClient.Server.Upgrade

/-!
# The walk over the firmware records

`BINFILE_OVER` of `SERVER2CLI_MSG_FIRMWAREUPDATA` saves a file for every record of the
image. Where the next record is, and whether there is one, is what the record says; the
number of bytes received is not looked at.

* `recordLoop_sound` — every record that the loop comes to was received as a whole.
* `recordLoop_stored` — what it saves.
* `savesImage_iff` — for which received bytes it does what it is for.
-/

namespace PgClient.Server.Upgrade

/-! ## The code -/

/-- `client_pg_firmware`: `fwrite` to the file in `/home/updata`, undefined if `fopen`
refuses the name. -/
def clientPgFirmware (fopen : List Byte → Bool) (file : FirmwareFile) : Option FirmwareFile :=
  if fopen file.rfiName then some file else none

/-- The `do … while` loop; what it has saved. -/
def recordLoop (fopen : List Byte → Bool) (tmpFirmwareBuf : List (Option Byte)) :
    Nat → Nat → Option (List FirmwareFile)
  | 0, _ => none
  | fuel + 1, pufl => do
    let (file, filesize, hasnext) ← loadRecord tmpFirmwareBuf pufl
    let saved ← clientPgFirmware fopen file
    if hasnext = 1 then
      let files ← recordLoop fopen tmpFirmwareBuf fuel (pufl + sizeofSUpdataFileList + filesize)
      some (saved :: files)
    else some [saved]

/-! ## What it is for -/

/-- The file has the name of the record, which fits where it is copied to, and exactly the
bytes behind its head. -/
structure SavedAs (d : List Byte) (file : FirmwareFile) : Prop where
  name : file.rfiName = d.takeWhile (· ≠ 0)
  fits : nameFits file.rfiName
  data : file.pFileData <+: d.drop sizeofSUpdataFileList
  size : (file.pFileData.length : Int) = filesizeOf d

/-- One file for each record. -/
inductive Stored : List Byte → List FirmwareFile → Prop
  | last {d : List Byte} {file : FirmwareFile} (hsaved : SavedAs d file) (hnext : hasnextOf d ≠ 1) :
    Stored d [file]
  | next {d : List Byte} {file : FirmwareFile} {files : List FirmwareFile} (hsaved : SavedAs d file)
      (hnext : hasnextOf d = 1)
      (rest : Stored (d.drop (sizeofSUpdataFileList + (filesizeOf d).toNat)) files) :
    Stored d (file :: files)

/-- The loop ends, and one file is stored for each record; what is received as `d` is at the
front of the block. -/
def SavesImage (fopen : List Byte → Bool) (tmpFirmwareBuf : List (Option Byte)) (d : List Byte) :
    Prop :=
  ∃ fuel files, recordLoop fopen tmpFirmwareBuf fuel 0 = some files ∧ Stored d files

/-! ## The condition -/

/-- The record at `off'` is `off` itself or one that follows. -/
inductive RecordFrom (d : List Byte) : Nat → Nat → Prop
  | here (off : Nat) : RecordFrom d off off
  | next {off off' : Nat} (hnext : hasnextOf (d.drop off) = 1)
      (rest : RecordFrom d (off + sizeofSUpdataFileList + (filesizeOf (d.drop off)).toNat) off') :
    RecordFrom d off off'

/-- A record that was received as a whole, and whose file can be opened. -/
structure SoundRecord (fopen : List Byte → Bool) (d : List Byte) : Prop extends RecordIn d where
  opens : fopen (d.takeWhile (· ≠ 0)) = true

/-! ## The loop -/

section Loop

variable {fopen : List Byte → Bool} {b : List (Option Byte)} {d : List Byte}

/-- A turn that is defined has met a sound record. -/
theorem turn_sound (h : Block.Filled b d) {off : Nat} {file saved : FirmwareFile} {filesize : Nat}
    {hasnext : Int} (hload : loadRecord b off = some (file, filesize, hasnext))
    (hsave : clientPgFirmware fopen file = some saved) :
    SoundRecord fopen (d.drop off) ∧ saved = fileOf (d.drop off) ∧
      filesize = (filesizeOf (d.drop off)).toNat ∧ hasnext = hasnextOf (d.drop off) := by
  have hrecord := recordIn_of_loadRecord h (by rw [hload]; rfl)
  rw [loadRecord_eq h hrecord] at hload
  cases hload
  unfold clientPgFirmware at hsave
  split_ifs at hsave with hopen
  cases hsave
  exact ⟨⟨hrecord, hopen⟩, rfl, rfl, rfl⟩

/-- **Every record that the loop comes to is sound**, if the loop ends. -/
theorem recordLoop_sound (h : Block.Filled b d) : ∀ fuel off files,
    recordLoop fopen b fuel off = some files → ∀ off', RecordFrom d off off' →
      SoundRecord fopen (d.drop off') := by
  intro fuel
  induction fuel with
  | zero => exact fun _ _ hrun => nomatch hrun
  | succ fuel ih =>
    intro off files hrun off' hfrom
    obtain ⟨⟨file, filesize, hasnext⟩, hload, hrun⟩ := Option.bind_eq_some_iff.mp hrun
    obtain ⟨saved, hsave, hrun⟩ := Option.bind_eq_some_iff.mp hrun
    obtain ⟨hsound, -, rfl, rfl⟩ := turn_sound h hload hsave
    -- the record of this turn, or one that the rest of the loop comes to
    cases hfrom with
    | here => exact hsound
    | next hnext rest =>
      rw [if_pos hnext] at hrun
      obtain ⟨files', hrest, -⟩ := Option.bind_eq_some_iff.mp hrun
      exact ih _ _ hrest _ rest

/-- The file that is written has the record's name and data. -/
theorem savedAs_fileOf (hrecord : RecordIn d) : SavedAs d (fileOf d) := by
  obtain ⟨hname, -, hsize, hdata⟩ := hrecord
  refine ⟨rfl, ?_, List.take_prefix _ _, ?_⟩
  · exact nameFits_iff.mpr ((length_takeWhile_lt_iff (List.mem_of_mem_take hname) 243).mpr hname)
  · show ((RingBuffer.slice d _ _).length : Int) = _
    rw [RingBuffer.slice, List.length_take, List.length_drop]
    omega

/-- **Over sound records the loop ends**, with one file for each. -/
theorem recordLoop_stored (h : Block.Filled b d) : ∀ fuel off, d.length < fuel + off →
    (∀ off', RecordFrom d off off' → SoundRecord fopen (d.drop off')) →
    ∃ files, recordLoop fopen b fuel off = some files ∧ Stored (d.drop off) files := by
  intro fuel
  induction fuel with
  | zero =>
    intro off hfuel hsound
    -- behind the bytes received there is no head
    have hhead := (hsound off (.here off)).head
    rw [List.drop_of_length_le (by omega)] at hhead
    exact absurd hhead (by decide)
  | succ fuel ih =>
    intro off hfuel hsound
    obtain ⟨hrecord, hopen⟩ := hsound off (.here off)
    have hsaved := savedAs_fileOf hrecord
    have hsave : clientPgFirmware fopen (fileOf (d.drop off)) = some (fileOf (d.drop off)) :=
      if_pos hopen
    rw [recordLoop, loadRecord_eq h hrecord]
    simp only [Option.bind_eq_bind, Option.bind_some, hsave]
    by_cases hnext : hasnextOf (d.drop off) = 1
    · -- the next record begins behind the data of this one
      have hpos : 0 < sizeofSUpdataFileList := by decide
      obtain ⟨files, hrun, hstored⟩ :=
        ih (off + sizeofSUpdataFileList + (filesizeOf (d.drop off)).toNat) (by omega)
          fun off' hfrom => hsound off' (.next hnext hfrom)
      rw [Nat.add_assoc, ← List.drop_drop] at hstored
      rw [if_pos hnext, hrun]
      exact ⟨_, rfl, .next hsaved hnext hstored⟩
    · rw [if_neg hnext]
      exact ⟨_, rfl, .last hsaved hnext⟩

/-- Where every file can be opened this is the walk. -/
theorem recordLoop_eq_walk (fuel off : Nat) :
    recordLoop (fun _ => true) b fuel off = walk b fuel off := by
  induction fuel generalizing off with
  | zero => rfl
  | succ fuel ih =>
    simp only [recordLoop, walk, clientPgFirmware, if_true, Option.bind_eq_bind, Option.bind_some, ih]

/-- **The images whose files are all saved**: every record that the chain leads to was
received as a whole, with a short name, and its file can be opened. -/
theorem savesImage_iff (h : Block.Filled b d) :
    SavesImage fopen b d ↔ ∀ off, RecordFrom d 0 off → SoundRecord fopen (d.drop off) := by
  constructor
  · rintro ⟨fuel, files, hrun, -⟩
    exact recordLoop_sound h fuel 0 files hrun
  · intro hsound
    obtain ⟨files, hrun, hstored⟩ := recordLoop_stored h (d.length + 1) 0 (by omega) hsound
    exact ⟨d.length + 1, files, hrun, hstored⟩

end Loop

/-- Two records: a file of two bytes, and one of one byte. -/
def twoRecords : List Byte :=
  97 :: List.replicate 255 0 ++ [2, 0, 0, 0, 1, 0, 0, 0, 10, 11] ++
    (98 :: List.replicate 255 0 ++ [1, 0, 0, 0, 0, 0, 0, 0, 12])

/-- Two files of an image. -/
theorem twoRecords_savesImage :
    SavesImage (fun name => name ≠ []) (twoRecords.map some) twoRecords := by
  have hfilled : Block.Filled (twoRecords.map some) twoRecords := ⟨0, (List.append_nil _).symm⟩
  have hnext : hasnextOf twoRecords = 1 ∧ filesizeOf twoRecords = 2 := by decide +kernel
  have hlast : hasnextOf (twoRecords.drop 266) ≠ 1 := by decide +kernel
  refine (savesImage_iff hfilled).mpr fun off hfrom => ?_
  -- the first record, or the one that it leads to
  cases hfrom with
  | here => exact ⟨⟨by decide +kernel, by decide +kernel, by decide +kernel, by decide +kernel⟩,
      by decide +kernel⟩
  | next _ hrest =>
    rw [List.drop_zero, hnext.2] at hrest
    cases hrest with
    | here => exact ⟨⟨by decide +kernel, by decide +kernel, by decide +kernel, by decide +kernel⟩,
        by decide +kernel⟩
    | next h _ => exact absurd h hlast

/-- An empty file, and the flag for one that follows. -/
def openChain : List Byte := 97 :: List.replicate 259 0 ++ [1, 0, 0, 0]

/-- The loop reads behind it. -/
theorem openChain_not_savesImage : ¬∀ (fopen : List Byte → Bool) (b : List (Option Byte))
    (d : List Byte), (∀ name, name ≠ [] → fopen name = true) → Block.Filled b d →
      SavesImage fopen b d := by
  intro hall
  have hfilled : Block.Filled (openChain.map some) openChain := ⟨0, (List.append_nil _).symm⟩
  obtain ⟨fuel, files, hrun, -⟩ :=
    hall (fun name => name ≠ []) _ openChain (fun _ h => decide_eq_true h) hfilled
  have hnext : hasnextOf openChain = 1 := by decide +kernel
  have hsize : filesizeOf openChain = 0 := by decide +kernel
  -- the flag leads to offset 264, where nothing was received
  have hsound := recordLoop_sound hfilled fuel 0 files hrun 264
    (.next hnext (by rw [List.drop_zero, hsize]; exact .here 264))
  have hhead : sizeofSUpdataFileList ≤ (openChain.drop 264).length := hsound.head
  exact absurd hhead (by decide +kernel)

end PgClient.Server.Upgrade
