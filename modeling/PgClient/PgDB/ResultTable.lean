import Mathlib.Data.List.TakeDrop
import PgClient.Lib.RowCursor
import PgClient.PgDB.LocalDB

/-!
# Tables into records

The loops of `pgDB.c` and `pgLocalDB.c` over what `sqlite3_get_table` gives: one array, the names of
the columns before the cells of one row after the other, and one cursor through each row.

* `cellAt_result` — where the cells of a row are.
* `fill_iff` — when a record is filled from the own cells of its row.
* `filled_iff` — when all records of `pattern_config` and of `FileInfoTable` are.
* `global_own` — those of `global_config` always are.
-/

namespace PgClient.PgDB

open Loop RowCursor

/-! ## `strtol` -/

def isspace (c : Char) : Bool := c.toNat = 32 ∨ (9 ≤ c.toNat ∧ c.toNat ≤ 13)

/-- 36 for what is no digit. -/
def digitValue (c : Char) : Nat :=
  if '0' ≤ c ∧ c ≤ '9' then c.toNat - 48
  else if 'a' ≤ c ∧ c ≤ 'z' then c.toNat - 87
  else if 'A' ≤ c ∧ c ≤ 'Z' then c.toNat - 55
  else 36

/-- The base that a number begins with, and its digits. -/
def strtolBase : List Char → Nat × List Char
  | '0' :: x :: d :: text =>
    if (x = 'x' ∨ x = 'X') ∧ digitValue d < 16 then (16, d :: text) else (8, x :: d :: text)
  | '0' :: text => (8, text)
  | text => (10, text)

/-- `strtol(pString,0,0)`, where a `long` has 32 bits. -/
def strtol (pString : String) : Int :=
  let text := pString.toList.dropWhile isspace
  let (base, digits) :=
    strtolBase (if text.head? = some '-' ∨ text.head? = some '+' then text.tail else text)
  let n := ((digits.map digitValue).takeWhile fun d => d < base).foldl (fun n d => n * base + d) 0
  if text.head? = some '-' then max (-2 ^ 31) (-n) else min (2 ^ 31 - 1) n

/-- `_stringtoint`. -/
def stringtoint (pString : Option String) (s32Default : Int) : Int :=
  match pString with
  | some text => strtol text
  | none => s32Default

/-! ## The result of `sqlite3_get_table` -/

/-- A table of which the statements read `n` columns. -/
structure ResultTable (n : Nat) where
  column : Nat
  header : List (Option String)
  /-- The rows; `none` is NULL. -/
  rows : List (List (Option String))
  header_length : header.length = column
  row_length : ∀ row ∈ rows, row.length = column
  columns : rows ≠ [] → n ≤ column

namespace ResultTable

variable {n : Nat} (t : ResultTable n)

/-- The array. -/
def result : List (Option String) := t.header ++ t.rows.flatten

/-- Where a row begins. -/
def index (i : Nat) : Nat := (i + 1) * t.column

end ResultTable

/-! ## Records -/

section

variable {ρ : Type}

/-- `strcpy(field, result[index])` under the NULL test, for a field of `size` bytes; `inside` says
that `index++` is under it, too. -/
def strcpy (inside : Bool) (size : Nat) (put : Option String → ρ → ρ) : Column String ρ :=
  ⟨inside, fun text => text.utf8ByteSize < size, put⟩

/-- `field = _stringtoint(result[index], …)`. -/
def number (inside : Bool) (put : Option String → ρ → ρ) : Column String ρ :=
  ⟨inside, fun _ => true, put⟩

/-- A record, and the cells that its fields are from. The second is a record that the code does not
have. -/
structure Filled (ρ : Type) where
  record : ρ
  cells : List (Option Nat)

/-- The statements for a row; `none` is a read behind the array, or a write behind a field. -/
def fill {n : Nat} (t : ResultTable n) (columns : List (Column String ρ)) (r : ρ) (i : Nat) :
    Option (Filled ρ) :=
  (load t.result columns (t.index i) r).map fun r => ⟨r, taken t.result columns (t.index i)⟩

end

/-- `MAX_FILE_NAME_LEN`. -/
def maxFileNameLen : Nat := 64

/-- `module_info_t`, as `memset` leaves it. -/
structure ModuleInfo where
  ptdindex : Int := 0
  ptdpatternname : String := ""
  ptdpatterntype : String := ""
  ptdpatternbit : Int := 0
  displayX : String := ""
  ptddisptime : Int := 0
  timclockfreq : Int := 0
  movefile : String := ""
  edidfile : String := ""
  initcodefile : String := ""
  i3dfile : String := ""
  videofile : String := ""
  vcomfile : String := ""
  powertestfile : String := ""
  dynamicpattern : String := ""
  signaltest : String := ""
  timingMode : String := ""
  deriving DecidableEq

/-- `PIC_DEFAULT_LOCK_SECOND`. -/
def picDefaultLockSecond : Int := 100

/-- `strcpy`, if there is something to copy. -/
def strcpyNonempty (cell : Option String) (field : String) : String :=
  match cell with
  | some text => if 0 < text.utf8ByteSize then text else field
  | none => field

/-- The statements of `dbpattern_configLoad` for a row, up to those that only move the cursor. -/
def patternColumns : List (Column String ModuleInfo) := [
  number false fun cell r => { r with ptdindex := stringtoint cell 0 },
  strcpy true maxFileNameLen fun cell r => { r with ptdpatternname := cell.getD r.ptdpatternname },
  strcpy true (maxFileNameLen / 2) fun cell r =>
    { r with ptdpatterntype := cell.getD r.ptdpatterntype },
  number false fun cell r => { r with ptdpatternbit := stringtoint cell 0 },
  strcpy true (maxFileNameLen / 2) fun cell r => { r with displayX := cell.getD r.displayX },
  number false fun cell r => { r with ptddisptime := stringtoint cell picDefaultLockSecond },
  number false fun cell r => { r with timclockfreq := stringtoint cell 0 },
  strcpy true maxFileNameLen fun cell r => { r with movefile := cell.getD r.movefile },
  strcpy true maxFileNameLen fun cell r => { r with edidfile := cell.getD r.edidfile },
  strcpy true maxFileNameLen fun cell r => { r with initcodefile := cell.getD r.initcodefile },
  strcpy true maxFileNameLen fun cell r => { r with i3dfile := cell.getD r.i3dfile },
  strcpy true maxFileNameLen fun cell r => { r with videofile := cell.getD r.videofile },
  strcpy true maxFileNameLen fun cell r => { r with vcomfile := strcpyNonempty cell r.vcomfile },
  strcpy true maxFileNameLen fun cell r => { r with powertestfile := cell.getD r.powertestfile },
  strcpy true maxFileNameLen fun cell r => { r with dynamicpattern := cell.getD r.dynamicpattern },
  strcpy true maxFileNameLen fun cell r => { r with signaltest := cell.getD r.signaltest },
  strcpy false maxFileNameLen fun cell r => { r with timingMode := cell.getD r.timingMode }]

/-- `module_set_t`, as `memset` leaves it. -/
structure ModuleSet where
  powermainfile : String := ""
  timingmainfile : String := ""
  agingtime : Int := 0
  strIcName : String := ""
  strCommCfgName : String := ""
  strMonitorCfgName : String := ""
  loopConns : LoopList ModuleInfo := ⟨0, 0, 0, []⟩
  maxConns : Nat := 0
  curConns : Nat := 0

/-- `loop_push_to_tail`, and `cur_conns ++`. -/
def ModuleSet.push (pModuleSet : ModuleSet) (info : ModuleInfo) : ModuleSet :=
  { pModuleSet with
    loopConns := pModuleSet.loopConns.pushToTail info
    curConns := (pModuleSet.curConns + 1) % 2 ^ 16 }

/-- The loop of `dbpattern_configLoad`. -/
def patternLoop (t : ResultTable 17) :
    List Nat → ModuleSet → Option (ModuleSet × List (Filled ModuleInfo))
  | [], pModuleSet => some (pModuleSet, [])
  | i :: rest, pModuleSet =>
    match fill t patternColumns {} i with
    | none => none
    | some filled =>
      if pModuleSet.curConns < pModuleSet.maxConns then
        (patternLoop t rest (pModuleSet.push filled.record)).map fun p => (p.1, filled :: p.2)
      else some (pModuleSet, [filled])

/-- `dbpattern_configLoad`: what it returns, the set, and the records it has filled. The table is
what `sqlite3_get_table` gives, if that is no error. -/
def dbpatternConfigLoad (result : Option (ResultTable 17)) (pModuleSet : ModuleSet) :
    Option (Int × ModuleSet × List (Filled ModuleInfo)) :=
  match result with
  | none => some (-1, pModuleSet, [])
  | some t => (patternLoop t (List.range t.rows.length) pModuleSet).map fun p => (0, p)

/-- The statements of `dbglobal_configLoad` for a row, up to the one that only moves the cursor. -/
def globalColumns : List (Column String ModuleSet) := [
  strcpy false maxFileNameLen fun cell s => { s with powermainfile := cell.getD s.powermainfile },
  strcpy false maxFileNameLen fun cell s => { s with timingmainfile := cell.getD s.timingmainfile },
  number false fun cell s => { s with agingtime := stringtoint cell 0 },
  strcpy false maxFileNameLen fun cell s => { s with strIcName := cell.getD s.strIcName },
  strcpy false maxFileNameLen fun cell s => { s with strCommCfgName := cell.getD s.strCommCfgName },
  strcpy false maxFileNameLen fun cell s =>
    { s with strMonitorCfgName := cell.getD s.strMonitorCfgName }]

/-- `dbglobal_configLoad`; each row is put over the one before it. -/
def dbglobalConfigLoad (result : Option (ResultTable 6)) (pModuleSet : ModuleSet) :
    Option (Int × ModuleSet) :=
  match result with
  | none => some (-1, pModuleSet)
  | some t =>
    ((List.range t.rows.length).foldlM (fun s i => load t.result globalColumns (t.index i) s)
      pModuleSet).map fun s => (0, s)

/-- The statements of `localDBInit` for a row, up to those that only move the cursor. -/
def localColumns : List (Column String LocalFileInfo) := [
  strcpy true localFileNameLen fun cell r => { r with fileName := cell.getD r.fileName },
  number true fun cell r => { r with fileTime := stringtoint cell r.fileTime },
  number true fun cell r => { r with fileSize := stringtoint cell r.fileSize },
  number true fun cell r => { r with fileStatus := stringtoint cell r.fileStatus }]

/-- `local_file_info_set_t`. -/
structure LocalFileInfoSet where
  loopConns : LoopList LocalFileInfo
  curConns : Nat

def LocalFileInfoSet.push (set : LocalFileInfoSet) (r : LocalFileInfo) : LocalFileInfoSet :=
  ⟨set.loopConns.pushToTail r, (set.curConns + 1) % 2 ^ 16⟩

namespace ResultTable

/-- The loop of `localDBInit`. -/
def localLoop (t : ResultTable 4) :
    List Nat → LocalFileInfoSet → Option (LocalFileInfoSet × List (Filled LocalFileInfo))
  | [], set => some (set, [])
  | i :: rest, set =>
    match fill t localColumns ⟨"", 0, 0, 0⟩ i with
    | none => none
    | some filled => (localLoop t rest (set.push filled.record)).map fun p => (p.1, filled :: p.2)

/-- `localDBInit`: what it returns, if anything, the set, and the records it has filled. The
database opens or not, `CREATE TABLE` succeeds or not, and the table is what `sqlite3_get_table`
gives, if that is no error. -/
def localDBInit (opened created : Bool) (result : Option (ResultTable 4)) :
    Option (Option Int × LocalFileInfoSet × List (Filled LocalFileInfo)) :=
  let set : LocalFileInfoSet := ⟨⟨0, 0, 0, []⟩, 0⟩
  if ¬opened then some (some (-1), set, [])
  else if ¬created then some (some (-2), set, [])
  else
    match result with
    | none => some (some (-3), set, [])
    | some t =>
      (localLoop t (List.range t.rows.length) ⟨LoopList.create maxFilesNum, 0⟩).map
        fun p => (none, p)

end ResultTable

/-- `MAX_PATTERN_NUM_IN_MODULE`. -/
def maxPatternNumInModule : Nat := 200

/-- The set that `dbModuleOpen` passes on. -/
def ModuleSet.opened : ModuleSet :=
  { maxConns := maxPatternNumInModule
    loopConns := LoopList.create maxPatternNumInModule }

/-! ## The own columns -/

/-- The row as a record. -/
def ModuleInfo.ofRow (row : List (Option String)) : ModuleInfo where
  ptdindex := stringtoint (cellAt row 0) 0
  ptdpatternname := (cellAt row 1).getD ""
  ptdpatterntype := (cellAt row 2).getD ""
  ptdpatternbit := stringtoint (cellAt row 3) 0
  displayX := (cellAt row 4).getD ""
  ptddisptime := stringtoint (cellAt row 5) picDefaultLockSecond
  timclockfreq := stringtoint (cellAt row 6) 0
  movefile := (cellAt row 7).getD ""
  edidfile := (cellAt row 8).getD ""
  initcodefile := (cellAt row 9).getD ""
  i3dfile := (cellAt row 10).getD ""
  videofile := (cellAt row 11).getD ""
  vcomfile := (cellAt row 12).getD ""
  powertestfile := (cellAt row 13).getD ""
  dynamicpattern := (cellAt row 14).getD ""
  signaltest := (cellAt row 15).getD ""
  timingMode := (cellAt row 16).getD ""

def LocalFileInfo.ofRow (row : List (Option String)) : LocalFileInfo where
  fileName := (cellAt row 0).getD ""
  fileTime := stringtoint (cellAt row 1) 0
  fileSize := stringtoint (cellAt row 2) 0
  fileStatus := stringtoint (cellAt row 3) 0

section

variable {ρ : Type} {n : Nat}

/-- Each record is the one of its row, and from the cells of its row. -/
def FilledOwn (ofRow : List (Option String) → ρ) (t : ResultTable n) (filled : List (Filled ρ)) :
    Prop :=
  filled = (t.rows.take filled.length).mapIdx fun i row =>
    ⟨ofRow row, own t.result (t.index i) n⟩

/-- Behind a NULL that does not move the cursor on there are NULLs only, and the texts fit. -/
def RowOk (columns : List (Column String ρ)) (row : List (Option String)) : Prop :=
  Aligned row columns 0 ∧ FitsOwn row columns 0

end

/-- With its own cells a pattern is the record of the row. -/
theorem putOwn_pattern (row : List (Option String)) :
    putOwn row patternColumns 0 {} = ModuleInfo.ofRow row := by
  -- copying only a text that is not empty copies every text into an empty field
  have hvcom : strcpyNonempty (cellAt row 12) "" = (cellAt row 12).getD "" := by
    unfold strcpyNonempty
    cases cellAt row 12 with
    | none => rfl
    | some text =>
      by_cases hlen : 0 < text.utf8ByteSize
      · exact if_pos hlen
      · have hempty : text = "" := String.utf8ByteSize_eq_zero_iff.mp (Nat.eq_zero_of_not_pos hlen)
        exact (if_neg hlen).trans hempty.symm
  have hput : putOwn row patternColumns 0 {} =
      { ModuleInfo.ofRow row with vcomfile := strcpyNonempty (cellAt row 12) "" } := rfl
  rw [hput, hvcom]
  rfl

/-- So is a file record. -/
theorem putOwn_local (row : List (Option String)) :
    putOwn row localColumns 0 ⟨"", 0, 0, 0⟩ = LocalFileInfo.ofRow row := rfl

/-! ## The cells of a row -/

/-- Rows of one length, one behind the other. -/
theorem getElem?_flatten {α : Type} {c i k : Nat} {rows : List (List α)} {row : List α}
    (h : ∀ row ∈ rows, row.length = c) (hrow : rows[i]? = some row) (hk : k < c) :
    rows.flatten[i * c + k]? = row[k]? := by
  induction rows generalizing i with
  | nil => cases hrow
  | cons first rows ih =>
    have hfirst := h first List.mem_cons_self
    -- in the first row, or in those behind it
    cases i with
    | zero =>
      obtain rfl := Option.some.inj hrow
      rw [List.flatten_cons, Nat.zero_mul, Nat.zero_add, List.getElem?_append_left (by omega)]
    | succ i =>
      rw [List.flatten_cons, Nat.succ_mul, List.getElem?_append_right (by omega), hfirst,
        show i * c + c + k - c = i * c + k by omega]
      exact ih (fun row hmem => h row (List.mem_cons_of_mem first hmem)) hrow

section

variable {n i : Nat} {t : ResultTable n} {row : List (Option String)}

/-- The cells of a row follow each other in the result. -/
theorem cellAt_result (hrow : t.rows[i]? = some row) {k : Nat} (hk : k < t.column) :
    cellAt t.result (t.index i + k) = cellAt row k := by
  -- the names of the columns take as many cells as a row
  have hindex : t.index i + k = t.header.length + (i * t.column + k) := by
    rw [ResultTable.index, Nat.succ_mul, t.header_length]
    omega
  rw [cellAt, ResultTable.result, hindex, List.getElem?_append_right (Nat.le_add_right _ _),
    Nat.add_sub_cancel_left, getElem?_flatten t.row_length hrow hk]
  rfl

/-- The row is in the array. -/
theorem index_add_le (hrow : t.rows[i]? = some row) : t.index i + n ≤ t.result.length := by
  have hlt := (List.getElem?_eq_some_iff.mp hrow).1
  have hn : n ≤ t.column := t.columns (List.ne_nil_of_mem (List.mem_of_getElem? hrow))
  have hflatten : t.rows.flatten.length = t.rows.length * t.column := by
    rw [List.length_flatten, List.map_congr_left t.row_length, List.map_const',
      List.sum_replicate_nat]
  calc t.index i + n ≤ (i + 1) * t.column + t.column := Nat.add_le_add_left hn _
    _ = (i + 1 + 1) * t.column := (Nat.succ_mul (i + 1) t.column).symm
    _ ≤ (t.rows.length + 1) * t.column := Nat.mul_le_mul_right t.column (by omega)
    _ = t.result.length := by
      rw [ResultTable.result, List.length_append, t.header_length, hflatten, Nat.succ_mul,
        Nat.add_comm]

variable {ρ : Type} {columns : List (Column String ρ)}

/-- **When a record is filled** from the own cells of its row. -/
theorem fill_iff (hcolumns : columns.length = n) (hrow : t.rows[i]? = some row) (r : ρ) :
    fill t columns r i = some ⟨putOwn row columns 0 r, own t.result (t.index i) n⟩ ↔
      RowOk columns row := by
  have hn : n ≤ t.column := t.columns (List.ne_nil_of_mem (List.mem_of_getElem? hrow))
  have hcells : ∀ k < columns.length, cellAt t.result (t.index i + k) = cellAt row (0 + k) := by
    intro k hk
    rw [Nat.zero_add]
    exact cellAt_result hrow (by omega)
  have hlen : t.index i + columns.length ≤ t.result.length := hcolumns ▸ index_add_le hrow
  have hown : own t.result (t.index i) columns.length = own t.result (t.index i) n := by
    rw [hcolumns]
  obtain ⟨hfits, hput⟩ := cells_congr hcells r
  -- what is said about the row holds where it stands in the array
  rw [RowOk, ← aligned_congr hcells, ← hfits, ← hput, ← taken_eq_own_iff, ← hown, fill]
  constructor
  · intro h
    obtain ⟨r', hload, heq⟩ := Option.map_eq_some_iff.mp h
    have htaken := congrArg Filled.cells heq
    exact ⟨htaken, ((load_of_taken (Nat.le_refl _) hlen htaken r r').mp hload).1⟩
  · rintro ⟨htaken, hfits⟩
    rw [(load_of_taken (Nat.le_refl _) hlen htaken r _).mpr ⟨hfits, rfl⟩, htaken]
    rfl

end

/-! ## All rows -/

/-- A list is mapped to the values of its elements. -/
theorem mapM_eq_some_iff {α β : Type} {f : α → Option β} {l : List α} {l' : List β} :
    l.mapM f = some l' ↔ l.map f = l'.map some := by
  induction l generalizing l' with
  | nil => cases l' <;> simp
  | cons a l ih =>
    rw [List.mapM_cons]
    cases l' with
    | nil => cases f a <;> cases l.mapM f <;> simp
    | cons b l' =>
      rw [List.map_cons, List.map_cons, List.cons.injEq, ← ih]
      cases f a with
      | none => simp
      | some b' => cases l.mapM f <;> simp

section

variable {n : Nat} {ρ : Type} {columns : List (Column String ρ)} {ofRow : List (Option String) → ρ}
  {zero : ρ}

/-- The first `m` rows, one after the other. -/
theorem filledOwn_iff (hcolumns : columns.length = n)
    (hofRow : ∀ row, putOwn row columns 0 zero = ofRow row) (t : ResultTable n) (m : Nat) :
    (∃ filled, ((List.range t.rows.length).take m).mapM (fill t columns zero) = some filled ∧
      FilledOwn ofRow t filled) ↔ ∀ row ∈ t.rows.take m, RowOk columns row := by
  have hfill : ∀ (i : Nat) (row : List (Option String)), t.rows[i]? = some row →
      (fill t columns zero i = some ⟨ofRow row, own t.result (t.index i) n⟩ ↔ RowOk columns row) :=
    fun i row hrow => hofRow row ▸ fill_iff hcolumns hrow zero
  constructor
  · rintro ⟨filled, hmap, hown⟩ row hmem
    rw [mapM_eq_some_iff] at hmap
    obtain ⟨i, hi, rfl⟩ := List.mem_take_iff_getElem.mp hmem
    have hrow : t.rows[i]? = some (t.rows.get ⟨i, by omega⟩) := List.getElem?_eq_getElem _
    -- there is a record for each of the rows, and it is the one of the row
    have hlen : filled.length = min m t.rows.length := by
      have hlen := congrArg List.length hmap
      simpa using hlen.symm
    have hget := congrArg (fun l => l[i]?) hmap
    simp only [List.getElem?_map] at hget
    rw [hown, List.getElem?_mapIdx, List.getElem?_take_of_lt (by omega),
      List.getElem?_take_of_lt (by omega), hrow, List.getElem?_range (by omega)] at hget
    exact (hfill i _ hrow).mp (Option.some.inj hget)
  · intro hrows
    refine ⟨(t.rows.take m).mapIdx fun i row => ⟨ofRow row, own t.result (t.index i) n⟩, ?_, ?_⟩
    · rw [mapM_eq_some_iff]
      refine List.ext_getElem? fun i => ?_
      rw [List.getElem?_map, List.getElem?_map, List.getElem?_mapIdx]
      by_cases hi : i < m ∧ i < t.rows.length
      · have hrow : t.rows[i]? = some (t.rows.get ⟨i, hi.2⟩) := List.getElem?_eq_getElem _
        have hmem : t.rows.get ⟨i, hi.2⟩ ∈ t.rows.take m :=
          List.mem_take_iff_getElem.mpr ⟨i, by omega, rfl⟩
        rw [List.getElem?_take_of_lt hi.1, List.getElem?_take_of_lt hi.1, hrow,
          List.getElem?_range hi.2, Option.map_some, Option.map_some, Option.map_some,
          (hfill i _ hrow).mpr (hrows _ hmem)]
      · -- behind the last row there is nothing on either side
        rw [List.getElem?_eq_none (by simp; omega), List.getElem?_eq_none (by simp; omega)]
        rfl
    · rw [FilledOwn, List.length_mapIdx, List.length_take]
      congr 1
      rw [List.take_eq_take_iff]
      omega

end

/-- What the loop of `dbpattern_configLoad` does, as long as it finds room. -/
theorem patternLoop_eq {t : ResultTable 17} {rest : List Nat} {set : ModuleSet}
    (hcur : set.curConns ≤ set.maxConns) (hmax : set.maxConns < 2 ^ 16) :
    patternLoop t rest set =
      ((rest.take (set.maxConns - set.curConns + 1)).mapM (fill t patternColumns {})).map
        fun filled => (((filled.take (set.maxConns - set.curConns)).map Filled.record).foldl
          ModuleSet.push set, filled) := by
  induction rest generalizing set with
  | nil =>
    rw [List.take_nil, List.mapM_nil, Option.pure_def, Option.map_some, List.take_nil]
    rfl
  | cons i rest ih =>
    rw [patternLoop, List.take_succ_cons, List.mapM_cons]
    cases fill t patternColumns {} i with
    | none => rfl
    | some filled =>
      by_cases hroom : set.curConns < set.maxConns
      · -- one place less is left for the rest
        have hpush : (set.push filled.record).curConns = set.curConns + 1 :=
          Nat.mod_eq_of_lt (by omega)
        have hmax' : (set.push filled.record).maxConns = set.maxConns := rfl
        have hleft : set.maxConns - set.curConns = set.maxConns - (set.curConns + 1) + 1 := by omega
        dsimp only
        rw [if_pos hroom, ih (by omega) (by omega), hpush, hmax', ← hleft]
        cases (rest.take (set.maxConns - set.curConns)).mapM (fill t patternColumns {}) with
        | none => rfl
        | some filleds =>
          simp only [Option.map_some, Option.bind_eq_bind, Option.bind_some, Option.pure_def]
          rw [hleft, List.take_succ_cons]
          rfl
      · -- the record is thrown away, and the loop left
        have hfull : set.maxConns - set.curConns = 0 := by omega
        dsimp only
        rw [if_neg hroom, hfull]
        rfl

/-- The loop fills the records one after another, and pushes them in that order. -/
theorem localLoop_eq {t : ResultTable 4} {rest : List Nat} {set : LocalFileInfoSet} :
    ResultTable.localLoop t rest set =
      (rest.mapM (fill t localColumns ⟨"", 0, 0, 0⟩)).map fun filled =>
        ((filled.map Filled.record).foldl LocalFileInfoSet.push set, filled) := by
  induction rest generalizing set with
  | nil => rfl
  | cons i rest ih =>
    rw [ResultTable.localLoop, List.mapM_cons]
    -- a record that is not filled ends the loop
    cases fill t localColumns ⟨"", 0, 0, 0⟩ i with
    | none => rfl
    | some filled =>
      dsimp only
      rw [ih]
      cases rest.mapM (fill t localColumns ⟨"", 0, 0, 0⟩) <;> rfl

/-- Every record of `pattern_config` that is filled is the one of its row. -/
def PatternsFilled (t : ResultTable 17) : Prop :=
  ∃ ret set filled, dbpatternConfigLoad (some t) .opened = some (ret, set, filled) ∧
    FilledOwn ModuleInfo.ofRow t filled

/-- Every record of `FileInfoTable` is the one of its row. -/
def LocalFilled (t : ResultTable 4) : Prop :=
  ∃ ret set filled, ResultTable.localDBInit true true (some t) = some (ret, set, filled) ∧
    FilledOwn LocalFileInfo.ofRow t filled

/-- One row more than fits is filled before the loop ends, and not pushed. -/
theorem dbpatternConfigLoad_eq (t : ResultTable 17) :
    dbpatternConfigLoad (some t) .opened =
      (((List.range t.rows.length).take (maxPatternNumInModule + 1)).mapM
        (fill t patternColumns {})).map fun filled => (0,
          ((filled.take maxPatternNumInModule).map Filled.record).foldl ModuleSet.push .opened,
          filled) := by
  rw [dbpatternConfigLoad, patternLoop_eq (by decide) (by decide), Option.map_map]
  rfl

/-- A loop that gives the records it has filled, beside what it makes of them. -/
theorem exists_loaded_iff {ρ α β : Type} {x : Option (List (Filled ρ))} {a : α}
    {f : List (Filled ρ) → β} {P : List (Filled ρ) → Prop} :
    (∃ ret set filled, (x.map fun filled => (a, f filled, filled)) = some (ret, set, filled) ∧
      P filled) ↔ ∃ filled, x = some filled ∧ P filled := by
  constructor
  · rintro ⟨ret, set, filled, h, hfilled⟩
    obtain ⟨_, hx, heq⟩ := Option.map_eq_some_iff.mp h
    obtain ⟨rfl, rfl, rfl⟩ := heq
    exact ⟨_, hx, hfilled⟩
  · rintro ⟨filled, rfl, hfilled⟩
    exact ⟨a, f filled, filled, rfl, hfilled⟩

/-- **The patterns get their own cells exactly if each row that is come to is in order.** -/
theorem patternsFilled_iff (t : ResultTable 17) :
    PatternsFilled t ↔
      ∀ row ∈ t.rows.take (maxPatternNumInModule + 1), RowOk patternColumns row := by
  have hcolumns : patternColumns.length = 17 := rfl
  rw [← filledOwn_iff hcolumns putOwn_pattern, PatternsFilled, dbpatternConfigLoad_eq]
  exact exists_loaded_iff

/-- The records of the files are filled and pushed in the order of the rows. -/
theorem localDBInit_eq (t : ResultTable 4) :
    ResultTable.localDBInit true true (some t) =
      ((List.range t.rows.length).mapM (fill t localColumns ⟨"", 0, 0, 0⟩)).map fun filled =>
        (none, (filled.map Filled.record).foldl LocalFileInfoSet.push
          ⟨LoopList.create maxFilesNum, 0⟩, filled) := by
  rw [ResultTable.localDBInit, if_neg (by decide), if_neg (by decide), localLoop_eq,
    Option.map_map]
  rfl

/-- **So it is with the file records.** -/
theorem localFilled_iff (t : ResultTable 4) :
    LocalFilled t ↔ ∀ row ∈ t.rows, RowOk localColumns row := by
  have hcolumns : localColumns.length = 4 := rfl
  have hall := filledOwn_iff hcolumns putOwn_local t t.rows.length
  -- there is no limit to the rows
  rw [List.take_length, List.take_of_length_le (List.length_range.le)] at hall
  rw [← hall, LocalFilled, localDBInit_eq]
  exact exists_loaded_iff

/-- **When each field is filled from its own column**, in both tables. -/
theorem filled_iff (t : ResultTable 17) (u : ResultTable 4) :
    PatternsFilled t ∧ LocalFilled u ↔
      (∀ row ∈ t.rows.take (maxPatternNumInModule + 1), RowOk patternColumns row) ∧
        ∀ row ∈ u.rows, RowOk localColumns row :=
  and_congr (patternsFilled_iff t) (localFilled_iff u)

theorem header_length_twenty : (List.replicate 20 (some "column")).length = 20 :=
  List.length_replicate

/-- A pattern without a name. -/
def noName : ResultTable 17 where
  column := 20
  header := List.replicate 20 (some "column")
  rows := [[some "1", none, some "bmp", some "24", some "1920x1080"] ++ List.replicate 15 none]
  header_length := header_length_twenty
  row_length row hrow := by
    rw [List.mem_singleton.mp hrow]
    rfl
  columns _ := by decide

/-- Its type is lost. -/
theorem noName_not_filled : ¬PatternsFilled noName := by
  intro h
  have hrow := (patternsFilled_iff noName).mp h _ List.mem_cons_self
  exact absurd (hrow.1 1 2 _ rfl rfl rfl (by decide) (by decide)) (by decide)

example : (fill noName patternColumns {} 0).map (fun filled => filled.record) = some
    { ptdindex := 1, displayX := "bmp", ptddisptime := 24, timclockfreq := 1920 } := by decide +kernel

/-! ## The other tables -/

/-- **`dbglobal_configLoad` fills each field from its own column**, whatever is NULL. -/
theorem global_own (t : ResultTable 6) (i : Nat) :
    taken t.result globalColumns (t.index i) = own t.result (t.index i) 6 := by
  refine taken_eq_own_iff.mpr fun k j c hk hinside => ?_
  have hall : ∀ c ∈ globalColumns, c.inside = false := by simp [globalColumns, strcpy, number]
  exact absurd hinside (by rw [hall c (List.mem_of_getElem? hk)]; decide)

/-- What is pushed into the set is pushed into its list. -/
theorem loopConns_foldl_push (rows : List LocalFileInfo) (set : LocalFileInfoSet) :
    (rows.foldl LocalFileInfoSet.push set).loopConns =
      rows.foldl LoopList.pushToTail set.loopConns := by
  induction rows generalizing set with
  | nil => rfl
  | cons r rows ih => exact ih (set.push r)

/-- A row whose texts fit has a name that fits. -/
theorem fits_ofRow {row : List (Option String)} (h : RowOk localColumns row) :
    Fits (LocalFileInfo.ofRow row).fileName := by
  have hname := h.2 _ List.mem_cons_self
  show ((cellAt row 0).getD "").utf8ByteSize < localFileNameLen
  cases hcell : cellAt row 0 with
  | none => decide
  | some text =>
    dsimp only at hname
    rw [hcell] at hname
    exact of_decide_eq_true hname

/-- **The loop over the cells** pushes what the loop over the rows does, where it fills the records
from their own columns. -/
theorem localDBInit_pushRows {t : ResultTable 4} (h : ∀ row ∈ t.rows, RowOk localColumns row) :
    ∃ set filled, ResultTable.localDBInit true true (some t) = some (none, set, filled) ∧
      pushRows (t.rows.map LocalFileInfo.ofRow) (LoopList.create maxFilesNum) =
        some set.loopConns := by
  obtain ⟨ret, set, filled, hinit, hfilled⟩ := (localFilled_iff t).mpr h
  rw [localDBInit_eq] at hinit
  obtain ⟨_, hmap, heq⟩ := Option.map_eq_some_iff.mp hinit
  obtain ⟨rfl, rfl, rfl⟩ := heq
  refine ⟨_, filled, by rw [localDBInit_eq, hmap]; rfl, ?_⟩
  have hlen := congrArg List.length (mapM_eq_some_iff.mp hmap)
  rw [List.length_map, List.length_range, List.length_map] at hlen
  -- the records are those of the rows, none is left out
  have hrecords : filled.map Filled.record = t.rows.map LocalFileInfo.ofRow := by
    rw [hfilled, List.take_of_length_le (Nat.le_of_eq hlen)]
    refine List.ext_getElem? fun i => ?_
    rw [List.getElem?_map, List.getElem?_mapIdx, List.getElem?_map, Option.map_map]
    rfl
  -- a row in order has a name that fits
  have hfits : ∀ r ∈ t.rows.map LocalFileInfo.ofRow, Fits r.fileName := by
    intro r hr
    obtain ⟨row, hrow, rfl⟩ := List.mem_map.mp hr
    exact fits_ofRow (h row hrow)
  rw [pushRows_eq, if_pos hfits, hrecords, loopConns_foldl_push]

end PgClient.PgDB
