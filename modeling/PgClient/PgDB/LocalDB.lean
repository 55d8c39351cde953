import Mathlib.Data.List.DropRight
import Mathlib.Data.Nat.Log
import PgClient.Lib.KeyedList
import PgClient.Lib.PartialRun
import PgClient.Loop.LoopList

/-!
# The local file cache

`pgLocalDB.c` keeps the synchronised files twice: as rows of a sqlite table, and
in a loop list that is searched by name. sqlite is taken as a table keyed by name, with
statements whose names are read between two quotes.

* `meant` — the row that a statement is about, if it is one about a row.
* `Tracks` — the list holds the rows of the table. It does as long as they fit.
* `kept_iff` — one call keeps the list a mirror of the table exactly when it leaves no more
  rows than the list has places, copies no name that is too long, and has no statement that
  does to the table what is not done to the list.
* `mirrors_iff` — so it is along every run that starts with `localDBInit`.
-/

namespace PgClient.PgDB

open Loop PartialRun

/-! ## Names in statements -/

/-- `LOCAL_FILE_NAME_LEN`. -/
def localFileNameLen : Nat := 128

/-- The name fits `fileName`, with its terminator. -/
def Fits (pName : String) : Prop := pName.utf8ByteSize < localFileNameLen

instance (pName : String) : Decidable (Fits pName) := inferInstanceAs (Decidable (_ < _))

/-- The single quote. -/
def quote : Char := Char.ofNat 39

/-- The name has no quote. -/
def Plain (pName : String) : Prop := quote ∉ pName.toList

instance (pName : String) : Decidable (Plain pName) := inferInstanceAs (Decidable (¬ _))

/-- What sqlite reads behind an opening quote: a whole name, a literal without an end, or
one that ends before the name does. -/
inductive Literal
  | name (chars : List Char)
  | unterminated
  | ended

def Literal.cons (c : Char) : Literal → Literal
  | .name chars => .name (c :: chars)
  | l => l

/-- A name between two quotes. A doubled quote is one of the name; the last one of the
name doubles the one that should end the literal. -/
def readLiteral : List Char → Literal
  | [] => .name []
  | [c] => if c = quote then .unterminated else .name [c]
  | c :: d :: cs =>
    if c ≠ quote then (readLiteral (d :: cs)).cons c
    else if d = quote then (readLiteral cs).cons quote
    else .ended

/-- The statements with a name in them; that of `INSERT` is read as that of `SELECT`. -/
inductive Stmt
  | select
  | update

/-- What a statement is about. -/
inductive Meant
  | row (name : String)
  | error
  | other

/-- What sqlite takes a statement to be. Where the name ends the literal, the rest of it is
SQL; `refuses` says which of these are an error. -/
def meant (refuses : Stmt → String → Bool) (stmt : Stmt) (pName : String) : Meant :=
  match readLiteral pName.toList with
  | .name chars => .row (String.ofList chars)
  | .unterminated => .error
  | .ended => if refuses stmt pName then .error else .other

/-- `sqls`. -/
def sqlsSize : Nat := 256

/-- The characters that `%d` prints. -/
def printed (n : Int32) : Nat :=
  (if n.toInt < 0 then 1 else 0) + (Nat.log 10 n.toInt.natAbs + 1)

def selectLen (pName : String) : Nat :=
  "SELECT * FROM 'FileInfoTable' where name='' ".utf8ByteSize + pName.utf8ByteSize

def updateLen (pName : String) (time size : Int32) : Nat :=
  "UPDATE FileInfoTable SET time=,size= where name=''".utf8ByteSize + pName.utf8ByteSize +
    printed time + printed size

def insertLen (pName : String) (time size : Int32) : Nat :=
  "INSERT INTO FileInfoTable VALUES ('', , , 0, 0, 0 )".utf8ByteSize + pName.utf8ByteSize +
    printed time + printed size

/-! ## The code -/

/-- `local_file_info_t`, and a row of `FileInfoTable`. -/
structure LocalFileInfo where
  fileName : String
  fileTime : Int
  fileSize : Int
  fileStatus : Int
  deriving DecidableEq

/-- `MAX_FILES_NUM`. -/
def maxFilesNum : Nat := 1000

/-- `FileInfoTable`, keyed by name. -/
structure Table where
  rows : List LocalFileInfo
  keyed : (rows.map LocalFileInfo.fileName).Nodup

namespace Table

/-- `SELECT * FROM … where name=…`. -/
def select (t : Table) (pName : String) : Option LocalFileInfo :=
  KeyedList.find LocalFileInfo.fileName pName t.rows

def setTimeSize (time size : Int32) (r : LocalFileInfo) : LocalFileInfo :=
  { r with fileTime := time.toInt, fileSize := size.toInt }

/-- `UPDATE … SET time=…,size=… where name=…`. -/
def update (t : Table) (pName : String) (time size : Int32) : Table where
  rows := KeyedList.update LocalFileInfo.fileName pName (setTimeSize time size) t.rows
  keyed := by
    rw [KeyedList.map_key_update (f := setTimeSize time size) fun _ => rfl]
    exact t.keyed

/-- `INSERT INTO …`, refused when there is such a row. -/
def insert (t : Table) (r : LocalFileInfo) : Table :=
  -- a name that is there already makes the INSERT fail
  if h : r.fileName ∈ t.rows.map LocalFileInfo.fileName then t
  else
    { rows := t.rows ++ [r]
      keyed := by
        rw [List.map_append, List.map_singleton]
        exact List.nodup_append.mpr ⟨t.keyed, by simp, by
          intro a ha b hb
          rw [List.mem_singleton.mp hb]
          exact fun heq => h (heq ▸ ha)⟩ }

/-- `DELETE FROM …`. -/
def deleteAll : Table := ⟨[], List.nodup_nil⟩

/-- The row of the name, if there is one, has this time and size. -/
def Has (t : Table) (pName : String) (time size : Int32) : Prop :=
  ∀ r, t.select pName = some r → r.fileTime = time.toInt ∧ r.fileSize = size.toInt

end Table

/-- The two copies. -/
structure Db where
  table : Table
  localFileSet : LoopList LocalFileInfo

/-- The loop of `localDBInit` over the rows; `none` when `strcpy` runs past
`fileName`. -/
def pushRows : List LocalFileInfo → LoopList LocalFileInfo → Option (LoopList LocalFileInfo)
  | [], l => some l
  | r :: rows, l => if Fits r.fileName then pushRows rows (l.pushToTail r) else none

def localDBInit (db : Db) : Option Db :=
  (pushRows db.table.rows (LoopList.create maxFilesNum)).map fun l => { db with localFileSet := l }

def localDBGetRec (db : Db) (pName : String) : Option LocalFileInfo :=
  db.localFileSet.search fun r => r.fileName = pName

def localDBDelAll (db : Db) : Db := ⟨Table.deleteAll, db.localFileSet.clear⟩

section Statements

variable (refuses : Stmt → String → Bool)

/-- `localDBUpdate`. A statement that is refused leaves the table as it is; what SQL of its
own does is left open. -/
def localDBUpdate (db : Db) (pName : String) (time size : Int32) : Option Db :=
  if updateLen pName time size < sqlsSize then
    match meant refuses .update pName with
    | .row name => some { db with table := db.table.update name time size }
    | .error => some db
    | .other => none
  else none

/-- `localDBAdd`. The branch for a row that is there leaves the list alone. -/
def localDBAdd (db : Db) (pName : String) (time size : Int32) : Option Db :=
  if selectLen pName < sqlsSize then
    match meant refuses .select pName with
    | .error => some db
    | .other => none
    | .row name =>
      match db.table.select name with
      | some _ => localDBUpdate refuses db pName time size
      | none =>
        -- the row gets the name that is meant, the record the one that was copied
        if insertLen pName time size < sqlsSize ∧ Fits pName then
          some ⟨db.table.insert ⟨name, time.toInt, size.toInt, 0⟩,
            db.localFileSet.pushToTail ⟨pName, time.toInt, size.toInt, 0⟩⟩
        else none
  else none

/-- The step of `client_pg_syncFile`: the record found is written to through its
pointer. -/
def syncRecord (db : Db) (pName : String) (time size : Int32) : Option Db :=
  match localDBGetRec db pName with
  | some _ =>
    let l := db.localFileSet.setFound (fun r => r.fileName = pName) (Table.setTimeSize time size)
    localDBUpdate refuses { db with localFileSet := l } pName time size
  | none => localDBAdd refuses db pName time size

/-! ## Runs -/

inductive Op
  | init
  | delAll
  | sync (pName : String) (time size : Int32)

def Op.step : Op → Db → Option Db
  | .init, db => localDBInit db
  | .delAll, db => some (localDBDelAll db)
  | .sync pName time size, db => syncRecord refuses db pName time size

/-- What tells whether a file is synchronised. -/
def LocalFileInfo.stamp (r : LocalFileInfo) : Int × Int := (r.fileTime, r.fileSize)

/-- A record is found exactly where the table has a row, with its time and size. -/
def Mirrors (db : Db) : Prop :=
  ∀ pName, (localDBGetRec db pName).map LocalFileInfo.stamp =
    (db.table.select pName).map LocalFileInfo.stamp

/-- The call is defined, and leaves the list a mirror of the table. -/
def Kept (op : Op) (db : Db) : Prop := ∃ db', op.step refuses db = some db' ∧ Mirrors db'

/-- A name that has a row. Where the statement is about another one or refused, nothing
may be left to change. -/
def UpdateRoomy (t : Table) (pName : String) (time size : Int32) : Prop :=
  match meant refuses .update pName with
  | .row name => name = pName ∨ t.Has pName time size ∧ t.Has name time size
  | .error => t.Has pName time size
  | .other => False

/-- A name that has none: it is not in the list, either. -/
def AddRoomy (t : Table) (pName : String) (time size : Int32) : Prop :=
  match meant refuses .select pName with
  | .row name =>
    if name = pName then t.rows.length + 1 < maxFilesNum ∧ Fits pName
    else updateLen pName time size < sqlsSize ∧ (t.select name).isSome ∧ t.Has name time size
  | .error => selectLen pName < sqlsSize
  | .other => False

/-- The rows fit the list afterwards, every name that is copied fits its field, and the
statements do to the table what is done to the list. -/
def Op.Roomy : Op → Db → Prop
  | .init, db => db.table.rows.length < maxFilesNum ∧ ∀ r ∈ db.table.rows, Fits r.fileName
  | .delAll, _ => True
  | .sync pName time size, db =>
    if (db.table.select pName).isSome then UpdateRoomy refuses db.table pName time size
    else AddRoomy refuses db.table pName time size

end Statements

/-! ## Reading a name -/

/-- A text without a quote is read as it is. -/
theorem readLiteral_plain {cs : List Char} (h : quote ∉ cs) : readLiteral cs = .name cs := by
  induction cs using readLiteral.induct with
  | case1 => rfl
  | case2 => simp at h
  | case3 c hc => rw [readLiteral, if_neg hc]
  | case4 c d cs hc ih =>
    rw [List.mem_cons, not_or] at h
    rw [readLiteral, if_pos hc, ih h.2, Literal.cons]
  | case5 c cs hc ih => exact absurd hc fun hc' => h (by simp [not_not.mp hc'])
  | case6 c d cs hc hd => exact absurd hc fun hc' => h (by simp [not_not.mp hc'])

section Meant

variable {refuses : Stmt → String → Bool} {stmt : Stmt} {pName name : String}

/-- A name without a quote is the name that is meant. -/
theorem meant_plain (h : Plain pName) : meant refuses stmt pName = .row pName := by
  rw [meant, readLiteral_plain h]
  exact congrArg Meant.row String.ofList_toList

/-- The statements are about the same row, where they are about one. -/
theorem meant_row_congr (h : meant refuses stmt pName = .row name) (stmt' : Stmt) :
    meant refuses stmt' pName = .row name := by
  unfold meant at h ⊢
  cases hread : readLiteral pName.toList with
  | name chars => rwa [hread] at h
  | unterminated =>
    rw [hread] at h
    cases h
  | ended =>
    rw [hread] at h
    dsimp only at h
    split at h <;> cases h

end Meant

/-- A number of 32 bits has eleven characters at most. -/
theorem printed_le (n : Int32) : printed n ≤ 11 := by
  have hlow := n.le_toInt
  have hhigh := n.toInt_lt
  have habs : n.toInt.natAbs < 10 ^ 10 := by omega
  have hlog := Nat.log_lt_of_lt_pow' (b := 10) (by decide) habs
  unfold printed
  split <;> omega

/-- Where the update fits its buffer, so does the shorter query. -/
theorem selectLen_lt {pName : String} {time size : Int32} (h : updateLen pName time size < sqlsSize) :
    selectLen pName < sqlsSize := by
  have hselect : "SELECT * FROM 'FileInfoTable' where name='' ".utf8ByteSize = 44 := by decide
  have hupdate : "UPDATE FileInfoTable SET time=,size= where name=''".utf8ByteSize = 50 := by decide
  unfold updateLen at h
  unfold selectLen
  omega

/-- Every statement with a name that fits `fileName` fits `sqls`. -/
theorem Fits.sqls {pName : String} (h : Fits pName) (time size : Int32) :
    selectLen pName < sqlsSize ∧ updateLen pName time size < sqlsSize ∧
      insertLen pName time size < sqlsSize := by
  have htime := printed_le time
  have hsize := printed_le size
  unfold Fits localFileNameLen at h
  unfold selectLen updateLen insertLen sqlsSize
  -- the texts have at most 51 characters apart from the name and the numbers
  have hselect : "SELECT * FROM 'FileInfoTable' where name='' ".utf8ByteSize = 44 := by decide
  have hupdate : "UPDATE FileInfoTable SET time=,size= where name=''".utf8ByteSize = 50 := by decide
  have hinsert : "INSERT INTO FileInfoTable VALUES ('', , , 0, 0, 0 )".utf8ByteSize = 51 := by decide
  rw [hselect, hupdate, hinsert]
  omega

/-- The list holds the rows of the table, whose names fit. -/
structure Tracks (db : Db) : Prop where
  size : db.localFileSet.size = maxFilesNum
  holds : db.localFileSet.Holds db.table.rows
  fits : ∀ r ∈ db.table.rows, Fits r.fileName

/-- A list that tracks the table finds what the table has. -/
theorem Tracks.mirrors {db : Db} (h : Tracks db) : Mirrors db := by
  intro pName
  rw [localDBGetRec, LoopList.search_eq h.holds]
  rfl

/-- It finds the same record. -/
theorem Tracks.getRec {db : Db} (h : Tracks db) (pName : String) :
    localDBGetRec db pName = db.table.select pName := LoopList.search_eq h.holds _

/-! ## Loading -/

/-- A push keeps as many of the last elements as there are places. -/
theorem holds_push {α : Type} {l : LoopList α} {q : List α} (h : l.Holds q) (hsize : 2 ≤ l.size)
    (x : α) : (l.pushToTail x).Holds ((q ++ [x]).rtake (l.size - 1)) := by
  have hroom := h.room
  obtain ⟨n, hn⟩ : ∃ n, l.size = n + 2 := ⟨l.size - 2, by omega⟩
  rw [hn, Nat.add_sub_assoc (by decide), List.rtake_concat_succ]
  -- the list still has room, or it gives up its oldest element
  rcases Nat.lt_or_ge (q.length + 1) l.size with hlt | hge
  · have hall : q.rtake n = q := by
      rw [List.rtake, Nat.sub_eq_zero_of_le (by omega), List.drop_zero]
    rw [hall]
    exact LoopList.holds_push_room h hlt x
  · have htail : q.rtake n = q.tail := by
      rw [List.rtake, show q.length - n = 1 by omega, List.drop_one]
    rw [htail]
    exact LoopList.holds_push_full h hsize (by omega) x

/-- The last elements of the last elements. -/
theorem rtake_rtake_append {α : Type} (q rows : List α) (n : Nat) :
    (q.rtake n ++ rows).rtake n = (q ++ rows).rtake n := by
  unfold List.rtake
  rw [List.drop_append, List.drop_drop, List.drop_append, List.length_append, List.length_append,
    List.length_drop]
  congr 2 <;> omega

/-- Pushes one after the other keep the last elements of all. -/
theorem holds_foldl_push {α : Type} {l : LoopList α} {q : List α} (h : l.Holds q)
    (hsize : 2 ≤ l.size) (rows : List α) :
    (rows.foldl LoopList.pushToTail l).size = l.size ∧
      (rows.foldl LoopList.pushToTail l).Holds ((q ++ rows).rtake (l.size - 1)) := by
  induction rows generalizing q l with
  | nil =>
    refine ⟨rfl, ?_⟩
    have hroom := h.room
    rw [List.append_nil, List.rtake, Nat.sub_eq_zero_of_le (by omega), List.drop_zero]
    exact h
  | cons r rows ih =>
    have hsize' := LoopList.size_pushToTail l r
    obtain ⟨heq, hholds⟩ := ih (holds_push h hsize r) (by rwa [hsize'])
    refine ⟨heq.trans hsize', ?_⟩
    -- keeping the newest after each push is keeping the newest of all
    rw [hsize', rtake_rtake_append, List.append_assoc] at hholds
    exact hholds

/-- A name of 128 bytes or more runs over the field. -/
theorem pushRows_eq (rows : List LocalFileInfo) (l : LoopList LocalFileInfo) :
    pushRows rows l =
      if ∀ r ∈ rows, Fits r.fileName then some (rows.foldl LoopList.pushToTail l) else none := by
  induction rows generalizing l with
  | nil => exact (if_pos nofun).symm
  | cons r rows ih =>
    rw [pushRows, ih]
    simp only [List.forall_mem_cons, List.foldl_cons]
    split_ifs <;> simp_all

/-- A load is undefined exactly if a name does not fit its array. -/
theorem pushRows_eq_none_iff {rows : List LocalFileInfo} {l : LoopList LocalFileInfo} :
    pushRows rows l = none ↔ ∃ r ∈ rows, ¬ Fits r.fileName := by
  rw [pushRows_eq]
  simp

/-- The rows are loaded in their order; where they are too many, the first are lost. -/
theorem holds_pushRows {rows q : List LocalFileInfo} {l l' : LoopList LocalFileInfo}
    (h : l.Holds q) (hsize : 2 ≤ l.size) (hpush : pushRows rows l = some l') :
    l'.size = l.size ∧ l'.Holds ((q ++ rows).rtake (l.size - 1)) := by
  rw [pushRows_eq] at hpush
  split_ifs at hpush
  obtain rfl := Option.some.inj hpush
  exact holds_foldl_push h hsize rows

/-- A list that has lost the table's first row is no mirror. -/
theorem not_mirrors_of_lost {db : Db} {r : LocalFileInfo} {rows q : List LocalFileInfo}
    (hrows : db.table.rows = r :: rows) (hholds : db.localFileSet.Holds q) (hlost : ∀ r' ∈ q, r' ∈ rows) :
    ¬ Mirrors db := by
  intro h
  have hkeyed := db.table.keyed
  rw [hrows, List.map_cons, List.nodup_cons] at hkeyed
  have hrec : localDBGetRec db r.fileName = none := by
    rw [localDBGetRec, LoopList.search_eq hholds, List.find?_eq_none]
    intro r' hr'
    -- its name is taken once in the table, so the list finds nothing under it
    have hne : r'.fileName ≠ r.fileName := fun heq =>
      hkeyed.1 (List.mem_map.mpr ⟨r', hlost r' hr', heq⟩)
    simpa using hne
  have hselect : db.table.select r.fileName = some r := by
    rw [Table.select, KeyedList.find, hrows]
    simp
  have hname := h r.fileName
  rw [hrec, hselect] at hname
  cases hname

/-! ## The table -/

namespace Table

variable {t : Table} {pName : String} {time size : Int32}

/-- A new name is a new row at the end. -/
theorem insert_rows {r : LocalFileInfo} (h : t.select r.fileName = none) :
    (t.insert r).rows = t.rows ++ [r] := by
  have hnew := KeyedList.find_eq_none_iff.mp h
  rw [insert, dif_neg hnew]

/-- A record inserted leaves the others. -/
theorem select_insert_of_ne (t : Table) (r : LocalFileInfo) {name : String} (hne : name ≠ r.fileName) :
    (t.insert r).select name = t.select name := by
  unfold insert
  split_ifs with hin
  · rfl
  · show KeyedList.find _ name (t.rows ++ [r]) = _
    rw [KeyedList.find_append]
    simp [KeyedList.find, hne.symm, select]

/-- An update is seen in the row of its name only. -/
theorem select_update (t : Table) (pName : String) (time size : Int32) (name : String) :
    (t.update pName time size).select name =
      if name = pName then (t.select name).map (setTimeSize time size) else t.select name :=
  KeyedList.find?_update (f := setTimeSize time size) (fun _ => rfl) t.rows name

/-- What a row has already need not be written. -/
theorem update_of_has (h : t.Has pName time size) : t.update pName time size = t := by
  have hrows : KeyedList.update LocalFileInfo.fileName pName (setTimeSize time size) t.rows = t.rows := by
    refine KeyedList.update_eq_self t.keyed fun r hr => ?_
    obtain ⟨htime, hsize⟩ := h r hr
    rw [setTimeSize, ← htime, ← hsize]
  cases t
  simp only [update, mk.injEq]
  exact hrows

/-- An update that cannot be seen in its row. -/
theorem has_of_stamp (h : ((t.update pName time size).select pName).map LocalFileInfo.stamp =
    (t.select pName).map LocalFileInfo.stamp) : t.Has pName time size := by
  intro r hr
  rw [select_update, if_pos rfl, hr] at h
  obtain ⟨htime, hsize⟩ := Prod.mk.inj (Option.some.inj h)
  exact ⟨htime.symm, hsize.symm⟩

/-- What is selected is a row of that name. -/
theorem mem_rows_of_select {r : LocalFileInfo} (h : t.select pName = some r) :
    r ∈ t.rows ∧ r.fileName = pName :=
  ⟨List.mem_of_find?_eq_some h, by simpa using List.find?_some h⟩

end Table

/-- A list that holds the rows of one table, beside another. -/
theorem mirrors_iff_stamp {l : LoopList LocalFileInfo} {t t' : Table} (h : l.Holds t.rows) :
    Mirrors ⟨t', l⟩ ↔ ∀ pName, (t.select pName).map LocalFileInfo.stamp =
      (t'.select pName).map LocalFileInfo.stamp := by
  unfold Mirrors localDBGetRec
  simp only [LoopList.search_eq h]
  rfl

/-! ## One call -/

section Calls

variable {refuses : Stmt → String → Bool} {db : Db} {pName : String} {time size : Int32}

/-- The list whose record was written to, with a table that was updated as well. -/
theorem Tracks.setFound (h : Tracks db) (pName : String) (time size : Int32) :
    Tracks ⟨db.table.update pName time size,
      db.localFileSet.setFound (fun r => r.fileName = pName) (Table.setTimeSize time size)⟩ := by
  have hset := LoopList.holds_setFound h.holds (fun r => r.fileName = pName)
    (Table.setTimeSize time size)
  rw [KeyedList.modify_eq_update db.table.keyed] at hset
  refine ⟨(LoopList.size_setFound _ _ _).trans h.size, hset, fun r hr => ?_⟩
  obtain ⟨r₀, hr₀, rfl⟩ := List.mem_map.mp hr
  split <;> exact h.fits r₀ hr₀

/-- The step for a name that has a row. -/
theorem sync_found (h : Tracks db) (hfound : (db.table.select pName).isSome) :
    (Op.sync pName time size).step refuses db =
      localDBUpdate refuses { db with
        localFileSet :=
          db.localFileSet.setFound (fun r => r.fileName = pName) (Table.setTimeSize time size) }
        pName time size ∧
      updateLen pName time size < sqlsSize := by
  obtain ⟨r, hselect⟩ := Option.isSome_iff_exists.mp hfound
  obtain ⟨hr, rfl⟩ := Table.mem_rows_of_select hselect
  refine ⟨?_, ((h.fits r hr).sqls time size).2.1⟩
  rw [Op.step, syncRecord, h.getRec, hselect]

/-- A file without a record is added. -/
theorem sync_missing (h : Tracks db) (hmissing : db.table.select pName = none) :
    (Op.sync pName time size).step refuses db = localDBAdd refuses db pName time size := by
  rw [Op.step, syncRecord, h.getRec, hmissing]

/-- **An update keeps the list and the table together**, if sqlite takes it or changes nothing by
it. -/
theorem update_tracks (h : Tracks db) (hfound : (db.table.select pName).isSome)
    (hroomy : UpdateRoomy refuses db.table pName time size) :
    ∃ db', (Op.sync pName time size).step refuses db = some db' ∧ Tracks db' := by
  obtain ⟨hstep, hlen⟩ := @sync_found refuses db pName time size h hfound
  have htracks := h.setFound pName time size
  rw [hstep, localDBUpdate, if_pos hlen]
  unfold UpdateRoomy at hroomy
  cases hmeant : meant refuses .update pName with
  | row name =>
    rw [hmeant] at hroomy
    refine ⟨_, rfl, ?_⟩
    rcases hroomy with rfl | ⟨hself, hname⟩
    · exact htracks
    -- both rows are as they should be already
    · rw [Table.update_of_has hself] at htracks
      rwa [Table.update_of_has hname]
  | error =>
    rw [hmeant] at hroomy
    rw [Table.update_of_has hroomy] at htracks
    exact ⟨_, rfl, htracks⟩
  | other =>
    rw [hmeant] at hroomy
    exact hroomy.elim

/-- It has to: otherwise the two differ afterwards. -/
theorem updateRoomy_of_kept (h : Tracks db) (hfound : (db.table.select pName).isSome)
    (hkept : Kept refuses (.sync pName time size) db) :
    UpdateRoomy refuses db.table pName time size := by
  obtain ⟨db', hdb', hmirrors⟩ := hkept
  obtain ⟨hstep, hlen⟩ := @sync_found refuses db pName time size h hfound
  have hholds : LoopList.Holds _ (db.table.update pName time size).rows :=
    (h.setFound pName time size).holds
  rw [hstep, localDBUpdate, if_pos hlen] at hdb'
  unfold UpdateRoomy
  cases hmeant : meant refuses .update pName with
  | row name =>
    simp only [hmeant, Option.some.injEq] at hdb'
    subst hdb'
    -- the list was updated at the name, the table where the statement says
    have hstamp := (mirrors_iff_stamp hholds).mp hmirrors
    by_cases hname : name = pName
    · exact .inl hname
    · refine .inr ⟨@Table.has_of_stamp _ _ time size ?_, @Table.has_of_stamp _ _ time size ?_⟩
      · refine (hstamp pName).trans ?_
        rw [Table.select_update, if_neg (Ne.symm hname)]
      · refine (hstamp name).symm.trans ?_
        rw [Table.select_update, if_neg hname]
  | error =>
    simp only [hmeant, Option.some.injEq] at hdb'
    subst hdb'
    exact Table.has_of_stamp ((mirrors_iff_stamp hholds).mp hmirrors pName)
  | other =>
    simp only [hmeant, reduceCtorEq] at hdb'

/-- **So does a new record**, if there is room for it. -/
theorem add_tracks (h : Tracks db) (hmissing : db.table.select pName = none)
    (hroomy : AddRoomy refuses db.table pName time size) :
    ∃ db', (Op.sync pName time size).step refuses db = some db' ∧ Tracks db' := by
  rw [sync_missing h hmissing, localDBAdd]
  unfold AddRoomy at hroomy
  cases hmeant : meant refuses .select pName with
  | row name =>
    simp only [hmeant] at hroomy
    split_ifs at hroomy with hname
    · -- both get it at the end
      subst hname
      obtain ⟨hlen, hfits⟩ := hroomy
      obtain ⟨hselect, -, hinsert⟩ := hfits.sqls time size
      simp only [if_pos hselect, hmissing, if_pos (And.intro hinsert hfits)]
      have hrows := Table.insert_rows (r := ⟨name, time.toInt, size.toInt, 0⟩) hmissing
      refine ⟨_, rfl, (LoopList.size_pushToTail _ _).trans h.size, ?_, ?_⟩
      · show LoopList.Holds _ (Table.insert _ _).rows
        rw [hrows]
        exact LoopList.holds_push_room h.holds (by rwa [h.size]) _
      · show ∀ r ∈ (Table.insert _ _).rows, _
        rw [hrows]
        intro r hr
        rcases List.mem_append.mp hr with hr | hr
        · exact h.fits r hr
        · rwa [List.mem_singleton.mp hr]
    · -- the row that is meant is there, and as it should be
      obtain ⟨hlen, hfound, hhas⟩ := hroomy
      obtain ⟨r, hr⟩ := Option.isSome_iff_exists.mp hfound
      simp only [if_pos (selectLen_lt hlen), hr, localDBUpdate, if_pos hlen,
        meant_row_congr hmeant .update, Table.update_of_has hhas]
      exact ⟨db, rfl, h⟩
  | error =>
    simp only [hmeant] at hroomy
    rw [if_pos hroomy]
    exact ⟨db, rfl, h⟩
  | other =>
    simp only [hmeant] at hroomy

/-- A record that was pushed is found. -/
theorem getRec_pushToTail (h : Tracks db) (t : Table) (r : LocalFileInfo) :
    (localDBGetRec ⟨t, db.localFileSet.pushToTail r⟩ r.fileName).isSome := by
  have hpush := holds_push h.holds (by rw [h.size]; decide) r
  have hin : r ∈ (db.table.rows ++ [r]).rtake (db.localFileSet.size - 1) := by
    rw [h.size, show maxFilesNum - 1 = 998 + 1 from rfl, List.rtake_concat_succ]
    simp
  rw [localDBGetRec, LoopList.search_eq hpush]
  exact List.find?_isSome.mpr ⟨r, hin, by simp⟩

/-- A push onto a full list loses the oldest record, whose row is still there. -/
theorem not_mirrors_of_full (h : Tracks db) (hfull : db.table.rows.length + 1 = db.localFileSet.size)
    {r : LocalFileInfo} (hmissing : db.table.select r.fileName = none) :
    ¬Mirrors ⟨db.table.insert r, db.localFileSet.pushToTail r⟩ := by
  have hsize : 2 ≤ db.localFileSet.size := by rw [h.size]; decide
  have hholds := LoopList.holds_push_full h.holds hsize hfull r
  cases hrows : db.table.rows with
  | nil =>
    rw [hrows, h.size] at hfull
    exact absurd hfull (by decide)
  | cons oldest rows =>
    rw [hrows, List.tail_cons] at hholds
    refine @not_mirrors_of_lost _ oldest (rows ++ [r]) _ ?_ hholds fun r' hr' => hr'
    rw [Table.insert_rows hmissing, hrows, List.cons_append]

/-- A record under one name and a row under another are no mirror. -/
theorem not_mirrors_of_renamed (h : Tracks db) (hmissing : db.table.select pName = none)
    {name : String} (hname : pName ≠ name) (time size fileTime fileSize : Int) :
    ¬Mirrors ⟨db.table.insert ⟨name, fileTime, fileSize, 0⟩,
      db.localFileSet.pushToTail ⟨pName, time, size, 0⟩⟩ := by
  intro hmirrors
  have hrec := getRec_pushToTail h (db.table.insert ⟨name, fileTime, fileSize, 0⟩)
    ⟨pName, time, size, 0⟩
  have hnone := hmirrors pName
  rw [Table.select_insert_of_ne _ _ hname, hmissing, Option.map_none,
    Option.map_eq_none_iff] at hnone
  rw [hnone] at hrec
  cases hrec

/-- Again it has to. -/
theorem addRoomy_of_kept (h : Tracks db) (hmissing : db.table.select pName = none)
    (hkept : Kept refuses (.sync pName time size) db) :
    AddRoomy refuses db.table pName time size := by
  obtain ⟨db', hdb', hmirrors⟩ := hkept
  rw [sync_missing h hmissing, localDBAdd] at hdb'
  have hselect : selectLen pName < sqlsSize := by
    by_contra hlong
    rw [if_neg hlong] at hdb'
    cases hdb'
  rw [if_pos hselect] at hdb'
  unfold AddRoomy
  cases hmeant : meant refuses .select pName with
  | row name =>
    simp only [hmeant] at hdb' ⊢
    split_ifs with hname
    · -- the record and the row are of this name
      subst hname
      simp only [hmissing] at hdb'
      split_ifs at hdb' with hok
      refine ⟨?_, hok.2⟩
      by_contra hlen
      have hfull : db.table.rows.length + 1 = db.localFileSet.size := by
        have := h.holds.room
        rw [h.size] at this ⊢
        omega
      obtain rfl := Option.some.inj hdb'
      exact not_mirrors_of_full h hfull hmissing hmirrors
    · cases hfound : db.table.select name with
      | some r =>
        -- the list is left alone, so the update must not be seen
        simp only [hfound, localDBUpdate, meant_row_congr hmeant .update] at hdb'
        split_ifs at hdb' with hlen
        obtain rfl := Option.some.inj hdb'
        exact ⟨hlen, rfl, Table.has_of_stamp ((mirrors_iff_stamp h.holds).mp hmirrors name).symm⟩
      | none =>
        -- the record gets the one name and the row the other
        simp only [hfound] at hdb'
        split_ifs at hdb' with hok
        obtain rfl := Option.some.inj hdb'
        exact absurd hmirrors (not_mirrors_of_renamed h hmissing (Ne.symm hname) _ _ _ _)
  | error => exact hselect
  | other =>
    rw [hmeant] at hdb'
    cases hdb'

/-- A call that is roomy leaves the rows in the list. -/
theorem step_tracks {op : Op} {db : Db} (h : op = .init ∨ Tracks db) (hroomy : op.Roomy refuses db) :
    ∃ db', op.step refuses db = some db' ∧ Tracks db' := by
  cases op with
  | init =>
    obtain ⟨hlen, hfits⟩ := hroomy
    cases hpush : pushRows db.table.rows (LoopList.create maxFilesNum) with
    | none =>
      -- only for a name that is too long
      obtain ⟨r, hr, hlong⟩ := pushRows_eq_none_iff.mp hpush
      exact absurd (hfits r hr) hlong
    | some l =>
      obtain ⟨hsize, hholds⟩ := holds_pushRows (LoopList.holds_create (by decide)) (by decide) hpush
      refine ⟨⟨db.table, l⟩, by simp only [Op.step, localDBInit, hpush, Option.map_some], hsize, ?_,
        hfits⟩
      -- at most 999 rows: nothing was pushed out
      have hall : db.table.rows.rtake (maxFilesNum - 1) = db.table.rows := by
        rw [List.rtake, Nat.sub_eq_zero_of_le (by omega), List.drop_zero]
      show l.Holds db.table.rows
      rw [← hall]
      exact hholds
  | delAll =>
    have htracks := h.resolve_left (by simp)
    exact ⟨_, rfl, htracks.size, LoopList.holds_clear htracks.holds, fun r hr => by cases hr⟩
  | sync pName time size =>
    have htracks := h.resolve_left (by simp)
    by_cases hfound : (db.table.select pName).isSome
    · exact update_tracks htracks hfound (by rwa [Op.Roomy, if_pos hfound] at hroomy)
    · exact add_tracks htracks (by simpa using hfound) (by rwa [Op.Roomy, if_neg hfound] at hroomy)

/-- A call that leaves a mirror was roomy. -/
theorem roomy_of_kept {op : Op} {db : Db} (h : op = .init ∨ Tracks db) (hkept : Kept refuses op db) :
    op.Roomy refuses db := by
  cases op with
  | init =>
    obtain ⟨db', hstep, hmirrors⟩ := hkept
    cases hpush : pushRows db.table.rows (LoopList.create maxFilesNum) with
    | none =>
      simp only [Op.step, localDBInit, hpush, Option.map_none, reduceCtorEq] at hstep
    | some l =>
      simp only [Op.step, localDBInit, hpush, Option.map_some, Option.some.injEq] at hstep
      subst hstep
      refine ⟨?_, fun r hr => ?_⟩
      · -- too many rows: the first one is not in the list
        by_contra hlen
        have hholds : l.Holds (db.table.rows.rtake (maxFilesNum - 1)) :=
          (holds_pushRows (LoopList.holds_create (by decide)) (by decide) hpush).2
        cases hrows : db.table.rows with
        | nil =>
          rw [hrows] at hlen
          exact hlen (by decide)
        | cons r rows =>
          refine @not_mirrors_of_lost ⟨db.table, l⟩ r rows _ hrows hholds (fun r' hr' => ?_) hmirrors
          rw [hrows] at hr' hlen
          have hpos : (r :: rows).length - (maxFilesNum - 1) ≠ 0 := by
            simp only [maxFilesNum] at hlen ⊢
            omega
          obtain ⟨n, hn⟩ := Nat.exists_eq_succ_of_ne_zero hpos
          rw [List.rtake, hn] at hr'
          exact List.mem_of_mem_drop hr'
      · by_contra hlong
        rw [pushRows_eq_none_iff.mpr ⟨r, hr, hlong⟩] at hpush
        cases hpush
  | delAll => trivial
  | sync pName time size =>
    have htracks := h.resolve_left (by simp)
    rw [Op.Roomy]
    split_ifs with hfound
    · exact updateRoomy_of_kept htracks hfound hkept
    · exact addRoomy_of_kept htracks (by simpa using hfound) hkept

/-- **One call**: from a list that holds the rows, or starting afresh. -/
theorem kept_iff {op : Op} {db : Db} (h : op = .init ∨ Tracks db) :
    Kept refuses op db ↔ op.Roomy refuses db := by
  constructor
  · exact roomy_of_kept h
  · intro hroomy
    obtain ⟨db', hstep, htracks⟩ := step_tracks h hroomy
    exact ⟨db', hstep, htracks.mirrors⟩

/-- **The local file cache**: along a run from `localDBInit`, the list mirrors the
table after every call exactly when every call is roomy. -/
theorem mirrors_iff (refuses : Stmt → String → Bool) (ops : List Op) (db : Db) :
    Along (Op.step refuses) (Kept refuses) (.init :: ops) db ↔
      Along (Op.step refuses) (Op.Roomy refuses) (.init :: ops) db := by
  -- a roomy call leaves the list tracking the table
  have hstep : ∀ (op : Op) (db db' : Db), op = .init ∨ Tracks db → op.Roomy refuses db →
      op.step refuses db = some db' → Tracks db' := by
    intro op db db' h hroomy hop
    obtain ⟨db'', hop', htracks⟩ := step_tracks h hroomy
    rw [hop', Option.some.injEq] at hop
    rwa [← hop]
  have hrest : ∀ db', Tracks db' → (Along (Op.step refuses) (Kept refuses) ops db' ↔
      Along (Op.step refuses) (Op.Roomy refuses) ops db') :=
    fun db' => along_congr (fun op db (h : Tracks db) => kept_iff (.inr h))
      (fun op db db' h => hstep op db db' (.inr h)) ops
  unfold Along
  rw [kept_iff (.inl rfl)]
  -- the first call is `localDBInit`, from any table
  refine and_congr_right fun hroomy => forall₂_congr fun db' hop => ?_
  exact hrest db' (hstep .init db db' (.inl rfl) hroomy hop)

end Calls

/-- A table with a thousand rows. -/
def thousandRows : Table where
  rows := (List.range 1000).map fun i => ⟨String.singleton (Char.ofNat (0x4E00 + i)), 0, 1, 0⟩
  keyed := by
    rw [List.map_map]
    refine List.Nodup.map_on (fun i hi j hj heq => ?_) List.nodup_range
    have htoNat : ∀ n ∈ List.range 1000, (Char.ofNat (0x4E00 + n)).toNat = 0x4E00 + n := by
      intro n hn
      rw [Char.ofNat, dif_pos (.inl (by rw [List.mem_range] at hn; omega))]
      rfl
    have hchar : Char.ofNat (0x4E00 + i) = Char.ofNat (0x4E00 + j) := String.singleton_inj.mp heq
    have hval : 0x4E00 + i = 0x4E00 + j := by rw [← htoNat i hi, ← htoNat j hj, hchar]
    exact Nat.add_left_cancel hval

/-- Its first row is lost from the list. -/
theorem thousandRows_not_kept :
    ¬ Along (Op.step fun _ _ => false) (Kept fun _ _ => false) [.init]
      ⟨thousandRows, LoopList.create maxFilesNum⟩ := by
  rintro ⟨hkept, -⟩
  have hroomy := roomy_of_kept (.inl rfl) hkept
  exact absurd hroomy.1 (by simp [thousandRows, maxFilesNum])

end PgClient.PgDB
