import PgClient.Sync.Receive

/-!
# The records of a sync

What `storeFile` does to the two copies of the file database: to the row that its statements
are about, and to the record of its name.

* `syncRecord_cases` — what one file can do.
* `select_syncRecord`, `Listed.syncRecord` — the rows and the records that it leaves alone.
* `Cache.sync` — a file with a plain name is recorded.
-/

namespace PgClient.Sync

open Loop PgDB

/-! ## One file -/

theorem FileInfo.toInt_rfiSize (f : FileInfo) : (Int32.ofNat f.rfiSize).toInt = f.rfiSize :=
  Int32.toInt_ofNat_of_lt f.size_lt

section Parts

variable {refuses : Stmt → String → Bool} {db db' : Db} {pName : String} {time size : Int32}

/-- What recording a file can do to the table: a row is written that the statements are about. -/
def Writes (refuses : Stmt → String → Bool) (pName : String) (time size : Int32) (t t' : Table) :
    Prop :=
  t' = t ∨ ∃ name, meant refuses .select pName = .row name ∧
    (t' = t.update name time size ∨ t' = t.insert ⟨name, time.toInt, size.toInt, 0⟩)

/-- An update leaves the list alone. -/
theorem localDBUpdate_cases (hupdate : localDBUpdate refuses db pName time size = some db') :
    db'.localFileSet = db.localFileSet ∧ Writes refuses pName time size db.table db'.table := by
  unfold localDBUpdate at hupdate
  split_ifs at hupdate
  cases hmeant : meant refuses .update pName with
  | row name =>
    rw [hmeant, Option.some.injEq] at hupdate
    subst hupdate
    exact ⟨rfl, .inr ⟨name, meant_row_congr hmeant .select, .inl rfl⟩⟩
  | error =>
    rw [hmeant, Option.some.injEq] at hupdate
    subst hupdate
    exact ⟨rfl, .inl rfl⟩
  | other =>
    rw [hmeant] at hupdate
    cases hupdate

/-- A call that adds a record updates a row that is there, and else pushes the record. -/
theorem localDBAdd_cases (hadd : localDBAdd refuses db pName time size = some db') :
    (db'.localFileSet = db.localFileSet ∨
      db'.localFileSet = db.localFileSet.pushToTail ⟨pName, time.toInt, size.toInt, 0⟩) ∧
    Writes refuses pName time size db.table db'.table := by
  unfold localDBAdd at hadd
  cases hmeant : meant refuses .select pName with
  | row name =>
    simp only [hmeant] at hadd
    cases hselect : db.table.select name with
    | some r =>
      simp only [hselect] at hadd
      split_ifs at hadd
      obtain ⟨hlist, htable⟩ := localDBUpdate_cases hadd
      exact ⟨.inl hlist, htable⟩
    | none =>
      simp only [hselect] at hadd
      split_ifs at hadd
      obtain rfl := Option.some.inj hadd
      exact ⟨.inr rfl, .inr ⟨name, hmeant, .inr rfl⟩⟩
  | error =>
    simp only [hmeant] at hadd
    split_ifs at hadd
    obtain rfl := Option.some.inj hadd
    exact ⟨.inl rfl, .inl rfl⟩
  | other => simp only [hmeant, ite_self, reduceCtorEq] at hadd

/-- What the step of a file can do to the two copies: the list changes at its name, the table
in the row that its statements are about. -/
theorem syncRecord_cases (hsync : syncRecord refuses db pName time size = some db') :
    (db'.localFileSet = db.localFileSet ∨
      db'.localFileSet =
        db.localFileSet.setFound (fun r => r.fileName = pName) (Table.setTimeSize time size) ∨
      localDBGetRec db pName = none ∧
        db'.localFileSet = db.localFileSet.pushToTail ⟨pName, time.toInt, size.toInt, 0⟩) ∧
    Writes refuses pName time size db.table db'.table := by
  unfold syncRecord at hsync
  cases hrec : localDBGetRec db pName with
  | some r =>
    rw [hrec] at hsync
    obtain ⟨hlist, htable⟩ := localDBUpdate_cases hsync
    exact ⟨.inr (.inl hlist), htable⟩
  | none =>
    rw [hrec] at hsync
    obtain ⟨hlist, htable⟩ := localDBAdd_cases hsync
    exact ⟨hlist.imp_right fun hpush => .inr ⟨rfl, hpush⟩, htable⟩

end Parts

/-- The list holds records of distinct names among these. -/
def Listed (names : List String) (db : Db) : Prop :=
  db.localFileSet.size = maxFilesNum ∧ names.length < 900 ∧
    ∃ q, db.localFileSet.Holds q ∧ (q.map LocalFileInfo.fileName).Nodup ∧
      ∀ r ∈ q, r.fileName ∈ names

section Listed

variable {refuses : Stmt → String → Bool} {names : List String} {db db' : Db}

/-- A list with room takes the new record, and nothing else changes. -/
theorem Listed.syncRecord (h : Listed names db) {pName : String} {time size : Int32}
    (hin : pName ∈ names) (hsync : syncRecord refuses db pName time size = some db') :
    Listed names db' ∧ ∀ name ≠ pName, localDBGetRec db' name = localDBGetRec db name := by
  obtain ⟨hsize, hfew, q, hholds, hkeyed, hknown⟩ := h
  obtain ⟨hlist | hlist | ⟨hnone, hlist⟩, -⟩ := syncRecord_cases hsync
  · refine ⟨⟨by rw [hlist, hsize], hfew, q, by rwa [hlist], hkeyed, hknown⟩, fun name _ => ?_⟩
    rw [localDBGetRec, hlist]
    rfl
  · -- the record found keeps its name
    have hset := LoopList.holds_setFound hholds (fun r => r.fileName = pName)
      (Table.setTimeSize time size)
    rw [KeyedList.modify_eq_update hkeyed, ← hlist] at hset
    have hkeys := @KeyedList.map_key_update _ _ LocalFileInfo.fileName _ pName
      (Table.setTimeSize time size) (fun _ => rfl) q
    refine ⟨⟨by rw [hlist, LoopList.size_setFound, hsize], hfew, _, hset, by rwa [hkeys], ?_⟩, ?_⟩
    · intro r hr
      have hname : r.fileName ∈ q.map LocalFileInfo.fileName := by
        rw [← hkeys]
        exact List.mem_map_of_mem hr
      obtain ⟨r₀, hr₀, heq⟩ := List.mem_map.mp hname
      rw [← heq]
      exact hknown r₀ hr₀
    · intro name hne
      rw [localDBGetRec, localDBGetRec, LoopList.search_eq hset, LoopList.search_eq hholds]
      refine (@KeyedList.find?_update _ _ LocalFileInfo.fileName _ pName
        (Table.setTimeSize time size) (fun _ => rfl) q name).trans ?_
      rw [if_neg hne]
      rfl
  · -- its name is a new one, so there are fewer records than names
    have hnew : pName ∉ q.map LocalFileInfo.fileName := by
      rw [localDBGetRec, LoopList.search_eq hholds] at hnone
      exact KeyedList.find_eq_none_iff.mp hnone
    have hsub : q.map LocalFileInfo.fileName ⊆ names := by
      intro name hname
      obtain ⟨r, hr, rfl⟩ := List.mem_map.mp hname
      exact hknown r hr
    have hlen := (List.subperm_of_subset hkeyed hsub).length_le
    rw [List.length_map] at hlen
    have hroom : q.length + 1 < db.localFileSet.size := by
      rw [hsize, maxFilesNum]
      omega
    have hpush := LoopList.holds_push_room hholds hroom ⟨pName, time.toInt, size.toInt, 0⟩
    rw [← hlist] at hpush
    refine ⟨⟨by rw [hlist, LoopList.size_pushToTail, hsize], hfew, _, hpush, ?_, ?_⟩, ?_⟩
    · rw [List.map_append, List.map_singleton]
      exact List.nodup_append.mpr ⟨hkeyed, List.nodup_singleton _, by
        intro a ha b hb
        rw [List.mem_singleton.mp hb]
        rintro rfl
        exact hnew ha⟩
    · intro r hr
      rcases List.mem_append.mp hr with hr | hr
      · exact hknown r hr
      · rwa [List.mem_singleton.mp hr]
    · intro name hne
      rw [localDBGetRec, localDBGetRec, LoopList.search_eq hpush, LoopList.search_eq hholds,
        List.find?_append]
      simp [hne.symm]

end Listed

/-! ## Plain names -/

/-- Both copies of the database have the file with its time and size. -/
def Recorded (db : Db) (f : FileInfo) : Prop :=
  ∃ r, localDBGetRec db f.rfiName = some r ∧ db.table.select f.rfiName = some r ∧
    r.fileTime = f.rfiTime.toInt ∧ r.fileSize = f.rfiSize

/-- The list holds the rows of the table, and their names are among fewer than 900. -/
structure Cache (names : List String) (db : Db) : Prop where
  tracks : Tracks db
  known : ∀ r ∈ db.table.rows, r.fileName ∈ names
  few : names.length < 900

section Cache

variable {refuses : Stmt → String → Bool} {names : List String} {db : Db}

theorem Cache.listed (h : Cache names db) : Listed names db :=
  ⟨h.tracks.size, h.few, db.table.rows, h.tracks.holds, db.table.keyed, h.known⟩

theorem Cache.rows_length (h : Cache names db) : db.table.rows.length < 900 := by
  have hsub : db.table.rows.map LocalFileInfo.fileName ⊆ names := by
    intro name hname
    obtain ⟨r, hr, rfl⟩ := List.mem_map.mp hname
    exact h.known r hr
  have hle := (List.subperm_of_subset db.table.keyed hsub).length_le
  rw [List.length_map] at hle
  exact hle.trans_lt h.few

/-- What recording a file under a plain name does to the table. -/
theorem table_syncRecord {db' : Db} (h : Tracks db) {pName : String} {time size : Int32}
    (hplain : Plain pName) (hsync : syncRecord refuses db pName time size = some db') :
    (∃ r, db'.table.select pName = some r ∧ r.fileTime = time.toInt ∧ r.fileSize = size.toInt) ∧
      ∀ r ∈ db'.table.rows, r.fileName = pName ∨ ∃ r₀ ∈ db.table.rows, r.fileName = r₀.fileName := by
  unfold syncRecord localDBUpdate localDBAdd at hsync
  rw [h.getRec] at hsync
  simp only [meant_plain hplain] at hsync
  cases hselect : db.table.select pName with
  | some r =>
    -- the row is updated in its place
    simp only [hselect] at hsync
    split_ifs at hsync
    obtain rfl := Option.some.inj hsync
    refine ⟨⟨Table.setTimeSize time size r, ?_, rfl, rfl⟩, fun r' hr' => ?_⟩
    · rw [Table.select_update, if_pos rfl, hselect]
      rfl
    · obtain ⟨r₀, hr₀, rfl⟩ := List.mem_map.mp hr'
      refine .inr ⟨r₀, hr₀, ?_⟩
      split <;> rfl
  | none =>
    simp only [hselect] at hsync
    split_ifs at hsync
    obtain rfl := Option.some.inj hsync
    -- a new row comes last
    have hrows := Table.insert_rows (r := ⟨pName, time.toInt, size.toInt, 0⟩) hselect
    refine ⟨⟨⟨pName, time.toInt, size.toInt, 0⟩, ?_, rfl, rfl⟩, fun r' hr' => ?_⟩
    · rw [Table.select, hrows, KeyedList.find_append]
      show (db.table.select pName).or _ = _
      rw [hselect]
      simp [KeyedList.find]
    · rw [hrows] at hr'
      rcases List.mem_append.mp hr' with hr' | hr'
      · exact .inr ⟨r', hr', rfl⟩
      · rw [List.mem_singleton.mp hr']
        exact .inl rfl

/-- A file is recorded, and nothing else changes. -/
theorem Cache.sync (h : Cache names db) {f : FileInfo} (hin : f.rfiName ∈ names)
    (hplain : Plain f.rfiName) (hfit : Fits f.rfiName) :
    ∃ db', syncRecord refuses db f.rfiName f.rfiTime (Int32.ofNat f.rfiSize) = some db' ∧
      Cache names db' ∧ Recorded db' f ∧
        ∀ name ≠ f.rfiName, localDBGetRec db' name = localDBGetRec db name := by
  -- the rows fit the list, so it tracks them again
  have hroomy : (Op.sync f.rfiName f.rfiTime (Int32.ofNat f.rfiSize)).Roomy refuses db := by
    rw [Op.Roomy]
    split_ifs
    · rw [UpdateRoomy, meant_plain hplain]
      exact .inl rfl
    · rw [AddRoomy, meant_plain hplain]
      refine (if_pos rfl).mpr ⟨?_, hfit⟩
      have hlen := h.rows_length
      unfold maxFilesNum
      omega
  obtain ⟨db', hdb', htracks⟩ := step_tracks (.inr h.tracks) hroomy
  obtain ⟨⟨r, hr, htime, hsize⟩, hrows⟩ := table_syncRecord h.tracks hplain hdb'
  refine ⟨db', hdb', ⟨htracks, fun r' hr' => ?_, h.few⟩,
    ⟨r, (htracks.getRec _).trans hr, hr, htime, hsize.trans f.toInt_rfiSize⟩,
    (h.listed.syncRecord hin hdb').2⟩
  -- the names of the rows are the old ones and at most this one
  rcases hrows r' hr' with hname | ⟨r₀, hr₀, hname⟩
  · rwa [hname]
  · rw [hname]
    exact h.known r₀ hr₀

end Cache

end PgClient.Sync
