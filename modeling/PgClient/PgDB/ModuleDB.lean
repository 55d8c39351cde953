import PgClient.Loop.Deque
import PgClient.PgDB.ResultTable

/-!
# Patterns and modules

`pgDB.c`: the patterns of a module, which `dbModuleOpen` reads into a list with a count beside it,
and the modules, which `dbInitModuleSelf` reads from a directory into another. sqlite and the
directory are what they give.

* `opened_spec` — what `dbModuleOpen` leaves.
* `patternsReachable_iff`, `modulesReachable_iff` — when what is counted is found.
-/

namespace PgClient.PgDB

open Loop RowCursor

/-! ## The code -/

/-- A database that opens; a table is what `sqlite3_get_table` gives, if that is no error. -/
structure ModuleDb where
  patternConfig : Option (ResultTable 17)
  globalConfig : Option (ResultTable 6)

/-- `dbModuleOpen`; `sqlite3Open` gives the database of a name, if it opens. -/
def dbModuleOpen (sqlite3Open : String → Option ModuleDb) (dbName : Option String)
    (pModuleSet : ModuleSet) : Option (Int × ModuleSet) :=
  match dbName with
  | none => some (-1, pModuleSet)
  | some dbName =>
    match sqlite3Open dbName with
    | none => some (-2, pModuleSet)
    | some db =>
      match dbpatternConfigLoad db.patternConfig .opened with
      | none => none
      | some (_, set, _) => (dbglobalConfigLoad db.globalConfig set).map fun p => (0, p.2)

def dbModuleTstPtnNum (moduleSet : ModuleSet) : Nat := moduleSet.curConns

/-- `dbModuleGetPatternByLoopId`; `none` is a read behind the list's array. -/
def dbModuleGetPatternByLoopId (moduleSet : ModuleSet) (loopId : Nat) : Option (Option ModuleInfo) :=
  moduleSet.loopConns.getFromHead loopId

/-- `module_self_t`. -/
structure ModuleSelf where
  index : Nat
  totalPattern : Nat := 0
  moduleselfName : String
  modulePowerName : List UInt8 := []
  patternFirstName : List UInt8 := []

/-- `module_self_set_t`. -/
structure ModuleSelfSet where
  loopConns : LoopList ModuleSelf
  maxConns : Nat
  curConns : Nat

/-- `MAX_MODULE_NUM_IN_PG`. -/
def maxModuleNumInPg : Nat := 200

/-- `TST_PATH`. -/
def tstPath : String := "./cfg/tst/"

/-- A name fits `moduleselfName`. -/
def SelfFits (dName : String) : Prop := dName.utf8ByteSize < maxFileNameLen / 2

instance (dName : String) : Decidable (SelfFits dName) := inferInstanceAs (Decidable (_ < _))

/-- One more module. -/
def ModuleSelfSet.push (set : ModuleSelfSet) (dName : String) : ModuleSelfSet :=
  { set with
    loopConns := set.loopConns.pushToTail { index := set.curConns, moduleselfName := dName }
    curConns := (set.curConns + 1) % 2 ^ 16 }

/-- The loop of `dbInitModuleSelf` over what `readdir` gives. -/
def moduleLoop : List String → ModuleSelfSet → Option ModuleSelfSet
  | [], set => some set
  | dName :: rest, set =>
    if dName = "." ∨ dName = ".." then moduleLoop rest set
    else if SelfFits dName then moduleLoop rest (set.push dName)
    else none

/-- `dbInitModuleSelf`, and the set; `dir` is the directory, if it opens. -/
def dbInitModuleSelf (dir : Option (List String)) : Option (Int × ModuleSelfSet) :=
  let set : ModuleSelfSet := ⟨LoopList.create maxModuleNumInPg, maxModuleNumInPg, 0⟩
  match dir with
  | none => some (-1, set)
  | some names => (moduleLoop names set).map fun set => (set.curConns, set)

/-- `strncpy` of at most 31 bytes. -/
def strncpy (text : String) : List UInt8 := text.toUTF8.data.toList.take 31

/-- `dbModuleSelfGetByIndex`, and the set; a pattern that was never written is read where there is
none. -/
def dbModuleSelfGetByIndex (sqlite3Open : String → Option ModuleDb) (set : ModuleSelfSet)
    (index : Int) : Option (Option ModuleSelf × ModuleSelfSet) :=
  match set.loopConns.search fun self => self.index = index with
  | none => some (none, set)
  | some self =>
    match dbModuleOpen sqlite3Open (some (tstPath ++ "/" ++ self.moduleselfName)) {} with
    | none => none
    | some (ret, tmpModuleSet) =>
      if ret = 0 then
        match tmpModuleSet.loopConns.getFromHead 0 with
        | some (some info) =>
          let write (self : ModuleSelf) : ModuleSelf :=
            { self with
              modulePowerName := strncpy tmpModuleSet.powermainfile
              patternFirstName := strncpy info.ptdpatternname
              totalPattern := tmpModuleSet.curConns }
          some (some (write self),
            { set with loopConns := set.loopConns.setFound (fun self => self.index = index) write })
        | _ => none
      else some (some self, set)

/-! ## What is counted is found -/

namespace ModuleDb

variable (db : ModuleDb)

/-- The records of the rows, one after the other. -/
def patterns : List (Option ModuleInfo) :=
  match db.patternConfig with
  | none => []
  | some t =>
    (List.range t.rows.length).map fun i => (fill t patternColumns {} i).map Filled.record

end ModuleDb

/-- **What is counted** of the patterns is in the list, in the order of the table, and found at its
position. -/
def PatternsReachable (db : ModuleDb) : Prop :=
  ∃ set infos, dbModuleOpen (fun _ => some db) (some "") {} = some (0, set) ∧
    infos.map some = db.patterns.take set.maxConns ∧ set.loopConns.Holds infos ∧
    set.curConns = infos.length ∧
    ∀ k < dbModuleTstPtnNum set, dbModuleGetPatternByLoopId set k = db.patterns[k]?

/-- Every module below the count is found. -/
def ModulesReachable (sqlite3Open : String → Option ModuleDb) (dir : Option (List String)) : Prop :=
  ∃ ret set, dbInitModuleSelf dir = some (ret, set) ∧ ∀ index : Nat, index < ret →
    ∃ self set', dbModuleSelfGetByIndex sqlite3Open set index = some (some self, set') ∧
      self.index = index

/-- Each text that a statement for a row takes fits its field. -/
def TextsFit {n : Nat} {ρ : Type} (t : ResultTable n) (columns : List (Column String ρ)) (i : Nat) :
    Prop :=
  ∀ p ∈ columns.zip (taken t.result columns (t.index i)), ∀ j ∈ p.2,
    (cellAt t.result j).all p.1.fits

/-- The texts of the rows that are read fit. -/
structure ModuleDb.Fit (db : ModuleDb) : Prop where
  pattern : ∀ t ∈ db.patternConfig, ∀ i < t.rows.length, i ≤ maxPatternNumInModule →
    TextsFit t patternColumns i
  global : ∀ t ∈ db.globalConfig, ∀ i < t.rows.length, TextsFit t globalColumns i

/-- The modules in a directory. -/
def modules (names : List String) : List String :=
  names.filter fun dName => dName ≠ "." ∧ dName ≠ ".."

/-- A module whose database does not open, or has a pattern and fits. -/
def Readable (sqlite3Open : String → Option ModuleDb) (dName : String) : Prop :=
  ∀ db ∈ sqlite3Open (tstPath ++ "/" ++ dName), db.Fit ∧ db.patterns ≠ []

/-- The names fit, the count has not come to the limit since it was last 0, and the modules since
then can be read. -/
structure ModulesFit (sqlite3Open : String → Option ModuleDb) (names : List String) : Prop where
  fits : ∀ dName ∈ modules names, SelfFits dName
  count : (modules names).length % 2 ^ 16 < maxModuleNumInPg
  readable : ∀ dName ∈ (modules names).rtake ((modules names).length % 2 ^ 16),
    Readable sqlite3Open dName

/-! ## Opening a module -/

/-- A list is mapped if each of its elements is. -/
theorem mapM_isSome_iff {α β : Type} {f : α → Option β} {l : List α} :
    (l.mapM f).isSome ↔ ∀ a ∈ l, (f a).isSome := by
  induction l with
  | nil => simp
  | cons a l ih =>
    rw [List.mapM_cons, List.forall_mem_cons, ← ih]
    cases f a with
    | none => simp
    | some b => cases l.mapM f <;> simp

/-- A fold is defined if each step is, where that depends on the element alone. -/
theorem foldlM_isSome_iff {α σ : Type} {f : σ → α → Option σ} {P : α → Prop} {l : List α}
    (h : ∀ a ∈ l, ∀ s, (f s a).isSome ↔ P a) (s : σ) : (l.foldlM f s).isSome ↔ ∀ a ∈ l, P a := by
  induction l generalizing s with
  | nil => simp
  | cons a l ih =>
    rw [List.foldlM_cons, List.forall_mem_cons, ← h a List.mem_cons_self s]
    cases f s a with
    | none => simp
    | some s' => simpa using ih (fun b hb => h b (List.mem_cons_of_mem a hb)) s'

section Rows

variable {n i : Nat} {t : ResultTable n} {ρ : Type} {columns : List (Column String ρ)}

/-- A row is loaded if its texts fit their arrays. -/
theorem load_row_isSome_iff (hcolumns : columns.length = n) (hi : i < t.rows.length) (r : ρ) :
    (load t.result columns (t.index i) r).isSome ↔ TextsFit t columns i := by
  have hrow : t.rows[i]? = some (t.rows.get ⟨i, hi⟩) := List.getElem?_eq_getElem hi
  refine load_isSome_iff ?_ r
  rw [hcolumns]
  exact index_add_le hrow

/-- A record is filled if they do. -/
theorem fill_isSome_iff (hcolumns : columns.length = n) (hi : i < t.rows.length) (r : ρ) :
    (fill t columns r i).isSome ↔ TextsFit t columns i := by
  rw [fill, Option.isSome_map, load_row_isSome_iff hcolumns hi]

end Rows

/-- The patterns are loaded if the texts of all rows that are come to fit. -/
theorem dbpatternConfigLoad_isSome_iff (result : Option (ResultTable 17)) :
    (dbpatternConfigLoad result .opened).isSome ↔ ∀ t ∈ result, ∀ i < t.rows.length,
      i ≤ maxPatternNumInModule → TextsFit t patternColumns i := by
  cases result with
  | none => exact iff_of_true rfl nofun
  | some t =>
    have hcolumns : patternColumns.length = 17 := rfl
    rw [dbpatternConfigLoad_eq, Option.isSome_map, mapM_isSome_iff]
    constructor
    · intro h t' ht' i hi hle
      obtain rfl := Option.mem_some_iff.mp ht'
      refine (fill_isSome_iff hcolumns hi {}).mp (h i ?_)
      -- the loop is left behind row 200
      rw [List.take_range, List.mem_range]
      omega
    · intro h i hi
      rw [List.take_range, List.mem_range] at hi
      exact (fill_isSome_iff hcolumns (by omega) {}).mpr (h t rfl i (by omega) (by omega))

/-- The global settings are, if the texts of all rows do. -/
theorem dbglobalConfigLoad_isSome_iff (result : Option (ResultTable 6)) (set : ModuleSet) :
    (dbglobalConfigLoad result set).isSome ↔
      ∀ t ∈ result, ∀ i < t.rows.length, TextsFit t globalColumns i := by
  cases result with
  | none => exact iff_of_true rfl nofun
  | some t =>
    have hcolumns : globalColumns.length = 6 := rfl
    rw [dbglobalConfigLoad, Option.isSome_map, foldlM_isSome_iff fun i hi s =>
      load_row_isSome_iff hcolumns (List.mem_range.mp hi) s]
    simp [List.mem_range]

/-- `dbglobal_configLoad` leaves the patterns alone. -/
theorem dbglobalConfigLoad_frame {result : Option (ResultTable 6)} {set : ModuleSet}
    {p : Int × ModuleSet} (h : dbglobalConfigLoad result set = some p) :
    p.2.loopConns = set.loopConns ∧ p.2.curConns = set.curConns ∧ p.2.maxConns = set.maxConns := by
  let patterns (set : ModuleSet) := (set.loopConns, set.curConns, set.maxConns)
  have hcolumns : ∀ c ∈ globalColumns, ∀ cell set, patterns (c.put cell set) = patterns set := by
    simp [globalColumns, strcpy, number, patterns]
  have hframe : patterns p.2 = patterns set := by
    cases result with
    | none =>
      obtain rfl := Option.some.inj h
      rfl
    | some t =>
      obtain ⟨set', hfold, rfl⟩ := Option.map_eq_some_iff.mp h
      clear h
      -- row by row, whatever the set was before
      generalize List.range t.rows.length = rows at hfold
      induction rows generalizing set with
      | nil =>
        obtain rfl := Option.some.inj hfold
        rfl
      | cons i rows ih =>
        rw [List.foldlM_cons] at hfold
        obtain ⟨set'', hload, hfold⟩ := Option.bind_eq_some_iff.mp hfold
        exact (ih hfold).trans (load_frame hcolumns hload)
  simpa [patterns] using hframe

/-- The pushes put the patterns into the list and count them in 16 bits. -/
theorem foldl_push (infos : List ModuleInfo) (set : ModuleSet) (hcur : set.curConns < 2 ^ 16) :
    (infos.foldl ModuleSet.push set).loopConns = infos.foldl LoopList.pushToTail set.loopConns ∧
      (infos.foldl ModuleSet.push set).curConns = (set.curConns + infos.length) % 2 ^ 16 ∧
      (infos.foldl ModuleSet.push set).maxConns = set.maxConns := by
  induction infos generalizing set with
  | nil => exact ⟨rfl, (Nat.mod_eq_of_lt hcur).symm, rfl⟩
  | cons info infos ih =>
    obtain ⟨hloop, hcount, hmax⟩ := ih (set.push info) (Nat.mod_lt _ (by decide))
    refine ⟨hloop, hcount.trans ?_, hmax⟩
    show ((set.curConns + 1) % 2 ^ 16 + infos.length) % 2 ^ 16 = _
    rw [Nat.mod_add_mod, List.length_cons]
    congr 1
    omega

section Open

variable {sqlite3Open : String → Option ModuleDb} {dbName : String} {db : ModuleDb}
  {pModuleSet : ModuleSet}

/-- A module can be opened if its texts fit. -/
theorem opened_isSome_iff (h : sqlite3Open dbName = some db) :
    (dbModuleOpen sqlite3Open (some dbName) pModuleSet).isSome ↔ db.Fit := by
  have hpattern := dbpatternConfigLoad_isSome_iff db.patternConfig
  unfold dbModuleOpen
  simp only [h]
  -- the patterns are loaded first, then the global configuration
  cases hload : dbpatternConfigLoad db.patternConfig .opened with
  | none =>
    rw [hload] at hpattern
    exact iff_of_false nofun fun hfit => by simpa using hpattern.mpr hfit.pattern
  | some p =>
    rw [hload] at hpattern
    dsimp only
    rw [Option.isSome_map, dbglobalConfigLoad_isSome_iff]
    exact ⟨fun hglobal => ⟨hpattern.mp rfl, hglobal⟩, ModuleDb.Fit.global⟩

/-- **What `dbModuleOpen` leaves**: the first rows, pushed one after the other, and their count. -/
theorem opened_spec (h : sqlite3Open dbName = some db) {ret : Int} {set : ModuleSet}
    (hopen : dbModuleOpen sqlite3Open (some dbName) pModuleSet = some (ret, set)) :
    ret = 0 ∧ set.maxConns = maxPatternNumInModule ∧ ∃ infos : List ModuleInfo,
      infos.map some = db.patterns.take maxPatternNumInModule ∧
      set.loopConns = infos.foldl LoopList.pushToTail (LoopList.create maxPatternNumInModule) ∧
      set.curConns = infos.length := by
  unfold dbModuleOpen at hopen
  simp only [h] at hopen
  split at hopen
  · cases hopen
  next ret' set' filled hload =>
  obtain ⟨p, hglobal, heq⟩ := Option.map_eq_some_iff.mp hopen
  obtain ⟨rfl, rfl⟩ := Prod.mk.inj heq
  obtain ⟨hloop, hcur, hmax⟩ := dbglobalConfigLoad_frame hglobal
  rw [hloop, hcur, hmax]
  refine ⟨rfl, ?_⟩
  unfold ModuleDb.patterns
  cases htable : db.patternConfig with
  | none =>
    rw [htable] at hload
    obtain ⟨-, rfl, -⟩ := Option.some.inj hload
    exact ⟨rfl, [], rfl, rfl, rfl⟩
  | some t =>
    rw [htable, dbpatternConfigLoad_eq] at hload
    obtain ⟨_, hmap, heq⟩ := Option.map_eq_some_iff.mp hload
    obtain ⟨-, rfl, rfl⟩ := heq
    -- the row after the last one that is counted is read, too
    have htake : (List.range t.rows.length).take maxPatternNumInModule =
        ((List.range t.rows.length).take (maxPatternNumInModule + 1)).take maxPatternNumInModule := by
      rw [List.take_take, Nat.min_eq_left (Nat.le_succ _)]
    obtain ⟨hloop, hcur, hmax⟩ := foldl_push ((filled.take maxPatternNumInModule).map Filled.record)
      .opened (by decide)
    refine ⟨hmax, _, ?_, hloop, hcur.trans ?_⟩
    · calc ((filled.take maxPatternNumInModule).map Filled.record).map some
        _ = ((filled.map some).take maxPatternNumInModule).map (Option.map Filled.record) := by
          rw [← List.map_take, List.map_map, List.map_map]
          rfl
        _ = _ := by
          rw [← mapM_eq_some_iff.mp hmap, ← List.map_take, ← htake, List.map_map, List.map_take]
          rfl
    · rw [List.length_map, List.length_take]
      show (0 + _) % 2 ^ 16 = _
      rw [Nat.zero_add, Nat.mod_eq_of_lt]
      exact Nat.lt_of_le_of_lt (Nat.min_le_left _ _) (by decide)

end Open

/-- With room for all of them, pushes leave the head where it is. -/
theorem head_foldl_push {α : Type} {l : LoopList α} {q : List α} (h : l.Holds q) (rows : List α)
    (hroom : q.length + rows.length < l.size) :
    (rows.foldl LoopList.pushToTail l).head = l.head := by
  induction rows generalizing q l with
  | nil => rfl
  | cons r rows ih =>
    rw [List.length_cons] at hroom
    have hsize := LoopList.size_pushToTail l r
    have hpush := LoopList.holds_push_room h (by omega) r
    -- a push moves the head only on a full list
    have hhead : (l.pushToTail r).head = l.head := by
      have hnotfull : ¬l.Full := fun hfull => by
        have hlen := h.full_iff.mp hfull
        omega
      unfold LoopList.pushToTail
      rw [if_neg hnotfull]
    rw [List.foldl_cons, ih hpush (by rw [List.length_append, List.length_singleton]; omega), hhead]

/-- The list of a module: the last 199 patterns that were pushed; up to there its head stays. -/
theorem pushed_patterns (infos : List ModuleInfo) :
    let l := infos.foldl LoopList.pushToTail (LoopList.create maxPatternNumInModule)
    l.size = maxPatternNumInModule ∧ l.Holds (infos.rtake (maxPatternNumInModule - 1)) ∧
      (infos.length < maxPatternNumInModule → l.head = 0 ∧ l.Holds infos) := by
  -- a ring of 200 places holds 199
  have hcreate : (LoopList.create maxPatternNumInModule : LoopList ModuleInfo).Holds [] :=
    LoopList.holds_create (by decide)
  have hplaces : (LoopList.create maxPatternNumInModule : LoopList ModuleInfo).size =
    maxPatternNumInModule := rfl
  obtain ⟨hsize, hholds⟩ := holds_foldl_push hcreate (by decide) infos
  refine ⟨hsize, hholds, fun hlt => ⟨head_foldl_push hcreate infos ?_, ?_⟩⟩
  · rwa [List.length_nil, Nat.zero_add, hplaces]
  · have hall : infos.rtake (maxPatternNumInModule - 1) = infos := by
      rw [List.rtake, Nat.sub_eq_zero_of_le (by omega), List.drop_zero]
    rwa [List.nil_append, hplaces, hall] at hholds

/-- **When the patterns that are counted are found.** -/
theorem patternsReachable_iff (db : ModuleDb) :
    PatternsReachable db ↔ db.patterns.length < maxPatternNumInModule ∧ db.Fit := by
  have hopened : (dbModuleOpen (fun _ => some db) (some "") {}).isSome ↔ db.Fit :=
    opened_isSome_iff rfl
  constructor
  · rintro ⟨set, infos, hopen, hinfos, hholds, -, -⟩
    obtain ⟨-, hmax, infos', -, hloop, -⟩ := opened_spec rfl hopen
    -- a list of this size has one place less
    have hroom := hholds.room
    rw [hloop, (pushed_patterns infos').1] at hroom
    have hlen := congrArg List.length hinfos
    rw [List.length_map, List.length_take, hmax] at hlen
    exact ⟨by omega, hopened.mp (by rw [hopen]; rfl)⟩
  · rintro ⟨hlt, hfit⟩
    obtain ⟨⟨ret, set⟩, hopen⟩ := Option.isSome_iff_exists.mp (hopened.mpr hfit)
    obtain ⟨rfl, hmax, infos, hinfos, hloop, hcur⟩ := opened_spec rfl hopen
    have hlen := congrArg List.length hinfos
    rw [List.length_map, List.length_take] at hlen
    obtain ⟨hsize, -, hroom⟩ := pushed_patterns infos
    obtain ⟨hhead, hholds⟩ := hroom (by omega)
    rw [← hloop] at hsize hhead hholds
    refine ⟨set, infos, hopen, by rw [hmax]; exact hinfos, hholds, hcur, fun k hk => ?_⟩
    rw [dbModuleTstPtnNum, hcur] at hk
    rw [dbModuleGetPatternByLoopId, (hholds.getFromHead_inside hk).mpr (by omega)]
    have hget := congrArg (fun l => l[k]?) hinfos
    rw [List.take_of_length_le (by omega), List.getElem?_map, List.getElem?_eq_getElem hk] at hget
    exact hget

/-! ## The modules of a directory -/

/-- The names of a directory are pushed in order, if they all fit. -/
theorem moduleLoop_eq (names : List String) (set : ModuleSelfSet) :
    moduleLoop names set =
      if ∀ dName ∈ modules names, SelfFits dName then
        some ((modules names).foldl ModuleSelfSet.push set)
      else none := by
  induction names generalizing set with
  | nil => exact (if_pos nofun).symm
  | cons dName names ih =>
    rw [moduleLoop]
    -- the two directory names are passed over
    by_cases hdot : dName = "." ∨ dName = ".."
    · have hskip : modules (dName :: names) = modules names :=
        List.filter_cons_of_neg (by simpa [or_iff_not_imp_left] using hdot)
      rw [if_pos hdot, ih, hskip]
    · have hkeep : modules (dName :: names) = dName :: modules names :=
        List.filter_cons_of_pos (by simpa using hdot)
      rw [if_neg hdot, ih, hkeep]
      simp only [List.forall_mem_cons, List.foldl_cons]
      split_ifs <;> simp_all

/-- What is pushed for these names, from a count of `n` on. -/
def selfs (n : Nat) (names : List String) : List ModuleSelf :=
  (names.zipIdx n).map fun p => { index := p.2 % 2 ^ 16, moduleselfName := p.1 }

/-- Each gets the number it was counted with. -/
theorem foldl_selfPush (names : List String) {set : ModuleSelfSet} {n : Nat}
    (hcur : set.curConns = n % 2 ^ 16) :
    (names.foldl ModuleSelfSet.push set).loopConns =
        (selfs n names).foldl LoopList.pushToTail set.loopConns ∧
      (names.foldl ModuleSelfSet.push set).curConns = (n + names.length) % 2 ^ 16 := by
  induction names generalizing set n with
  | nil => exact ⟨rfl, hcur⟩
  | cons dName names ih =>
    -- the count is a short
    have hpush : (set.push dName).curConns = (n + 1) % 2 ^ 16 := by
      show (set.curConns + 1) % 2 ^ 16 = _
      rw [hcur, Nat.mod_add_mod]
    obtain ⟨hloop, hcount⟩ := ih hpush
    refine ⟨?_, ?_⟩
    · rw [List.foldl_cons, hloop, selfs, selfs, List.zipIdx_cons, List.map_cons, List.foldl_cons,
        ← hcur]
      rfl
    · rw [List.foldl_cons, hcount, List.length_cons]
      congr 1
      omega

/-- **What `dbInitModuleSelf` leaves.** -/
theorem dbInitModuleSelf_spec (names : List String) {ret : Int} {set : ModuleSelfSet}
    (h : dbInitModuleSelf (some names) = some (ret, set)) :
    (∀ dName ∈ modules names, SelfFits dName) ∧ ret = ((modules names).length % 2 ^ 16 : Nat) ∧
      set.loopConns.Holds ((selfs 0 (modules names)).rtake (maxModuleNumInPg - 1)) := by
  rw [dbInitModuleSelf, moduleLoop_eq] at h
  split_ifs at h with hfits
  case neg => cases h
  obtain ⟨rfl, rfl⟩ := Prod.mk.inj (Option.some.inj h)
  have hcur : (⟨LoopList.create maxModuleNumInPg, maxModuleNumInPg, 0⟩ : ModuleSelfSet).curConns =
    0 % 2 ^ 16 := rfl
  -- the pushes number what they push
  obtain ⟨hloop, hcount⟩ := foldl_selfPush (modules names) hcur
  refine ⟨hfits, by rw [hcount, Nat.zero_add], ?_⟩
  rw [hloop]
  exact (holds_foldl_push (LoopList.holds_create (by decide)) (by decide) _).2

/-- That is its place, in 16 bits. -/
theorem getElem?_selfs (names : List String) (i : Nat) : (selfs 0 names)[i]? =
    names[i]?.map fun dName => { index := i % 2 ^ 16, moduleselfName := dName } := by
  rw [selfs, List.getElem?_map, List.getElem?_zipIdx, Option.map_map, Nat.zero_add]
  rfl

/-- The list has what came last. -/
theorem mem_rtake_selfs {names : List String} {self : ModuleSelf} {m : Nat} :
    self ∈ (selfs 0 names).rtake m ↔ ∃ i dName, names.length ≤ i + m ∧ names[i]? = some dName ∧
      self = { index := i % 2 ^ 16, moduleselfName := dName } := by
  have hlen : (selfs 0 names).length = names.length := by
    rw [selfs, List.length_map, List.length_zipIdx]
  -- what came last is what stands behind the dropped ones
  rw [List.rtake, List.mem_iff_getElem?, hlen]
  constructor
  · rintro ⟨k, hk⟩
    rw [List.getElem?_drop, getElem?_selfs] at hk
    obtain ⟨dName, hname, rfl⟩ := Option.map_eq_some_iff.mp hk
    exact ⟨_, dName, by omega, hname, rfl⟩
  · rintro ⟨i, dName, hle, hname, rfl⟩
    refine ⟨i - (names.length - m), ?_⟩
    rw [List.getElem?_drop, Nat.add_sub_cancel' (by omega), getElem?_selfs, hname]
    rfl

section Find

variable {names : List String}

/-- An index below the count is the one of a module since the count was last 0. -/
theorem find_self (hcount : names.length % 2 ^ 16 < maxModuleNumInPg) {index : Nat}
    (hindex : index < names.length % 2 ^ 16) :
    ∃ dName, names[names.length - names.length % 2 ^ 16 + index]? = some dName ∧
      ((selfs 0 names).rtake (maxModuleNumInPg - 1)).find? (fun self => (self.index : Int) = index) =
        some { index := index, moduleselfName := dName } := by
  have hmod := Nat.mod_le names.length (2 ^ 16)
  obtain ⟨dName, hname⟩ : ∃ dName,
      names[names.length - names.length % 2 ^ 16 + index]? = some dName :=
    ⟨_, List.getElem?_eq_getElem (by omega)⟩
  refine ⟨dName, hname, ?_⟩
  have hlast : (names.length - names.length % 2 ^ 16 + index) % 2 ^ 16 = index := by omega
  rw [maxModuleNumInPg] at hcount ⊢
  cases hfind : ((selfs 0 names).rtake (200 - 1)).find? fun self => (self.index : Int) = index with
  | none =>
    -- it is one of the last 199, so the search stops at some record
    have hmem : { index := index, moduleselfName := dName } ∈ (selfs 0 names).rtake (200 - 1) :=
      mem_rtake_selfs.mpr ⟨_, dName, by omega, hname, by rw [hlast]⟩
    exact absurd (decide_eq_true rfl) (List.find?_eq_none.mp hfind _ hmem)
  | some self =>
    -- among the last 199 no other has its index
    obtain ⟨i, dName', hle, hname', rfl⟩ := mem_rtake_selfs.mp (List.mem_of_find?_eq_some hfind)
    have hsame := List.find?_some hfind
    have hi : i % 2 ^ 16 = index := Int.ofNat_inj.mp (of_decide_eq_true hsame)
    have hlt := (List.getElem?_eq_some_iff.mp hname').1
    obtain rfl : i = names.length - names.length % 2 ^ 16 + index := by omega
    rw [hname', Option.some.injEq] at hname
    rw [hi, hname]

/-- With a count of 200 or more, the module that came 200 before the last is not in the list. -/
theorem find_lost (hcount : maxModuleNumInPg ≤ names.length % 2 ^ 16) :
    ((selfs 0 names).rtake (maxModuleNumInPg - 1)).find? (fun self =>
      (self.index : Int) = (names.length % 2 ^ 16 - maxModuleNumInPg : Nat)) = none := by
  rw [maxModuleNumInPg] at hcount ⊢
  rw [List.find?_eq_none]
  intro self hmem
  obtain ⟨i, dName, hle, hname, rfl⟩ := mem_rtake_selfs.mp hmem
  have hlt := (List.getElem?_eq_some_iff.mp hname).1
  have hne : i % 2 ^ 16 ≠ names.length % 2 ^ 16 - 200 := by omega
  exact fun hsame => hne (Int.ofNat_inj.mp (of_decide_eq_true hsame))

end Find

section Get

variable {sqlite3Open : String → Option ModuleDb} {set : ModuleSelfSet} {index : Nat}
  {self : ModuleSelf}

/-- The first pattern of a module that is open. -/
theorem firstPattern {db : ModuleDb} {infos : List ModuleInfo}
    (hinfos : infos.map some = db.patterns.take maxPatternNumInModule) :
    (∃ info, (infos.foldl LoopList.pushToTail
      (LoopList.create maxPatternNumInModule)).getFromHead 0 = some (some info)) ↔
      db.patterns ≠ [] := by
  have hholds := (pushed_patterns infos).2.1
  have hempty : db.patterns = [] ↔ infos = [] := by
    have htake : db.patterns = [] ↔ db.patterns.take maxPatternNumInModule = [] := by
      rw [List.take_eq_nil_iff, or_iff_right (by decide)]
    rw [htake, ← hinfos, List.map_eq_nil_iff]
  rw [Ne, hempty]
  cases infos with
  | nil =>
    -- the place was never written
    refine iff_of_false ?_ (not_not.mpr rfl)
    rintro ⟨info, hinfo⟩
    cases Option.some.inj hinfo
  | cons info infos =>
    refine iff_of_true ?_ nofun
    have hpos : 0 < ((info :: infos).rtake (maxPatternNumInModule - 1)).length := by
      rw [List.rtake, List.length_drop, List.length_cons, maxPatternNumInModule]
      omega
    exact ⟨_, (hholds.getFromHead_inside hpos).mpr hholds.head⟩

/-- **When a module that is in the list is given**: when it can be read. -/
theorem getByIndex_iff
    (hfind : set.loopConns.search (fun self => (self.index : Int) = index) = some self)
    (hindex : self.index = index) :
    (∃ self' set', dbModuleSelfGetByIndex sqlite3Open set index = some (some self', set') ∧
      self'.index = index) ↔ Readable sqlite3Open self.moduleselfName := by
  unfold dbModuleSelfGetByIndex Readable
  simp only [hfind]
  cases hdb : sqlite3Open (tstPath ++ "/" ++ self.moduleselfName) with
  | none =>
    simp only [dbModuleOpen, hdb]
    exact iff_of_true ⟨self, set, rfl, hindex⟩ nofun
  | some db =>
    -- the module's database is opened again, and its first pattern read
    have hopened : (dbModuleOpen sqlite3Open (some (tstPath ++ "/" ++ self.moduleselfName))
      {}).isSome ↔ db.Fit := opened_isSome_iff hdb
    have hdb' : (∀ db' ∈ some db, db'.Fit ∧ db'.patterns ≠ []) ↔ db.Fit ∧ db.patterns ≠ [] := by
      simp
    rw [hdb', ← hopened]
    cases hopen : dbModuleOpen sqlite3Open (some (tstPath ++ "/" ++ self.moduleselfName)) {} with
    | none => exact iff_of_false nofun fun h => by simpa using h.1
    | some p =>
      obtain ⟨ret, tmp⟩ := p
      obtain ⟨rfl, -, infos, hinfos, hloop, -⟩ := opened_spec hdb hopen
      rw [and_iff_right Option.isSome_some, ← firstPattern hinfos, ← hloop]
      dsimp only
      rw [if_pos rfl]
      constructor
      · rintro ⟨self', set', h, -⟩
        split at h
        · exact ⟨_, ‹_›⟩
        · cases h
      · rintro ⟨info, hinfo⟩
        rw [hinfo]
        exact ⟨_, _, rfl, hindex⟩

/-- A number that no module has opens none. -/
theorem getByIndex_none
    (hfind : set.loopConns.search (fun self => (self.index : Int) = index) = none) :
    dbModuleSelfGetByIndex sqlite3Open set index = some (none, set) := by
  unfold dbModuleSelfGetByIndex
  rw [hfind]

end Get

/-- **When the modules that are counted are found.** -/
theorem modulesReachable_iff (sqlite3Open : String → Option ModuleDb) (dir : Option (List String)) :
    ModulesReachable sqlite3Open dir ↔ ∀ names ∈ dir, ModulesFit sqlite3Open names := by
  cases dir with
  | none =>
    refine iff_of_true ⟨-1, _, rfl, fun index hlt => ?_⟩ nofun
    omega
  | some names =>
    have hnames : (∀ names' ∈ some names, ModulesFit sqlite3Open names') ↔
        ModulesFit sqlite3Open names := by simp
    rw [hnames]
    have hmod := Nat.mod_le (modules names).length (2 ^ 16)
    constructor
    · rintro ⟨ret, set, hinit, hfound⟩
      obtain ⟨hfits, rfl, hholds⟩ := dbInitModuleSelf_spec names hinit
      -- from 200 on, a module whose index is below the count was pushed out
      have hcount : (modules names).length % 2 ^ 16 < maxModuleNumInPg := by
        by_contra hcount
        have hpos : 0 < maxModuleNumInPg := by decide
        obtain ⟨self, set', hget, -⟩ :=
          hfound ((modules names).length % 2 ^ 16 - maxModuleNumInPg) (by omega)
        rw [getByIndex_none] at hget
        · cases hget
        · rw [LoopList.search_eq hholds]
          exact find_lost (Nat.le_of_not_lt hcount)
      refine ⟨hfits, hcount, fun dName hmem => ?_⟩
      obtain ⟨index, hindex⟩ := List.mem_iff_getElem?.mp hmem
      rw [List.rtake, List.getElem?_drop] at hindex
      have hlt : index < (modules names).length % 2 ^ 16 := by
        have hlt := (List.getElem?_eq_some_iff.mp hindex).1
        omega
      obtain ⟨dName', hname, hfind⟩ := find_self hcount hlt
      rw [hindex, Option.some.injEq] at hname
      rw [← LoopList.search_eq hholds, ← hname] at hfind
      exact (getByIndex_iff hfind rfl).mp (hfound index (by omega))
    · rintro ⟨hfits, hcount, hread⟩
      obtain ⟨⟨ret, set⟩, hinit⟩ : ∃ p, dbInitModuleSelf (some names) = some p := by
        rw [dbInitModuleSelf, moduleLoop_eq, if_pos hfits]
        exact ⟨_, rfl⟩
      refine ⟨ret, set, hinit, fun index hlt => ?_⟩
      obtain ⟨-, rfl, hholds⟩ := dbInitModuleSelf_spec names hinit
      have hlt' : index < (modules names).length % 2 ^ 16 := by omega
      obtain ⟨dName, hname, hfind⟩ := find_self hcount hlt'
      rw [← LoopList.search_eq hholds] at hfind
      refine (getByIndex_iff hfind rfl).mpr (hread dName ?_)
      rw [List.rtake]
      exact List.mem_iff_getElem?.mpr ⟨index, by rw [List.getElem?_drop, hname]⟩

/-- **When what is counted is found**, of the patterns and of the modules. -/
theorem reachable_iff (db : ModuleDb) (sqlite3Open : String → Option ModuleDb)
    (dir : Option (List String)) : PatternsReachable db ∧ ModulesReachable sqlite3Open dir ↔
      (db.patterns.length < maxPatternNumInModule ∧ db.Fit) ∧
        ∀ names ∈ dir, ModulesFit sqlite3Open names :=
  and_congr (patternsReachable_iff db) (modulesReachable_iff sqlite3Open dir)

/-- 200 patterns. -/
def fullDb : ModuleDb where
  patternConfig := some
    { column := 20
      header := List.replicate 20 (some "column")
      rows := List.replicate 200 (List.replicate 20 none)
      header_length := header_length_twenty
      row_length := fun row hrow => by rw [List.eq_of_mem_replicate hrow, List.length_replicate]
      columns := fun _ => by decide }
  globalConfig := none

/-- The first one is lost. -/
theorem fullDb_not_reachable : ¬PatternsReachable fullDb := by
  intro h
  have hlt := ((patternsReachable_iff fullDb).mp h).1
  rw [ModuleDb.patterns, fullDb, List.length_map, List.length_range, List.length_replicate] at hlt
  exact absurd hlt (by decide)

end PgClient.PgDB
