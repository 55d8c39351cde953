import PgClient.Client.Reports
import PgClient.Ini.RoundTrip

/-!
# The saved state

`rwini.c`: the state of a synchronization and the name of the current module, each in a file of its
own. A file that is there and loads is changed and saved again; else a new one is made.

* `sync_saved` — what was written last is what is read.
* `module_saved` — the same of names.
-/

namespace PgClient.Ini

open Text PartialRun
open Function (update)
open Client (SyncInfo)
open Server.GammaText (isSpace hexVal)

/-! ## The code -/

/-- The base that a number begins with, and its digits. -/
def strtolBase : List Byte → Nat × List Byte
  | z :: x :: d :: rest =>
    if z = ch '0' then
      if (x = ch 'x' ∨ x = ch 'X') ∧ (hexVal d).isSome then (16, d :: rest)
      else (8, z :: x :: d :: rest)
    else (10, z :: x :: d :: rest)
  | z :: rest => (if z = ch '0' then 8 else 10, z :: rest)
  | [] => (10, [])

/-- The number behind the sign. -/
def magnitude (s : List Byte) : Nat :=
  let (base, digits) := strtolBase s
  ((digits.map fun c => (hexVal c).getD base).takeWhile fun d => d < base).foldl
    (fun n d => base * n + d) 0

/-- `strtol(s, NULL, 0)`, where a `long` has 32 bits. -/
def strtol (s : List Byte) : Int :=
  let s := s.dropWhile isSpace
  if s.head? = some (ch '-') then max (-2147483648) (-(magnitude s.tail : Int))
  else min 2147483647 (magnitude (if s.head? = some (ch '+') then s.tail else s))

/-- `iniparser_getint`; `none` is a key with NULL. -/
def iniparserGetint (d : Dictionary) (key : List Byte) (notfound : BitVec 32) :
    Option (BitVec 32) :=
  match iniparserGetstring d key with
  | none => some notfound
  | some none => none
  | some (some str) => some (BitVec.ofInt 32 (strtol str))

variable (front : Nat → Byte)

/-- `read_sync_config`. -/
def readSyncConfig (file : Option (List Byte)) : Option SyncInfo :=
  match iniparserLoad front file with
  | none => none
  | some none => some ⟨0, 0⟩
  | some (some ini) => do
    let syncProcess ← iniparserGetint ini (ascii "sync:syncprocess") 0
    let timeStamp ← iniparserGetint ini (ascii "sync:timestamp") 0
    some ⟨syncProcess, timeStamp⟩

/-- `read_cur_module_name`: the name, or the number that is returned. -/
def readCurModuleName (file : Option (List Byte)) : Option (Except Int (List Byte)) :=
  match iniparserLoad front file with
  | none => none
  | some none => some (.error (-1))
  | some (some ini) =>
    match (iniparserGetstring ini (ascii "curModule:name")).getD (some []) with
    | none => some (.error (-2))
    | some name => some (.ok name)

/-- A new file with a section. -/
def newConfig (sec : List Byte) (values : List (List Byte × List Byte)) : List Byte :=
  ch '[' :: sec ++ [ch ']', lf] ++ values.flatMap fun kv => kv.1 ++ equals :: kv.2 ++ [lf]

/-- The values are set in the section `sec` and the file is saved, or a new one is made. A file
that is not closed holds what has been flushed. -/
def writeConfig (flushed : List Byte → List Byte) (sec : List Byte)
    (values : List (List Byte × List Byte)) (file : Option (List Byte)) : Option (List Byte) :=
  match iniparserLoad front file with
  | none => none
  | some none => some (newConfig sec values)
  | some (some ini) => do
    let ini ← values.foldlM (fun d kv => iniparserSet d (sec ++ colon :: kv.1) (some kv.2)) ini
    let (text, closed) ← iniparserDumpIni ini
    some (if closed then text else flushed text)

/-- `write_sync_config`. -/
def writeSyncConfig (flushed : List Byte → List Byte) (info : SyncInfo) :
    Option (List Byte) → Option (List Byte) :=
  writeConfig front flushed (ascii "sync")
    [(ascii "syncprocess", formatD info.syncProcess.toInt),
      (ascii "timestamp", formatD info.timeStamp.toInt)]

/-- `write_cur_module_name`, with `curModuleName`. -/
def writeCurModuleName (flushed : List Byte → List Byte) (curModuleName : List Byte) :
    Option (List Byte) → Option (List Byte) :=
  writeConfig front flushed (ascii "curModule") [(ascii "name", curModuleName)]

/-! ## Numbers -/

/-- What the parsers ask about a digit. -/
theorem digitChar_facts : ∀ d < 10, isSpace (digitChar d) = false ∧ hexVal (digitChar d) = some d ∧
    digitChar d ≠ ch '-' ∧ digitChar d ≠ ch '+' ∧ (digitChar d = ch '0' → d = 0) := by decide

/-- Digits are read as a decimal number: a leading 0 is all of it. -/
theorem magnitude_digits (n : Nat) : magnitude ((digits n).map digitChar) = n := by
  obtain ⟨d, ds, hds, hd, hzero⟩ := exists_digits_eq_cons n
  have hlt : ∀ e ∈ digits n, e < 10 := fun e he => digits_lt he
  by_cases hn : n = 0
  · rw [hn]
    rfl
  · have hfirst : digitChar d ≠ ch '0' := fun h =>
      hn (hzero ((digitChar_facts d hd).2.2.2.2 h)).1
    -- the number does not begin with 0, so that the base is 10
    have hbase : strtolBase ((digits n).map digitChar) = (10, (digits n).map digitChar) := by
      rw [hds]
      rcases ds with _ | ⟨x, _ | ⟨e, ds⟩⟩ <;> simp [strtolBase, hfirst]
    have hvals : ((digits n).map digitChar).map (fun c => (hexVal c).getD 10) = digits n := by
      rw [List.map_map]
      refine (List.map_congr_left fun e he => ?_).trans (List.map_id _)
      rw [Function.comp_apply, (digitChar_facts e (hlt e he)).2.1]
      rfl
    rw [magnitude, hbase]
    dsimp only
    rw [hvals, List.takeWhile_eq_self_iff.mpr fun e he => decide_eq_true (hlt e he), foldl_digits]

/-- A number comes back. -/
theorem strtol_formatD {i : Int} (hlow : -2147483648 ≤ i) (hhigh : i ≤ 2147483647) :
    strtol (formatD i) = i := by
  obtain ⟨d, ds, hds, hd, -⟩ := exists_digits_eq_cons i.natAbs
  obtain ⟨hspace, -, hminus, hplus, -⟩ := digitChar_facts d hd
  have hmag := magnitude_digits i.natAbs
  rw [formatD, strtol]
  split
  · -- the sign
    rw [List.singleton_append, List.dropWhile_cons_of_neg (by decide), List.head?_cons, if_pos rfl,
      List.tail_cons, hmag]
    omega
  · -- a digit is neither a blank nor a sign
    rw [List.nil_append]
    rw [hds, List.map_cons] at hmag ⊢
    rw [List.dropWhile_cons_of_neg (by rw [hspace]; exact Bool.false_ne_true), List.head?_cons,
      if_neg fun h => hminus (Option.some.inj h), if_neg fun h => hplus (Option.some.inj h), hmag]
    omega

/-! ## Files that can be saved -/

/-- The file loads, if it does, as something that can be saved and has the section, in lower case. -/
def Kept (sec : List Byte) (file : Option (List Byte)) : Prop :=
  iniparserLoad front file = some none ∨ ∃ d, iniparserLoad front file = some (some d) ∧
    Printable (dictionaryGet d) ∧ dictionaryGet d (sec.map tolower) ≠ none

/-- What the file says. -/
def Says (file : Option (List Byte)) (m : Map) : Prop :=
  ∃ d, iniparserLoad front file = some (some d) ∧ dictionaryGet d = m

/-- What of a file is saved again: at least the section. -/
def stored (sec : List Byte) (file : Option (List Byte)) : Map :=
  match iniparserLoad front file with
  | some (some d) => reload (dictionaryGet d)
  | _ => update (fun _ => none) (sec.map tolower) (some none)

/-- What is set in a section. -/
def assigned (sec : List Byte) (values : List (List Byte × List Byte)) :
    List (List Byte × Option (List Byte)) :=
  values.map fun kv => (sec.map tolower ++ colon :: kv.1, some kv.2)

section Write

variable {sec : List Byte} {values : List (List Byte × List Byte)}
  {s : LoadState} {rest : List Byte} {m : Map}

/-- The lines of a new file are read. -/
theorem At.newValues (hvalues : ∀ kv ∈ values, CleanEntry (sec.map tolower) kv.1 kv.2)
    (h : At s (values.flatMap (fun kv => kv.1 ++ equals :: kv.2 ++ [lf]) ++ rest)
      (sec.map tolower) m) :
    ∃ s', (loadLoop front).run s = (loadLoop front).run s' ∧
      At s' rest (sec.map tolower) (assignAll m (assigned sec values)) := by
  -- a new file has no blanks behind the keys
  induction values generalizing s m with
  | nil => exact ⟨s, rfl, h⟩
  | cons kv values ih =>
    obtain ⟨hentry, hrest⟩ := List.forall_mem_cons.mp hvalues
    have hpadded : padded 0 kv.1 = kv.1 := List.append_nil _
    have hlen : (padded 0 kv.1).length + kv.2.length + 4 ≤ asciiLineSz := by
      have := hentry.line
      rw [padRight_eq, padded, List.length_append] at this
      rw [hpadded]
      omega
    rw [List.flatMap_cons, List.append_assoc] at h
    obtain ⟨s₁, hrun₁, h₁⟩ := At.entry front (.inl rfl) hentry.cleanKey hentry.cleanValue 0 hlen
      hentry.tmp (by rw [hpadded]; exact h)
    obtain ⟨s', hrun', h'⟩ := ih hrest h₁
    exact ⟨s', hrun₁.trans hrun', h'⟩

/-- A new file says what was put there. -/
theorem says_newConfig (hsec : SectionName sec)
    (hvalues : ∀ kv ∈ values, CleanEntry (sec.map tolower) kv.1 kv.2) :
    Says front (some (newConfig sec values))
      (assignAll (update (fun _ => none) (sec.map tolower) (some none)) (assigned sec values)) := by
  have hstart : At ⟨newConfig sec values, 0, [], [], dictionaryNew 0, 0⟩
      (ch '[' :: sec ++ [ch ']'] ++ [lf] ++
        (values.flatMap fun kv => kv.1 ++ equals :: kv.2 ++ [lf])) [] (fun _ => none) :=
    ⟨by simp [newConfig], rfl, rfl, valid_new 0, funext (get_new 0), rfl⟩
  obtain ⟨s₁, hrun₁, h₁⟩ := At.section front (.inl rfl) hsec hstart
  rw [← List.append_nil (values.flatMap _)] at h₁
  obtain ⟨s₂, hrun₂, h₂⟩ := At.newValues front hvalues h₁
  obtain ⟨d, hrun, -, hget⟩ := At.done front h₂
  exact ⟨d, hrun₁.trans (hrun₂.trans hrun), hget⟩

/-- The keys that the code sets are in lower case. -/
theorem strlwc_entry {key value : List Byte} (h : CleanEntry (sec.map tolower) key value) :
    strlwc (sec ++ colon :: key) = sec.map tolower ++ colon :: key := by
  have htmp := h.tmp
  rw [List.length_map] at htmp
  have hcolon : tolower colon = colon := by decide
  rw [strlwc, List.take_of_length_le (by rw [List.length_append, List.length_cons]; omega),
    List.map_append, List.map_cons, h.cleanKey.lower, hcolon]

/-- The values of a section are set one after another. -/
theorem assignAll_assigned_cons (m : Map) (kv : List Byte × List Byte) :
    assignAll m (assigned sec (kv :: values)) =
      assignAll (update m (sec.map tolower ++ colon :: kv.1) (some (some kv.2)))
        (assigned sec values) := rfl

/-- The values are set, one after the other. -/
theorem foldlM_iniparserSet (hvalues : ∀ kv ∈ values, CleanEntry (sec.map tolower) kv.1 kv.2)
    {d : Dictionary} (hd : Valid d) :
    ∃ d', values.foldlM (fun d kv => iniparserSet d (sec ++ colon :: kv.1) (some kv.2)) d =
        some d' ∧ Valid d' ∧
      dictionaryGet d' = assignAll (dictionaryGet d) (assigned sec values) := by
  -- `iniparser_set` lowers the key, which leaves these as they are
  have hset : values.foldlM (fun d kv => iniparserSet d (sec ++ colon :: kv.1) (some kv.2)) d =
      (assigned sec values).foldlM (fun d a => dictionarySet d a.1 a.2) d := by
    clear hd
    induction values generalizing d with
    | nil => rfl
    | cons kv values ih =>
      obtain ⟨hentry, hrest⟩ := List.forall_mem_cons.mp hvalues
      rw [assigned, List.map_cons, List.foldlM_cons, List.foldlM_cons, iniparserSet,
        strlwc_entry hentry]
      exact bind_congr fun d₁ => ih hrest
  rw [hset]
  exact foldlM_dictionarySet (assigned sec values) hd

/-- What is set in a section leaves its name. -/
theorem assignAll_assigned_of_ne {key : List Byte}
    (hkey : ∀ kv ∈ values, key ≠ sec.map tolower ++ colon :: kv.1) (m : Map) :
    assignAll m (assigned sec values) key = m key := by
  induction values generalizing m with
  | nil => rfl
  | cons kv values ih =>
    obtain ⟨hne, hrest⟩ := List.forall_mem_cons.mp hkey
    rw [assignAll_assigned_cons, ih hrest, Function.update_of_ne hne]

/-- An entry is no section. -/
theorem section_ne {name : List Byte} (hname : isSection name = true) (key : List Byte) :
    name ≠ sec.map tolower ++ colon :: key := by
  intro heq
  rw [heq, not_isSection_append] at hname
  cases hname

section Assigned

variable (hname : isSection (sec.map tolower) = true) (hget : m (sec.map tolower) ≠ none)
include hname

/-- None of them is the section itself. -/
theorem assignAll_assigned_section :
    assignAll m (assigned sec values) (sec.map tolower) = m (sec.map tolower) :=
  assignAll_assigned_of_ne (fun kv _ => section_ne hname kv.1) m

include hget

/-- What is set in a section that is there can be saved. -/
theorem printable_assignAll (hvalues : ∀ kv ∈ values, CleanEntry (sec.map tolower) kv.1 kv.2)
    (h : Printable m) : Printable (assignAll m (assigned sec values)) := by
  induction values generalizing m with
  | nil => exact h
  | cons kv values ih =>
    obtain ⟨hentry, hrest⟩ := List.forall_mem_cons.mp hvalues
    rw [assignAll_assigned_cons]
    refine ih ?_ hrest (printable_update h hname hget hentry)
    rw [Function.update_of_ne (section_ne hname kv.1)]
    exact hget

/-- And it comes back. -/
theorem reload_assignAll :
    reload (assignAll m (assigned sec values)) = assignAll (reload m) (assigned sec values) := by
  induction values generalizing m with
  | nil => rfl
  | cons kv values ih =>
    rw [assignAll_assigned_cons, assignAll_assigned_cons, ih, reload_update hname hget]
    · rw [Function.update_of_ne (section_ne hname kv.1)]
      exact hget

end Assigned

end Write

/-! ## Writing -/

/-- A section that a file of its own is made for. -/
structure FileSection (sec : List Byte) : Prop where
  written : SectionName sec
  lower : CleanName (sec.map tolower)
  isSection : isSection (sec.map tolower) = true

/-- `[sync]` can be a section of a file. -/
theorem fileSection_sync : FileSection (ascii "sync") where
  written := ⟨⟨by decide, by decide, by decide, by decide⟩, by decide, by decide, by decide⟩
  lower := ⟨⟨⟨by decide, by decide, by decide, by decide⟩, by decide, by decide, by decide⟩,
    by decide⟩
  isSection := by decide

/-- `[curModule]` can be a section of a file. -/
theorem fileSection_curModule : FileSection (ascii "curModule") where
  written := ⟨⟨by decide, by decide, by decide, by decide⟩, by decide, by decide, by decide⟩
  lower := ⟨⟨⟨by decide, by decide, by decide, by decide⟩, by decide, by decide, by decide⟩,
    by decide⟩
  isSection := by decide

section Saved

variable {front : Nat → Byte} {sec : List Byte} {values : List (List Byte × List Byte)}
  {file : Option (List Byte)}

/-- What of a file is saved again can be saved, has the section, and comes back. -/
theorem stored_facts (hsec : FileSection sec) (hkept : Kept front sec file) :
    Printable (stored front sec file) ∧ stored front sec file (sec.map tolower) ≠ none ∧
      reload (stored front sec file) = stored front sec file := by
  -- of a file that is not there the section alone is stored
  rcases hkept with hnull | ⟨d, hload, hp, hget⟩
  · have hnew : stored front sec file = update (fun _ => none) (sec.map tolower) (some none) := by
      rw [stored, hnull]
    rw [hnew]
    refine ⟨printable_section hsec.lower hsec.isSection, ?_, reload_new hsec.isSection⟩
    rw [Function.update_self]
    exact Option.some_ne_none _
  · rw [stored, hload]
    exact ⟨printable_reload hp, (reload_section_ne_none hsec.isSection).mpr hget, reload_reload _⟩

/-- The file that is written. -/
theorem exists_written (hfront : ∀ n, front n ≠ backslash) (hsec : FileSection sec)
    (hvalues : ∀ kv ∈ values, CleanEntry (sec.map tolower) kv.1 kv.2) (hkept : Kept front sec file)
    (flushed : List Byte → List Byte) :
    ∃ text, writeConfig front flushed sec values file = some text ∧
      Says front (some text) (assignAll (stored front sec file) (assigned sec values)) := by
  -- there is no file, or one with the section in it
  rcases hkept with hnull | ⟨d, hload, hp, hget⟩
  · refine ⟨newConfig sec values, by rw [writeConfig, hnull], ?_⟩
    rw [stored, hnull]
    exact says_newConfig front hsec.written hvalues
  · obtain ⟨d₁, hfold, hd₁, hmap₁⟩ := foldlM_iniparserSet hvalues (valid_of_load hload)
    -- what is set leaves it printable, so that it is read as it was saved
    have hp₁ : Printable (dictionaryGet d₁) := by
      rw [hmap₁]
      exact printable_assignAll hsec.isSection hget hvalues hp
    obtain ⟨text, d', hdump, hload', -, hmap'⟩ := read_saved hd₁ hfront hp₁
    refine ⟨text, ?_, d', hload', ?_⟩
    · rw [writeConfig, hload]
      simp only [hfold, hdump, Option.bind_eq_bind, Option.bind_some, if_true]
    · rw [hmap', hmap₁, reload_assignAll hsec.isSection hget, stored, hload]

/-- A configuration is written: the file holds the values, and of the rest what can be saved; it
can be written again. -/
theorem writeConfig_spec (hfront : ∀ n, front n ≠ backslash) (hsec : FileSection sec)
    (hvalues : ∀ kv ∈ values, CleanEntry (sec.map tolower) kv.1 kv.2) (hkept : Kept front sec file)
    (flushed : List Byte → List Byte) :
    ∃ text, writeConfig front flushed sec values file = some text ∧ Kept front sec (some text) ∧
      Says front (some text) (assignAll (stored front sec file) (assigned sec values)) ∧
      stored front sec (some text) = assignAll (stored front sec file) (assigned sec values) := by
  obtain ⟨hp, hget, hreload⟩ := stored_facts hsec hkept
  -- what is written is loaded as the dictionary that was saved
  obtain ⟨text, hwrite, d, hload, hmap⟩ := exists_written hfront hsec hvalues hkept flushed
  refine ⟨text, hwrite, .inr ⟨d, hload, ?_, ?_⟩, ⟨d, hload, hmap⟩, ?_⟩
  · rw [hmap]
    exact printable_assignAll hsec.isSection hget hvalues hp
  · rw [hmap, assignAll_assigned_section hsec.isSection]
    exact hget
  -- reloading changes nothing any more
  · rw [stored, hload]
    dsimp only
    rw [hmap, reload_assignAll hsec.isSection hget, hreload]

end Saved

/-! ## Values -/

/-- A character that means nothing to the parser. -/
def Graphic (c : Byte) : Prop :=
  c ≠ 0 ∧ isSpace c = false ∧ c ≠ ch ';' ∧ c ≠ ch '#' ∧ c ≠ dquote ∧ c ≠ squote ∧ c ≠ backslash

instance instDecidableGraphic (c : Byte) : Decidable (Graphic c) := instDecidableAnd

/-- A value of graphic bytes is read back as it was. -/
theorem cleanValue_of_graphic {value : List Byte} (h : ∀ c ∈ value, Graphic c) :
    CleanValue value := by
  -- what is not graphic is not in the value, nor at its ends
  have hne : ∀ c, ¬ Graphic c → c ∉ value := fun c hc hmem => hc (h c hmem)
  have hhead : ∀ c, value.head? = some c → Graphic c := fun c hc => h c (List.mem_of_head? hc)
  refine ⟨⟨fun c hc => (h c hc).1, hne lf (by decide), ?_⟩, ⟨hne _ (by decide), hne _ (by decide)⟩,
    ⟨fun hq => ?_, fun hq => ?_⟩, fun hq => ?_⟩
  · refine ⟨List.dropWhile_eq_self_iff.mpr fun hpos => ?_, List.rdropWhile_eq_self_iff.mpr
      fun hnil => ?_⟩
    · rw [(h _ (List.getElem_mem hpos)).2.1]
      exact Bool.false_ne_true
    · rw [(h _ (List.getLast_mem hnil)).2.1]
      exact Bool.false_ne_true
  · exact absurd (hhead _ hq) (by decide)
  · exact absurd (hhead _ hq) (by decide)
  · exact absurd (h _ (List.mem_of_getLast? hq)) (by decide)

/-- Digits are graphic. -/
theorem graphic_digitChar : ∀ d < 10, Graphic (digitChar d) := by decide

/-- Numbers survive. -/
theorem graphic_formatD (i : Int) : ∀ c ∈ formatD i, Graphic c := by
  intro c hc
  rcases List.mem_append.mp hc with hc | hc
  · split at hc
    · rw [List.mem_singleton.mp hc]
      decide
    · exact absurd hc List.not_mem_nil
  · obtain ⟨d, hd, rfl⟩ := List.mem_map.mp hc
    exact graphic_digitChar d (digits_lt hd)

/-- An entry of a short value. -/
theorem cleanEntry_of_short {name key value : List Byte} (hkey : CleanKey key)
    (hvalue : CleanValue value) (hname : name.length ≤ 100) (hshort : key.length ≤ 100)
    (hlen : value.length ≤ 1000) : CleanEntry name key value := by
  have hpad : (padRight key).length ≤ 130 := by
    rw [padRight_eq, padded, List.length_append, List.length_replicate]
    omega
  have hsize : asciiLineSz = 4096 := rfl
  exact ⟨hkey, hvalue, by omega, by omega⟩

/-! ## Files without the section -/

section Lost

variable {front : Nat → Byte} {sec : List Byte} {values : List (List Byte × List Byte)}
  {file : Option (List Byte)} {d : Dictionary}

/-- What is set in a section that is not there does not show. -/
theorem agree_assignAll {m : Map} (hname : isSection (sec.map tolower) = true)
    (hget : m (sec.map tolower) = none) : Agree m (assignAll m (assigned sec values)) where
  sections name hname' := assignAll_assigned_of_ne (fun kv _ => section_ne hname' kv.1) m
  entries name key hname' hget' := by
    refine assignAll_assigned_of_ne (fun kv _ heq => ?_) m
    have hsame := congrArg sectionOf heq
    rw [sectionOf_append hname', sectionOf_append hname] at hsame
    exact hget' (hsame ▸ hget)

/-- It is lost. -/
theorem writeConfig_lost (hfront : ∀ n, front n ≠ backslash) (hsec : FileSection sec)
    (hvalues : ∀ kv ∈ values, CleanEntry (sec.map tolower) kv.1 kv.2)
    (hload : iniparserLoad front file = some (some d)) (hp : Printable (dictionaryGet d))
    (hget : dictionaryGet d (sec.map tolower) = none) (flushed : List Byte → List Byte) :
    ∃ text, writeConfig front flushed sec values file = some text ∧
      Says front (some text) (reload (dictionaryGet d)) := by
  obtain ⟨d₁, hfold, hd₁, hmap₁⟩ := foldlM_iniparserSet hvalues (valid_of_load hload)
  -- what was set agrees with the file wherever it is printed
  have hagree : Agree (dictionaryGet d) (dictionaryGet d₁) :=
    hmap₁ ▸ agree_assignAll hsec.isSection hget
  obtain ⟨text, d', hdump, hload', -, hmap'⟩ := read_saved hd₁ hfront (hagree.printable hp)
  refine ⟨text, ?_, d', hload', by rw [hmap', hagree.reload_eq]⟩
  rw [writeConfig, hload]
  simp only [hfold, hdump, Option.bind_eq_bind, Option.bind_some, if_true]

end Lost

/-- What can be printed is in some file. -/
theorem exists_file {front : Nat → Byte} (hfront : ∀ n, front n ≠ backslash)
    {l : List (List Byte × Option (List Byte))} (hp : Printable (assignAll (fun _ => none) l)) :
    ∃ text, Says front (some text) (reload (assignAll (fun _ => none) l)) := by
  obtain ⟨d, -, hd, hget⟩ := foldlM_dictionarySet l (valid_new 0)
  have hnew : dictionaryGet (dictionaryNew 0) = fun _ => none := funext (get_new 0)
  rw [hnew] at hget
  rw [← hget] at hp ⊢
  obtain ⟨text, d', -, hload, -, hmap⟩ := read_saved hd hfront hp
  exact ⟨text, d', hload, hmap⟩

/-! ## Runs -/

section Runs

variable {front : Nat → Byte} {sec : List Byte} {κ : Type}
  {values : κ → List (List Byte × List Byte)} {keys : List (List Byte)}

/-- One configuration after the other: the file says the last one, and the rest stays. -/
theorem writes_run (hfront : ∀ n, front n ≠ backslash) (hsec : FileSection sec) {cs : List κ}
    (hvalues : ∀ c ∈ cs, ∀ kv ∈ values c, CleanEntry (sec.map tolower) kv.1 kv.2 ∧ kv.1 ∈ keys)
    (flushed : List Byte → List Byte) {file : Option (List Byte)} (hkept : Kept front sec file) :
    ∃ file', runAll (fun c f => (writeConfig front flushed sec (values c) f).map some) cs file =
        some file' ∧
      (∀ key, (∀ k ∈ keys, key ≠ sec.map tolower ++ colon :: k) →
        stored front sec file' key = stored front sec file key) ∧
      ∀ c, cs.getLast? = some c → ∃ base, Says front file' (stored front sec file') ∧
        stored front sec file' = assignAll base (assigned sec (values c)) := by
  induction cs generalizing file with
  | nil => exact ⟨file, rfl, fun _ _ => rfl, fun c hc => by cases hc⟩
  | cons c cs ih =>
    obtain ⟨hc, hrest⟩ := List.forall_mem_cons.mp hvalues
    obtain ⟨text, hwrite, hkept₁, hsays₁, hstored₁⟩ :=
      writeConfig_spec hfront hsec (fun kv hkv => (hc kv hkv).1) hkept flushed
    obtain ⟨file', hrun, hother, hlast⟩ := ih hrest hkept₁
    refine ⟨file', ?_, fun key hkey => ?_, fun c' hc' => ?_⟩
    · rw [runAll, hwrite]
      exact hrun
    · rw [hother key hkey, hstored₁]
      exact assignAll_assigned_of_ne (fun kv hkv => hkey kv.1 (hc kv hkv).2) _
    · cases cs with
      | nil =>
        -- the file that was written
        obtain rfl := Option.some.inj hc'
        obtain rfl := Option.some.inj hrun
        exact ⟨_, hstored₁ ▸ hsays₁, hstored₁⟩
      | cons c₁ cs => exact hlast c' (by rwa [List.getLast?_cons_cons] at hc')

end Runs

/-! ## The two files -/

section Files

variable {front : Nat → Byte} (hfront : ∀ n, front n ≠ backslash)
  (flushed : List Byte → List Byte) {file : Option (List Byte)}

/-- A number in a dictionary. -/
theorem iniparserGetint_eq {d : Dictionary} {key : List Byte} {n : BitVec 32}
    (h : dictionaryGet d (strlwc key) = some (some (formatD n.toInt))) (notfound : BitVec 32) :
    iniparserGetint d key notfound = some n := by
  have hlow := BitVec.le_toInt n
  have hhigh := BitVec.toInt_lt (x := n)
  rw [iniparserGetint, iniparserGetstring, h]
  dsimp only
  rw [strtol_formatD (by omega) (by omega), BitVec.ofInt_toInt]

/-- What was set is read. -/
theorem says_readSyncConfig {base : Map} {info : SyncInfo}
    (h : Says front file (assignAll base (assigned (ascii "sync")
      [(ascii "syncprocess", formatD info.syncProcess.toInt),
        (ascii "timestamp", formatD info.timeStamp.toInt)]))) :
    readSyncConfig front file = some info := by
  obtain ⟨d, hload, hget⟩ := h
  -- both keys are looked up in the map the file says
  have hprocess : dictionaryGet d (strlwc (ascii "sync:syncprocess")) =
      some (some (formatD info.syncProcess.toInt)) := by
    rw [hget]
    rfl
  have htime : dictionaryGet d (strlwc (ascii "sync:timestamp")) =
      some (some (formatD info.timeStamp.toInt)) := by
    rw [hget]
    rfl
  rw [readSyncConfig, hload]
  dsimp only
  rw [iniparserGetint_eq hprocess, iniparserGetint_eq htime]
  rfl

/-- A key of graphic bytes is read back, if it is in lower case and does not look like a section. -/
theorem cleanKey_of_graphic {key : List Byte} (h : ∀ c ∈ key, Graphic c)
    (hlower : key.map tolower = key) (hne : key ≠ []) (hsign : equals ∉ key)
    (hhead : key.head? ≠ some (ch '[')) : CleanKey key :=
  ⟨(cleanValue_of_graphic h).toClean, hlower, hne, hsign,
    fun hash => absurd (h _ (List.mem_of_head? hash)) (by decide), hhead⟩

/-- `syncprocess` is such a key. -/
theorem cleanKey_syncprocess : CleanKey (ascii "syncprocess") :=
  cleanKey_of_graphic (by decide) (by decide) (by decide) (by decide) (by decide)

/-- `timestamp` is such a key. -/
theorem cleanKey_timestamp : CleanKey (ascii "timestamp") :=
  cleanKey_of_graphic (by decide) (by decide) (by decide) (by decide) (by decide)

/-- `name` is such a key. -/
theorem cleanKey_name : CleanKey (ascii "name") :=
  cleanKey_of_graphic (by decide) (by decide) (by decide) (by decide) (by decide)

/-- A number is read back as it was printed. -/
theorem cleanValue_formatD (n : BitVec 32) : CleanValue (formatD n.toInt) ∧
    (formatD n.toInt).length ≤ 1000 := by
  have hlow := BitVec.le_toInt n
  have hhigh := BitVec.toInt_lt (x := n)
  have hlen := Json.length_formatD_le (i := n.toInt) (by omega) (by omega)
  exact ⟨cleanValue_of_graphic (graphic_formatD n.toInt), by omega⟩

/-- The two entries that are written are read back. -/
theorem clean_syncValues (info : SyncInfo) : ∀ kv ∈ [(ascii "syncprocess",
    formatD info.syncProcess.toInt), (ascii "timestamp", formatD info.timeStamp.toInt)],
    CleanEntry ((ascii "sync").map tolower) kv.1 kv.2 ∧
      kv.1 ∈ [ascii "syncprocess", ascii "timestamp"] := by
  intro kv hkv
  obtain ⟨hprocess, hprocessLen⟩ := cleanValue_formatD info.syncProcess
  obtain ⟨htime, htimeLen⟩ := cleanValue_formatD info.timeStamp
  -- a number is at most eleven bytes, so the line is short enough
  rcases List.mem_cons.mp hkv with rfl | hkv
  · exact ⟨cleanEntry_of_short cleanKey_syncprocess hprocess (by decide)
      (show (ascii "syncprocess").length ≤ 100 by decide) hprocessLen, List.mem_cons_self⟩
  · obtain rfl := List.mem_singleton.mp hkv
    exact ⟨cleanEntry_of_short cleanKey_timestamp htime (by decide)
      (show (ascii "timestamp").length ≤ 100 by decide) htimeLen,
      List.mem_cons_of_mem _ List.mem_cons_self⟩

include hfront

/-- **The state of the synchronization survives**: after any number of calls of
`write_sync_config`, on a file that does not load or has a section for it, `read_sync_config` reads
what was written last, and what else is in the file stays there. -/
theorem sync_saved (hkept : Kept front (ascii "sync") file) (infos : List SyncInfo) :
    ∃ file', runAll (fun info f => (writeSyncConfig front flushed info f).map some) infos file =
        some file' ∧
      ∀ info, infos.getLast? = some info → readSyncConfig front file' = some info ∧
        ∃ m, Says front file' m ∧ ∀ key, key ≠ ascii "sync:syncprocess" →
          key ≠ ascii "sync:timestamp" → m key = stored front (ascii "sync") file key := by
  obtain ⟨file', hrun, hother, hlast⟩ :=
    writes_run hfront fileSection_sync (fun info _ => clean_syncValues info) flushed hkept
  refine ⟨file', hrun, fun info hinfo => ?_⟩
  obtain ⟨base, hsays, hstored⟩ := hlast info hinfo
  refine ⟨says_readSyncConfig (hstored ▸ hsays), _, hsays, fun key hprocess htime => ?_⟩
  -- only the two keys of the section were written
  refine hother key fun k hk => ?_
  rcases List.mem_cons.mp hk with rfl | hk
  · exact hprocess
  · obtain rfl := List.mem_singleton.mp hk
    exact htime

/-- An entry of another section, and a section that is written, with an entry. -/
def twoSections (sec key value : List Byte) : Map :=
  reload (assignAll (fun _ => none) [(ascii "other", none), (ascii "other" ++ colon :: ascii "k",
    some (ascii "v")), (sec.map tolower, none), (sec.map tolower ++ colon :: key, some value)])

/-- A file with another section and an entry in it can be saved. -/
theorem exists_twoSections {sec key value : List Byte} (hsec : FileSection sec)
    (hentry : CleanEntry (sec.map tolower) key value) (hne : sec.map tolower ≠ ascii "other") :
    ∃ file, Says front (some file) (twoSections sec key value) ∧ Kept front sec (some file) ∧
      stored front sec (some file) = twoSections sec key value := by
  have hother : CleanName (ascii "other") :=
    ⟨⟨⟨by decide, by decide, by decide, by decide⟩, by decide, by decide, by decide⟩, by decide⟩
  have hk : CleanEntry (ascii "other") (ascii "k") (ascii "v") :=
    cleanEntry_of_short (cleanKey_of_graphic (by decide) (by decide) (by decide) (by decide)
      (by decide)) (cleanValue_of_graphic (by decide)) (by decide) (by decide) (by decide)
  have hp := printable_two hother (by decide) hk hsec.lower hsec.isSection hentry hne
  obtain ⟨file, d, hload, hget⟩ := exists_file hfront hp
  refine ⟨file, ⟨d, hload, hget⟩, .inr ⟨d, hload, ?_, ?_⟩, ?_⟩
  · rw [hget]
    exact printable_reload hp
  · -- the section was set before its entry
    rw [hget, reload_section_ne_none hsec.isSection]
    refine ne_of_eq_of_ne (Function.update_of_ne (section_ne hsec.isSection key) _ _) ?_
    rw [Function.update_self]
    exact Option.some_ne_none _
  · rw [stored, hload]
    dsimp only
    rw [hget, reload_reload]
    rfl

omit hfront in
/-- Two calls, on a file with other entries. -/
theorem sync_saved_two : ∃ file file' m', Says (fun _ => 0) (some file)
      (twoSections (ascii "sync") (ascii "syncprocess") (ascii "3")) ∧
    runAll (fun info f => (writeSyncConfig (fun _ => 0) id info f).map some)
      [⟨1, 5⟩, ⟨2, -7⟩] (some file) = some file' ∧
    readSyncConfig (fun _ => 0) file' = some ⟨2, -7⟩ ∧
    Says (fun _ => 0) file' m' ∧ m' (ascii "other:k") = some (some (ascii "v")) := by
  have hzero : (0 : Byte) ≠ backslash := by decide
  have hentry : CleanEntry ((ascii "sync").map tolower) (ascii "syncprocess") (ascii "3") :=
    cleanEntry_of_short cleanKey_syncprocess (cleanValue_of_graphic (by decide)) (by decide)
      (by decide) (by decide)
  -- the file as it is before, with another section in it
  obtain ⟨file, hsays, hkept, hstored⟩ :=
    @exists_twoSections (fun _ => 0) (fun _ => hzero) _ _ _ fileSection_sync hentry (by decide)
  obtain ⟨file', hrun, hlast⟩ := sync_saved (fun _ => hzero) id hkept [⟨1, 5⟩, ⟨2, -7⟩]
  obtain ⟨hread, m', hsays', hrest⟩ := hlast ⟨2, -7⟩ rfl
  refine ⟨file, file', m', hsays, hrun, hread, hsays', ?_⟩
  -- the other entry is none of the two that are written
  rw [hrest _ (by decide) (by decide), hstored]
  decide

/-- **Where the section is missing the state is lost**: on a file that loads and can be saved,
`read_sync_config` reads what was written if and only if the file has the section, or zeros were
written. -/
theorem sync_read_iff {d : Dictionary} (hload : iniparserLoad front file = some (some d))
    (hp : Printable (dictionaryGet d)) (info : SyncInfo) :
    ∃ text, writeSyncConfig front flushed info file = some text ∧
      (readSyncConfig front (some text) = some info ↔
        dictionaryGet d (ascii "sync") ≠ none ∨ info = ⟨0, 0⟩) := by
  have hclean := fun kv hkv => (clean_syncValues info kv hkv).1
  by_cases hget : dictionaryGet d (ascii "sync") = none
  · -- without the section the entries are set, but not printed, and the defaults are read
    obtain ⟨text, hwrite, hsays⟩ :=
      writeConfig_lost hfront fileSection_sync hclean hload hp hget flushed
    have hread : readSyncConfig front (some text) = some ⟨0, 0⟩ := by
      obtain ⟨d', hload', hmap⟩ := hsays
      have hnone : ∀ key, sectionOf key = ascii "sync" → isSection key ≠ true →
          dictionaryGet d' key = none := by
        intro key howner hsection
        rw [hmap, reload, howner, if_neg]
        rintro ⟨-, h | h⟩
        · exact hsection h
        · exact h hget
      have hprocess : dictionaryGet d' (strlwc (ascii "sync:syncprocess")) = none :=
        hnone _ (by decide) (by decide)
      have htime : dictionaryGet d' (strlwc (ascii "sync:timestamp")) = none :=
        hnone _ (by decide) (by decide)
      rw [readSyncConfig, hload']
      dsimp only
      rw [iniparserGetint, iniparserGetstring, hprocess, iniparserGetint, iniparserGetstring, htime]
      rfl
    refine ⟨text, hwrite, ?_⟩
    rw [hread, Option.some.injEq]
    exact ⟨fun h => .inr h.symm, fun h => (h.resolve_left (not_not.mpr hget)).symm⟩
  · -- with it they come back
    obtain ⟨text, hwrite, hsays⟩ := exists_written hfront fileSection_sync hclean
      (.inr ⟨d, hload, hp, hget⟩) flushed
    exact ⟨text, hwrite, iff_of_true (says_readSyncConfig hsays) (.inl hget)⟩

omit hfront in
/-- A file with another section. -/
theorem sync_read_iff_other : ∃ d text,
    iniparserLoad (fun _ => 0) (some (newConfig (ascii "curModule") [(ascii "name", ascii "a")])) =
      some (some d) ∧
    writeSyncConfig (fun _ => 0) id ⟨1, 5⟩
      (some (newConfig (ascii "curModule") [(ascii "name", ascii "a")])) = some text ∧
    (readSyncConfig (fun _ => 0) (some text) = some ⟨1, 5⟩ ↔
      dictionaryGet d (ascii "sync") ≠ none ∨ (⟨1, 5⟩ : SyncInfo) = ⟨0, 0⟩) := by
  have hvalues : ∀ kv ∈ [(ascii "name", ascii "a")],
      CleanEntry ((ascii "curModule").map tolower) kv.1 kv.2 :=
    List.forall_mem_singleton.mpr (cleanEntry_of_short cleanKey_name
      (cleanValue_of_graphic (by decide)) (by decide) (by decide) (by decide))
  obtain ⟨d, hload, hget⟩ := says_newConfig (fun _ => 0) fileSection_curModule.written hvalues
  -- what was loaded has its section, so it can be printed
  have hp : Printable (dictionaryGet d) := by
    rw [hget]
    refine printable_assignAll fileSection_curModule.isSection ?_ hvalues
      (printable_section fileSection_curModule.lower fileSection_curModule.isSection)
    rw [Function.update_self]
    exact Option.some_ne_none _
  obtain ⟨text, h⟩ := sync_read_iff (fun _ => by decide) id hload hp ⟨1, 5⟩
  exact ⟨d, text, hload, h⟩

/-- **So does the name of the current module**, if it is one that comes back. -/
theorem module_saved (hkept : Kept front (ascii "curModule") file) {names : List (List Byte)}
    (hnames : ∀ name ∈ names, CleanValue name ∧ name.length ≤ 255) :
    ∃ file', runAll (fun name f => (writeCurModuleName front flushed name f).map some) names file =
        some file' ∧
      ∀ name, names.getLast? = some name → readCurModuleName front file' = some (.ok name) ∧
        ∃ m, Says front file' m ∧ ∀ key, key ≠ ascii "curmodule:name" →
          m key = stored front (ascii "curModule") file key := by
  -- a name is one clean value
  have hvalues : ∀ name ∈ names, ∀ kv ∈ [(ascii "name", name)],
      CleanEntry ((ascii "curModule").map tolower) kv.1 kv.2 ∧ kv.1 ∈ [ascii "name"] := by
    intro name hname kv hkv
    obtain ⟨hclean, hlen⟩ := hnames name hname
    obtain rfl := List.mem_singleton.mp hkv
    exact ⟨cleanEntry_of_short cleanKey_name hclean (by decide)
      (show (ascii "name").length ≤ 100 by decide) (show name.length ≤ 1000 by omega),
      List.mem_cons_self⟩
  obtain ⟨file', hrun, hother, hlast⟩ :=
    writes_run hfront fileSection_curModule hvalues flushed hkept
  refine ⟨file', hrun, fun name hname => ?_⟩
  obtain ⟨base, hsays, hstored⟩ := hlast name hname
  refine ⟨?_, _, hsays, fun key hkey => ?_⟩
  · obtain ⟨d, hload, hget⟩ := hsays
    have hvalue : dictionaryGet d (strlwc (ascii "curModule:name")) = some (some name) := by
      rw [hget, hstored]
      rfl
    rw [readCurModuleName, hload]
    dsimp only
    rw [iniparserGetstring, hvalue]
    rfl
  · refine hother key fun k hk => ?_
    obtain rfl := List.mem_singleton.mp hk
    exact hkey

omit hfront in
/-- Two names, on a file with other entries. -/
theorem module_saved_panel : ∃ file file' m', Says (fun _ => 0) (some file)
      (twoSections (ascii "curModule") (ascii "name") (ascii "old")) ∧
    runAll (fun name f => (writeCurModuleName (fun _ => 0) id name f).map some)
      [ascii "box", ascii "panel"] (some file) = some file' ∧
    readCurModuleName (fun _ => 0) file' = some (.ok (ascii "panel")) ∧
    Says (fun _ => 0) file' m' ∧ m' (ascii "other:k") = some (some (ascii "v")) := by
  have hzero : (0 : Byte) ≠ backslash := by decide
  have hentry : CleanEntry ((ascii "curModule").map tolower) (ascii "name") (ascii "old") :=
    cleanEntry_of_short cleanKey_name (cleanValue_of_graphic (by decide)) (by decide) (by decide)
      (by decide)
  -- the file as it is before, with another section in it
  obtain ⟨file, hsays, hkept, hstored⟩ :=
    @exists_twoSections (fun _ => 0) (fun _ => hzero) _ _ _ fileSection_curModule hentry
      (by decide)
  have hnames : ∀ name ∈ [ascii "box", ascii "panel"], CleanValue name ∧ name.length ≤ 255 := by
    rw [List.forall_mem_cons, List.forall_mem_singleton]
    exact ⟨⟨cleanValue_of_graphic (by decide), by decide⟩, cleanValue_of_graphic (by decide),
      by decide⟩
  obtain ⟨file', hrun, hlast⟩ := module_saved (fun _ => hzero) id hkept hnames
  obtain ⟨hread, m', hsays', hrest⟩ := hlast (ascii "panel") rfl
  refine ⟨file, file', m', hsays, hrun, hread, hsays', ?_⟩
  -- the other entry is not the name
  rw [hrest _ (by decide), hstored]
  decide

end Files

end PgClient.Ini
