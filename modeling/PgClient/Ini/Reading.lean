import PgClient.Ini.RoundTrip

/-!
# What a configuration file says

The loop of `iniparser_load` counts the lines that it cannot read, and a line that sets something
overwrites the count with what `dictionary_set` returned.

* `Reading` — a file as a fold over its lines, without buffers or slots.
* `load_lines` — the code reads a file of ordinary lines so. It is rejected if and only if nothing
  is set behind its last error, or its last line does not end.
-/

namespace PgClient.Ini

open Text
open Function (update)
open Server.GammaText (isSpace)

/-! ## Lines, one after the other -/

/-- What the lines so far come to. -/
structure Reading where
  section_ : List Byte
  map : Map
  /-- There was an error, and nothing is set behind it. -/
  failed : Bool

/-- In front of the first line. -/
def Reading.start : Reading := ⟨[], fun _ => none, false⟩

def Reading.line (r : Reading) : Line → Reading
  | .error => { r with failed := true }
  | .empty => r
  | .comment => r
  | .sectionLine name => ⟨name, update r.map name (some none), false⟩
  | .valueLine key value =>
    ⟨r.section_, update r.map (r.section_ ++ colon :: key) (some (some value)), false⟩

def Reading.next (r : Reading) (l : List Byte) : Reading :=
  r.line (iniparserLine (l.rdropWhile isSpace) r.section_)

/-- The lines of a file. -/
def readLines (lines : List (List Byte)) : Reading := lines.foldl Reading.next .start

/-- Lines that all end. -/
def textOf (lines : List (List Byte)) : List Byte := lines.flatMap (· ++ [lf])

/-- A line that does not go on in the next one, and of which `tmp` has room for two. -/
structure Ordinary (l : List Byte) : Prop where
  plain : Plain l
  lf : lf ∉ l
  room : 2 * l.length < asciiLineSz
  last : (l.rdropWhile isSpace).getLast? ≠ some backslash

/-! ## Names are no longer than their lines -/

/-- Stripping makes a text no longer. -/
theorem length_strstrip_le (s : List Byte) : (strstrip s).length ≤ s.length :=
  (List.rdropWhile_prefix isSpace (s.dropWhile isSpace)).length_le.trans
    (List.dropWhile_sublist isSpace).length_le

/-- Neither does lowering it. -/
theorem length_strlwc_le (s : List Byte) : (strlwc s).length ≤ s.length := by
  rw [strlwc, List.length_map, List.length_take]
  omega

/-- A name is no longer than what it was made from. -/
theorem length_name_le (s : List Byte) : (strlwc (strstrip s)).length ≤ s.length :=
  (length_strlwc_le _).trans (length_strstrip_le s)

/-- What a scan set matches is no longer than its input. -/
theorem length_scanset_le {p : Byte → Bool} {s m rest : List Byte}
    (h : scanset p s = some (m, rest)) : m.length ≤ s.length := by
  unfold scanset at h
  split at h
  · cases h
  · cases h
    exact (List.takeWhile_sublist p).length_le

/-- The key is what is in front of the first `=`, whatever it is that matches behind it. -/
theorem length_scanQuoted_le {q : Byte} {line key value : List Byte}
    (h : scanQuoted q line = some (key, value)) : key.length ≤ line.length := by
  obtain ⟨⟨k, s⟩, hkey, h⟩ := Option.bind_eq_some_iff.mp h
  obtain ⟨s', -, h⟩ := Option.bind_eq_some_iff.mp h
  obtain ⟨s'', -, h⟩ := Option.bind_eq_some_iff.mp h
  obtain ⟨⟨v, t⟩, -, h⟩ := Option.bind_eq_some_iff.mp h
  cases h
  exact length_scanset_le hkey

/-- The key of a plain entry is no longer than its line. -/
theorem length_scanPlain_le {line key value : List Byte} (h : scanPlain line = some (key, value)) :
    key.length ≤ line.length := by
  obtain ⟨⟨k, s⟩, hkey, h⟩ := Option.bind_eq_some_iff.mp h
  obtain ⟨s', -, h⟩ := Option.bind_eq_some_iff.mp h
  obtain ⟨⟨v, t⟩, -, h⟩ := Option.bind_eq_some_iff.mp h
  cases h
  exact length_scanset_le hkey

/-- The key of an entry without a value is no longer than its line. -/
theorem length_scanBare_le {line key : List Byte} (h : scanBare line = some key) :
    key.length ≤ line.length := by
  obtain ⟨⟨k, s⟩, hkey, h⟩ := Option.bind_eq_some_iff.mp h
  dsimp only at h
  split at h
  · cases h
    exact length_scanset_le hkey
  · cases h

/-- The name of a section is no longer than its line. -/
theorem length_scanSection_le {line name : List Byte} (h : scanSection line = some name) :
    name.length ≤ line.length := by
  cases line with
  | nil => cases h
  | cons c s =>
    rw [scanSection] at h
    split at h
    · obtain ⟨⟨m, rest⟩, hname, rfl⟩ := Option.map_eq_some_iff.mp h
      exact (length_scanset_le hname).trans (Nat.le_succ _)
    · cases h

/-- A name of a section, or the one before. -/
theorem length_section_le {inputLine section_ name : List Byte} {n : Nat}
    (hline : inputLine.length ≤ n) (hsection : section_.length ≤ n)
    (h : iniparserLine inputLine section_ = .sectionLine name) : name.length ≤ n := by
  have hstrip := length_strstrip_le inputLine
  unfold iniparserLine at h
  dsimp only at h
  split at h
  · cases h
  · split at h
    · cases h
    · split at h
      · cases h
        -- without a name in the brackets the section stays the one before
        refine (length_name_le _).trans ?_
        cases hscan : scanSection (strstrip inputLine) with
        | none => exact hsection
        | some name => exact (length_scanSection_le hscan).trans (hstrip.trans hline)
      · -- a line without a bracket is no section
        split at h
        · cases h
        · split at h <;> cases h

/-- So no key is longer than its line. -/
theorem length_key_le {inputLine section_ key value : List Byte}
    (h : iniparserLine inputLine section_ = .valueLine key value) :
    key.length ≤ inputLine.length := by
  have hstrip := length_strstrip_le inputLine
  unfold iniparserLine at h
  dsimp only at h
  split at h
  · cases h
  · split at h
    · cases h
    · split at h
      · cases h
      · split at h
        · -- a quoted value is tried first, then a plain one
          next k v hscan =>
          cases h
          refine (length_name_le k).trans (le_trans ?_ hstrip)
          rcases Option.or_eq_some_iff.mp hscan with hq | ⟨-, hscan⟩
          · exact length_scanQuoted_le hq
          · rcases Option.or_eq_some_iff.mp hscan with hq | ⟨-, hp⟩
            · exact length_scanQuoted_le hq
            · exact length_scanPlain_le hp
        · split at h
          · -- a key without a value
            next k hscan =>
            cases h
            exact (length_name_le k).trans ((length_scanBare_le hscan).trans hstrip)
          · cases h

/-! ## The loop follows the lines -/

section Follow

variable {front : Nat → Byte} {s : LoadState} {r : Reading} {input rest : List Byte}

/-- The loop is in front of `input`, and has read the lines of `r`. -/
structure Follows (s : LoadState) (input : List Byte) (r : Reading) : Prop where
  input : s.input = input
  line : s.line = []
  section_ : s.section_ = r.section_
  valid : Valid s.dict
  get : dictionaryGet s.dict = r.map
  errs : 0 < s.errs ↔ r.failed = true
  room : 2 * s.section_.length < asciiLineSz

/-- Setting an entry follows the line that has it. -/
theorem Follows.set (h : Follows s input r) {section_ key : List Byte} {val : Option (List Byte)}
    (hroom : 2 * section_.length < asciiLineSz) :
    ∃ s', { s with section_ := section_ }.set key val = .inl s' ∧
      Follows s' input ⟨section_, update r.map key (some val), false⟩ := by
  obtain ⟨d', hset, hvalid, hget⟩ := set_spec h.valid key val
  refine ⟨{ s with section_ := section_, dict := d', errs := 0 }, ?_,
    ⟨h.input, h.line, rfl, hvalid, ?_, by simp, hroom⟩⟩
  · rw [LoadState.set, hset]
  · funext key'
    rw [hget, h.get]
    exact (Function.update_apply r.map key (some val) key').symm

/-- A line, other than that it was one. -/
theorem Follows.step (h : Follows s input r) {l : List Byte} (hl : 2 * l.length < asciiLineSz) :
    ∃ s', loadLine s (iniparserLine l s.section_) = .inl s' ∧
      Follows s' input (r.line (iniparserLine l r.section_)) := by
  have hsection := h.room
  rw [h.section_] at hsection ⊢
  cases hline : iniparserLine l r.section_ with
  | error =>
    exact ⟨_, rfl, h.input, h.line, h.section_, h.valid, h.get, by simp [Reading.line], h.room⟩
  | empty => exact ⟨_, rfl, h⟩
  | comment => exact ⟨_, rfl, h⟩
  | sectionLine name =>
    have hname : name.length ≤ max l.length r.section_.length :=
      length_section_le (Nat.le_max_left _ _) (Nat.le_max_right _ _) hline
    exact h.set (by omega)
  | valueLine key value =>
    have hkey := length_key_le hline
    -- the section was a line too, so that both fit the temporary key
    have hroom : ¬asciiLineSz < (s.section_ ++ colon :: key).length := by
      rw [h.section_, List.length_append, List.length_cons]
      omega
    obtain ⟨s', hset, hs'⟩ : ∃ s', s.set (s.section_ ++ colon :: key) (some value) = .inl s' ∧
        Follows s' input ⟨s.section_, update r.map (s.section_ ++ colon :: key) (some (some value)),
          false⟩ := h.set h.room
    refine ⟨s', ?_, ?_⟩
    · rw [loadLine, if_neg hroom]
      exact hset
    · rw [h.section_] at hs'
      exact hs'

/-- A turn of the loop. -/
theorem Follows.next {l : List Byte} (hl : Ordinary l) (hfront : ∀ n, front n ≠ backslash)
    (h : Follows s (l ++ lf :: rest) r) :
    ∃ s', loadTurn front s = .inl s' ∧ Follows s' rest (r.next l) := by
  have hroom := hl.room
  -- no continuation: what is left of the line does not end in a backslash
  have hlast : (l.rdropWhile isSpace).getLastD (front s.lineno) ≠ backslash := by
    rw [List.getLastD_eq_getLast?]
    cases hget : (l.rdropWhile isSpace).getLast? with
    | none => exact hfront s.lineno
    | some c =>
      rintro rfl
      exact hl.last hget
  have hturn := loadTurn_line front h.line h.input hl.plain hl.lf
    (by have : asciiLineSz = 4096 := rfl; omega) hlast
  have hnext : Follows (s.next rest) rest r :=
    ⟨rfl, rfl, h.section_, h.valid, h.get, h.errs, h.room⟩
  have hstrip : (l.rdropWhile isSpace).length ≤ l.length :=
    (List.rdropWhile_prefix isSpace l).length_le
  rw [hturn]
  exact hnext.step (by omega)

/-- All of the lines. -/
theorem Follows.lines (hfront : ∀ n, front n ≠ backslash) {lines : List (List Byte)}
    (hlines : ∀ l ∈ lines, Ordinary l) (h : Follows s (textOf lines ++ rest) r) :
    ∃ s', (loadLoop front).run s = (loadLoop front).run s' ∧
      Follows s' rest (lines.foldl Reading.next r) := by
  -- the induction is on the lines, each of which is one turn of the loop
  induction lines generalizing s r with
  | nil => exact ⟨s, rfl, h⟩
  | cons l lines ih =>
    have hinput : Follows s (l ++ lf :: (textOf lines ++ rest)) r := by
      have htext : textOf (l :: lines) ++ rest = l ++ lf :: (textOf lines ++ rest) := by
        simp [textOf]
      rwa [htext] at h
    obtain ⟨s', hturn, hs'⟩ := hinput.next (hlines l List.mem_cons_self) hfront
    obtain ⟨t, hrun, ht⟩ := ih (fun l hl => hlines l (List.mem_cons_of_mem _ hl)) hs'
    exact ⟨t, (ConsumingLoop.run_of_inl hturn).trans hrun, ht⟩

/-- At the end of the file. -/
theorem Follows.done (h : Follows s [] r) :
    ∃ d, (loadLoop front).run s = some (if r.failed then none else some d) ∧
      dictionaryGet d = r.map := by
  refine ⟨s.dict, ConsumingLoop.run_of_inr ?_, h.get⟩
  show loadTurn front s = _
  -- `fgets` finds nothing
  have hend : loadTurn front s = .inr (some (if s.errs = 0 then some s.dict else none)) := by
    rw [loadTurn, h.input]
    rfl
  rw [hend]
  have herrs := h.errs
  cases hfailed : r.failed with
  | true =>
    have hpos := herrs.mpr hfailed
    rw [if_neg (by omega), if_pos rfl]
  | false =>
    have hzero : ¬0 < s.errs := fun hpos => by
      rw [herrs.mp hpos] at hfailed
      cases hfailed
    rw [if_pos (by omega), if_neg (by decide)]

/-- A last line that does not end is taken for one that is too long. -/
theorem Follows.unfinished (h : Follows s rest r) (hplain : Plain rest) (hlf : lf ∉ rest)
    (hne : rest ≠ []) : (loadLoop front).run s = some none := by
  have hpos : ¬(rest = [] ∨ asciiLineSz < 2) := not_or.mpr ⟨hne, by decide⟩
  -- `fgets` fills the buffer or takes all that is left; either way there is no line feed
  obtain ⟨chunk, hchunk⟩ : ∃ chunk, chunk = rest.take (asciiLineSz - 1) := ⟨_, rfl⟩
  have hsub : ∀ c ∈ chunk, c ∈ rest := fun c hc => List.mem_of_mem_take (hchunk ▸ hc)
  have hnil : chunk ≠ [] := by
    rw [hchunk, Ne, List.take_eq_nil_iff, not_or]
    exact ⟨by decide, hne⟩
  have htake : rest.take chunk.length = chunk :=
    (List.prefix_iff_eq_take.mp (hchunk ▸ List.take_prefix _ rest)).symm
  have hget : fgets (asciiLineSz - s.line.length) s.input =
      some (chunk, rest.drop chunk.length) := by
    rw [h.line, h.input, List.length_nil, Nat.sub_zero, fgets, if_neg hpos]
    dsimp only
    rw [← hchunk, if_neg (fun hmem => hlf (hsub lf hmem)), htake]
  have hlast : chunk.getLastD (front s.lineno) ≠ lf := by
    rw [List.getLastD_eq_getLast?, List.getLast?_eq_some_getLast hnil]
    exact fun heq => hlf (hsub lf (heq ▸ List.getLast_mem hnil))
  refine ConsumingLoop.run_of_inr ?_
  show loadTurn front s = _
  rw [loadTurn, hget]
  dsimp only
  rw [h.line, List.nil_append, cstr_of_plain (hplain.of_mem hsub), if_pos hlast]

end Follow

/-- The loop starts in front of the first line. -/
theorem follows_start (input : List Byte) :
    Follows ⟨input, 0, [], [], dictionaryNew 0, 0⟩ input .start :=
  have hroom : 2 * ([] : List Byte).length < asciiLineSz := by decide
  ⟨rfl, rfl, rfl, valid_new 0, funext fun key => get_new 0 key, by simp [Reading.start], hroom⟩

/-- **A configuration file is what its lines say.** -/
theorem load_lines {front : Nat → Byte} (hfront : ∀ n, front n ≠ backslash)
    {lines : List (List Byte)} (hlines : ∀ l ∈ lines, Ordinary l) :
    (∃ d, iniparserLoad front (some (textOf lines)) =
        some (if (readLines lines).failed then none else some d) ∧
      dictionaryGet d = (readLines lines).map) ∧
    ∀ tail, Plain tail → lf ∉ tail → tail ≠ [] →
      iniparserLoad front (some (textOf lines ++ tail)) = some none := by
  refine ⟨?_, fun tail hplain hlf hne => ?_⟩
  · -- every line is followed, and then the end of the file
    have hstart := follows_start (textOf lines)
    rw [← List.append_nil (textOf lines)] at hstart
    obtain ⟨s, hrun, hs⟩ := hstart.lines hfront hlines
    obtain ⟨d, hdone, hget⟩ := hs.done
    refine ⟨d, ?_, hget⟩
    rw [List.append_nil] at hrun
    exact hrun.trans hdone
  · obtain ⟨s, hrun, hs⟩ := (follows_start (textOf lines ++ tail)).lines hfront hlines
    exact hrun.trans (hs.unfinished hplain hlf hne)

/-- An error with an entry behind it. -/
theorem load_lines_error :
    (∃ d, iniparserLoad (fun _ => 0) (some (textOf [ascii "[a]", ascii "x", ascii "b = 1"])) =
        some (if (readLines [ascii "[a]", ascii "x", ascii "b = 1"]).failed then none else some d) ∧
      dictionaryGet d = (readLines [ascii "[a]", ascii "x", ascii "b = 1"]).map) ∧
    ∀ tail, Plain tail → lf ∉ tail → tail ≠ [] →
      iniparserLoad (fun _ => 0)
        (some (textOf [ascii "[a]", ascii "x", ascii "b = 1"] ++ tail)) = some none := by
  have hzero : (0 : Byte) ≠ backslash := by decide
  refine load_lines (fun _ => hzero) ?_
  rw [List.forall_mem_cons, List.forall_mem_cons, List.forall_mem_singleton]
  exact ⟨⟨by decide, by decide, by decide, by decide⟩, ⟨by decide, by decide, by decide, by decide⟩,
    by decide, by decide, by decide, by decide⟩

/-- It is read as if the line with the error were not there. -/
example : (readLines [ascii "[a]", ascii "x", ascii "b = 1"]).failed = false := by decide

end PgClient.Ini
