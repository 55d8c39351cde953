import Mathlib.Data.List.DropRight
import PgClient.Ini.Dictionary
import PgClient.Lib.ConsumingLoop
import PgClient.Server.GammaText

/-!
# Configuration files

`iniparser.c`: a file is read line by line into a dictionary, where a section is a key without a
value, and an entry has a key with the section and a colon in front. A line is at most as long as
the buffer, and ends with a line feed; one that ends with a backslash goes on in the next one.
-/

namespace PgClient.Ini

open Text
open Server.GammaText (isSpace)
open scoped Numerals

def lf : Byte := 0x0a
def cr : Byte := 0x0d
def backslash : Byte := 0x5c
def dquote : Byte := 0x22
def squote : Byte := 0x27
def colon : Byte := 0x3a
def equals : Byte := 0x3d

/-- `ASCIILINESZ`. -/
def asciiLineSz : Nat := 1024 * 4

/-! ## Lines -/

def strlwc (s : List Byte) : List Byte := (s.take asciiLineSz).map tolower

def strstrip (s : List Byte) : List Byte := (s.dropWhile isSpace).rdropWhile isSpace

/-- A `%[`-directive of `sscanf`: at least one character. -/
def scanset (p : Byte → Bool) (s : List Byte) : Option (List Byte × List Byte) :=
  if s.takeWhile p = [] then none else some (s.takeWhile p, s.dropWhile p)

/-- A blank and a character in a format of `sscanf`. -/
def literal (c : Byte) (s : List Byte) : Option (List Byte) :=
  match s.dropWhile isSpace with
  | [] => none
  | d :: rest => if d = c then some rest else none

/-- Both matches of `%[^=] = "%[^"]"`, or of the same with the other quotes. -/
def scanQuoted (q : Byte) (line : List Byte) : Option (List Byte × List Byte) := do
  let (key, s) ← scanset (· ≠ equals) line
  let s ← literal equals s
  let s ← literal q s
  let (value, _) ← scanset (· ≠ q) s
  some (key, value)

/-- Both matches of `%[^=] = %[^;#]`. -/
def scanPlain (line : List Byte) : Option (List Byte × List Byte) := do
  let (key, s) ← scanset (· ≠ equals) line
  let s ← literal equals s
  let (value, _) ← scanset (fun c => c ≠ ch ';' && c ≠ ch '#') (s.dropWhile isSpace)
  some (key, value)

/-- The key of `%[^=] = %[;#]`, if both match, or that of `%[^=] %[=]`. -/
def scanBare (line : List Byte) : Option (List Byte) := do
  let (key, s) ← scanset (· ≠ equals) line
  let commented := do
    let s ← literal equals s
    scanset (fun c => c = ch ';' || c = ch '#') (s.dropWhile isSpace)
  if commented.isSome || (scanset (· = equals) (s.dropWhile isSpace)).isSome then some key else none

/-- The match of `[%[^]]`. -/
def scanSection : List Byte → Option (List Byte)
  | [] => none
  | c :: s => if c = ch '[' then (scanset (· ≠ ch ']') s).map Prod.fst else none

/-- `line_status`, with what is stored. -/
inductive Line
  | error
  | empty
  | comment
  | sectionLine (name : List Byte)
  | valueLine (key value : List Byte)
  deriving DecidableEq

/-- `iniparser_line`. A name of a section that does not match leaves the one before. -/
def iniparserLine (inputLine section_ : List Byte) : Line :=
  let line := strstrip inputLine
  if line = [] then .empty
  else if line.head? = some (ch '#') then .comment
  else if line.head? = some (ch '[') ∧ line.getLast? = some (ch ']') then
    .sectionLine (strlwc (strstrip ((scanSection line).getD section_)))
  else
    match (scanQuoted dquote line).or ((scanQuoted squote line).or (scanPlain line)) with
    | some (key, value) =>
      let value := strstrip value
      .valueLine (strlwc (strstrip key))
        (if value = [dquote, dquote] ∨ value = [squote, squote] then [] else value)
    | none =>
      match scanBare line with
      | some key => .valueLine (strlwc (strstrip key)) []
      | none => .error

/-! ## `iniparser_load` -/

/-- `fgets` with room for a character. -/
def fgets (size : Nat) (input : List Byte) : Option (List Byte × List Byte) :=
  if input = [] ∨ size < 2 then none
  else
    let chunk := input.take (size - 1)
    let n := if lf ∈ chunk then chunk.idxOf lf + 1 else chunk.length
    some (input.take n, input.drop n)

/-- The variables of the loop. -/
structure LoadState where
  input : List Byte
  lineno : Nat
  /-- `line` in front of `last`. -/
  line : List Byte
  section_ : List Byte
  dict : Dictionary
  errs : Nat

/-- After a line: `line` is empty again. -/
def LoadState.next (s : LoadState) (input : List Byte) : LoadState :=
  { s with input := input, lineno := s.lineno + 1, line := [] }

/-- `dictionary_set`, and the value of `errs`. -/
def LoadState.set (s : LoadState) (key : List Byte) (val : Option (List Byte)) :
    LoadState ⊕ Option (Option Dictionary) :=
  match dictionarySet s.dict key val with
  | some dict => .inl { s with dict := dict, errs := 0 }
  | none => .inr none

/-- The branches for a line. `tmp` has the size of `line`. -/
def loadLine (s : LoadState) : Line → LoadState ⊕ Option (Option Dictionary)
  | .empty => .inl s
  | .comment => .inl s
  | .sectionLine name => { s with section_ := name }.set name none
  | .valueLine key value =>
    if asciiLineSz < (s.section_ ++ colon :: key).length then .inr none
    else s.set (s.section_ ++ colon :: key) (some value)
  | .error => .inl { s with errs := s.errs + 1 }

/-- A turn of the loop, where `front` is what is in memory in front of `line`: an empty line is
looked at there. The result is NULL or a dictionary; it is `none` where the code reads a line to in
front of `line`, or writes behind `tmp`. -/
def loadTurn (front : Nat → Byte) (s : LoadState) : LoadState ⊕ Option (Option Dictionary) :=
  match fgets (asciiLineSz - s.line.length) s.input with
  | none => .inr (some (if s.errs = 0 then some s.dict else none))
  | some (chunk, input) =>
    let line := cstr (s.line ++ chunk)
    if line.getLastD (front s.lineno) ≠ lf then .inr (some none)
    else
      let line := line.rdropWhile isSpace
      if line.getLastD (front s.lineno) = backslash then
        if line = [] ∧ input ≠ [] then .inr none
        else .inl { s with input := input, lineno := s.lineno + 1, line := line.dropLast }
      else loadLine (s.next input) (iniparserLine line s.section_)

/-- `fgets` takes something from the input. -/
theorem fgets_lt {size : Nat} {input chunk rest : List Byte}
    (h : fgets size input = some (chunk, rest)) : rest.length < input.length := by
  unfold fgets at h
  -- a line feed inside, or all that fits
  split at h
  · cases h
  · next hroom =>
    obtain ⟨hne, hsize⟩ := not_or.mp hroom
    have hpos := List.length_pos_of_ne_nil hne
    cases h
    rw [List.length_drop]
    split
    · omega
    · rw [List.length_take]
      omega

/-- Setting an entry reads nothing. -/
theorem LoadState.set_input {s s' : LoadState} {key : List Byte} {val : Option (List Byte)}
    (h : s.set key val = .inl s') : s'.input = s.input := by
  unfold LoadState.set at h
  split at h
  · cases h
    rfl
  · cases h

/-- Neither does a line once it is read. -/
theorem loadLine_input {s s' : LoadState} {l : Line} (h : loadLine s l = .inl s') :
    s'.input = s.input := by
  cases l with
  | error => cases h; rfl
  | empty => cases h; rfl
  | comment => cases h; rfl
  | sectionLine name => exact LoadState.set_input (s := { s with section_ := name }) h
  | valueLine key value =>
    rw [loadLine] at h
    split at h
    · cases h
    · exact LoadState.set_input h

/-- The loop of `iniparser_load`: every turn takes a line. -/
def loadLoop (front : Nat → Byte) : ConsumingLoop LoadState (Option (Option Dictionary)) where
  turn := loadTurn front
  size s := s.input.length
  consumes := by
    intro s s' h
    unfold loadTurn at h
    split at h
    · cases h
    · next chunk rest hget =>
      have hlt := fgets_lt hget
      dsimp only at h
      split at h
      · cases h
      · split at h
        · split at h
          · cases h
          · cases h
            exact hlt
        · rw [loadLine_input h]
          exact hlt

/-- `iniparser_load`, of a file that is there or is not. -/
def iniparserLoad (front : Nat → Byte) (file : Option (List Byte)) : Option (Option Dictionary) :=
  match file with
  | none => some none
  | some input => (loadLoop front).run ⟨input, 0, [], [], dictionaryNew 0, 0⟩

/-! ## `iniparser_dump_ini` -/

/-- A key without a colon. -/
def isSection (key : List Byte) : Bool := colon ∉ key

def iniparserGetnsec (d : Dictionary) : Nat := d.keys.countP isSection

def iniparserGetsecname (d : Dictionary) (n : Nat) : Option (List Byte) :=
  (d.keys.filter isSection)[n]?

/-- `%-30s`. -/
def padRight (s : List Byte) : List Byte := s ++ List.replicate (30 - s.length) 0x20

/-- The inner loop, with `keym`. -/
def dumpEntries (keym : List Byte) (slots : List Slot) : List Byte :=
  slots.flatMap fun s =>
    match s.key with
    | none => []
    | some key =>
      if keym.isPrefixOf key then
        padRight (key.drop keym.length) ++ equals :: s.val.getD [] ++ [cr, lf]
      else []

/-- A turn of the outer loop. -/
def dumpSection (d : Dictionary) (secname : List Byte) : List Byte :=
  [cr, lf] ++ ch '[' :: secname ++ [ch ']', cr, lf] ++ dumpEntries (secname ++ [colon]) d.slots

/-- What `iniparser_dump_ini` prints, and whether it closes the file; `none` is a name that `keym`
has no room for. -/
def iniparserDumpIni (d : Dictionary) : Option (List Byte × Bool) :=
  if iniparserGetnsec d < 1 then
    some (d.slots.flatMap fun s =>
      match s.key with
      | none => []
      | some key => key ++ equals :: s.val.getD (ascii "(null)") ++ [cr, lf], false)
  else do
    let sections ← (List.range (iniparserGetnsec d)).mapM fun i => do
      let secname ← iniparserGetsecname d i
      if asciiLineSz < secname.length + 1 then none else some (dumpSection d secname)
    some (sections.flatten ++ [cr, lf], true)

/-! ## The values -/

/-- `iniparser_getstring`: `none` is `def`. -/
def iniparserGetstring (d : Dictionary) (key : List Byte) : Option (Option (List Byte)) :=
  dictionaryGet d (strlwc key)

/-- `iniparser_set`. -/
def iniparserSet (d : Dictionary) (entry : List Byte) (val : Option (List Byte)) :
    Option Dictionary := dictionarySet d (strlwc entry) val

end PgClient.Ini
