import PgClient.Ini.Parser

/-!
# Saved configurations

What `iniparser_load` reads of a file that `iniparser_dump_ini` printed.

* `Printable` — the dictionaries whose sections and entries survive.
* `load_dump` — they are read back, other than the entries that belong to no section.
-/

namespace PgClient.Ini

open Text
open Function (update)
open Server.GammaText (isSpace)

/-! ## Blanks -/

/-- No blanks at the ends. -/
def Stripped (s : List Byte) : Prop := s.dropWhile isSpace = s ∧ s.rdropWhile isSpace = s

/-- A stripped text stays as it is. -/
theorem Stripped.strstrip {s : List Byte} (h : Stripped s) : strstrip s = s := by
  rw [Ini.strstrip, h.1, h.2]

/-- A text begins with something else than a blank. -/
theorem Stripped.exists_cons {s : List Byte} (h : Stripped s) (hne : s ≠ []) :
    ∃ c t, s = c :: t ∧ isSpace c = false := by
  obtain ⟨c, t, rfl⟩ := List.exists_cons_of_ne_nil hne
  refine ⟨c, t, rfl, ?_⟩
  have hhead := List.dropWhile_eq_self_iff.mp h.1 (Nat.zero_lt_succ _)
  rwa [List.getElem_cons_zero, Bool.not_eq_true] at hhead

/-- Its last byte is no blank. -/
theorem Stripped.exists_concat {s : List Byte} (h : Stripped s) (hne : s ≠ []) :
    ∃ t c, s = t ++ [c] ∧ isSpace c = false := by
  refine ⟨s.dropLast, s.getLast hne, (List.dropLast_append_getLast hne).symm, ?_⟩
  have hlast := List.rdropWhile_eq_self_iff.mp h.2 hne
  rwa [Bool.not_eq_true] at hlast

/-- In front of another byte there are no blanks to drop. -/
theorem dropWhile_cons_of_false {c : Byte} (hc : isSpace c = false) (s : List Byte) :
    (c :: s).dropWhile isSpace = c :: s := by
  rw [List.dropWhile_cons_of_neg (by rw [hc]; exact Bool.false_ne_true)]

/-- Blanks at the end are dropped. -/
theorem rdropWhile_append {t : List Byte} (ht : ∀ c ∈ t, isSpace c = true) (s : List Byte) :
    (s ++ t).rdropWhile isSpace = s.rdropWhile isSpace := by
  rw [List.rdropWhile, List.reverse_append, List.dropWhile_append_of_pos]
  · rfl
  · intro c hc
    exact ht c (List.mem_reverse.mp hc)

/-- Neither are there any behind one. -/
theorem rdropWhile_concat_of_false {c : Byte} (hc : isSpace c = false) (s : List Byte) :
    (s ++ [c]).rdropWhile isSpace = s ++ [c] :=
  List.rdropWhile_concat_neg isSpace s c (by rw [hc]; exact Bool.false_ne_true)

/-- A name with blanks behind it. -/
def padded (n : Nat) (s : List Byte) : List Byte := s ++ List.replicate n 0x20

/-- `%-30s` is the text and blanks up to thirty. -/
theorem padRight_eq (s : List Byte) : padRight s = padded (30 - s.length) s := rfl

/-- Stripping takes these blanks off. -/
theorem Stripped.strstrip_padded {s : List Byte} (h : Stripped s) (hne : s ≠ []) (n : Nat) :
    Ini.strstrip (padded n s) = s := by
  obtain ⟨c, t, rfl, hc⟩ := h.exists_cons hne
  rw [Ini.strstrip, padded, List.cons_append, dropWhile_cons_of_false hc, ← List.cons_append,
    rdropWhile_append, h.2]
  intro d hd
  rw [List.eq_of_mem_replicate hd]
  rfl

/-! ## Names and values that survive -/

/-- A text without line feeds, and with no blanks at the ends. -/
structure Clean (s : List Byte) : Prop where
  plain : Plain s
  lf : lf ∉ s
  stripped : Stripped s

/-- The name of a section, as it may be written. -/
structure SectionName (name : List Byte) : Prop extends Clean name where
  ne_nil : name ≠ []
  bracket : ch ']' ∉ name
  length_le : name.length + 5 ≤ asciiLineSz

/-- The name of a section, as it is stored. -/
structure CleanName (name : List Byte) : Prop extends SectionName name where
  lower : name.map tolower = name

/-- The key of an entry, as it is printed. -/
structure CleanKey (key : List Byte) : Prop extends Clean key where
  lower : key.map tolower = key
  ne_nil : key ≠ []
  equals : equals ∉ key
  /-- It begins no comment and no section. -/
  head : key.head? ≠ some (ch '#') ∧ key.head? ≠ some (ch '[')

/-- A value: no comment begins in it, it is not quoted, and the line ends behind it. -/
structure CleanValue (value : List Byte) : Prop extends Clean value where
  comment : ch ';' ∉ value ∧ ch '#' ∉ value
  head : value.head? ≠ some dquote ∧ value.head? ≠ some squote
  last : value.getLast? ≠ some backslash

/-- A text in lower case stays as it is. -/
theorem strlwc_of_lower {s : List Byte} (hlen : s.length ≤ asciiLineSz) (hs : s.map tolower = s) :
    strlwc s = s := by
  rw [strlwc, List.take_of_length_le hlen, hs]

/-- A directive takes all up to a character that it does not match. -/
theorem scanset_append {p : Byte → Bool} {s : List Byte} (hs : ∀ c ∈ s, p c = true) (hne : s ≠ [])
    {c : Byte} (hc : p c = false) (rest : List Byte) :
    scanset p (s ++ c :: rest) = some (s, c :: rest) := by
  have hstop : ¬ p c = true := by rw [hc]; exact Bool.false_ne_true
  rw [scanset, List.takeWhile_append_of_pos hs, List.dropWhile_append_of_pos hs,
    List.takeWhile_cons_of_neg hstop, List.dropWhile_cons_of_neg hstop, List.append_nil, if_neg hne]

/-- A scan set matches all of a text of its bytes. -/
theorem scanset_all {p : Byte → Bool} {s : List Byte} (hs : ∀ c ∈ s, p c = true) (hne : s ≠ []) :
    scanset p s = some (s, []) := by
  rw [scanset, List.takeWhile_eq_self_iff.mpr hs, List.dropWhile_eq_nil_iff.mpr hs, if_neg hne]

/-- A literal that is there is taken. -/
theorem literal_cons {c : Byte} (hc : isSpace c = false) (s : List Byte) :
    literal c (c :: s) = some s := by
  rw [literal, dropWhile_cons_of_false hc]
  exact if_pos rfl

/-- A section is read. -/
theorem iniparserLine_section {name : List Byte} (h : SectionName name) (section_ : List Byte) :
    iniparserLine (ch '[' :: name ++ [ch ']']) section_ = .sectionLine (name.map tolower) := by
  -- a bracket is no blank: nothing is stripped
  have hstrip : strstrip (ch '[' :: name ++ [ch ']']) = ch '[' :: name ++ [ch ']'] := by
    rw [strstrip, List.cons_append, dropWhile_cons_of_false (by decide), ← List.cons_append,
      rdropWhile_concat_of_false (by decide)]
  have hscan : scanSection (ch '[' :: name ++ [ch ']']) = some name := by
    rw [List.cons_append, scanSection, if_pos rfl, scanset_append _ h.ne_nil (by decide)]
    · rfl
    · intro c hc
      exact decide_eq_true fun heq => h.bracket (heq ▸ hc)
  have hlen := h.length_le
  unfold iniparserLine
  dsimp only
  rw [hstrip, if_neg (by simp), if_neg (by rw [List.cons_append, List.head?_cons]; decide),
    if_pos ⟨rfl, List.getLast?_concat⟩, hscan, Option.getD_some, h.stripped.strstrip, strlwc,
    List.take_of_length_le (by omega)]

/-- No blanks at the end of an entry. -/
theorem CleanValue.rdropWhile_entry {value : List Byte} (h : CleanValue value) (key : List Byte) :
    (key ++ equals :: value).rdropWhile isSpace = key ++ equals :: value := by
  by_cases hne : value = []
  · rw [hne]
    exact rdropWhile_concat_of_false (by decide) _
  · obtain ⟨v, d, hd, hlast⟩ := h.stripped.exists_concat hne
    rw [hd, ← List.cons_append, ← List.append_assoc, rdropWhile_concat_of_false hlast]

section Entry

variable {key value : List Byte} (hkey : CleanKey key) (hvalue : CleanValue value) (n : Nat)
include hkey

/-- The key is all in front of the sign. -/
theorem scanset_padded (rest : List Byte) :
    scanset (· ≠ equals) (padded n key ++ equals :: rest) =
      some (padded n key, equals :: rest) := by
  refine scanset_append ?_ ?_ (by decide) rest
  · intro c hc
    rcases List.mem_append.mp hc with hc | hc
    · exact decide_eq_true fun heq => hkey.equals (heq ▸ hc)
    · rw [List.eq_of_mem_replicate hc]
      decide
  · exact List.append_ne_nil_of_left_ne_nil hkey.ne_nil _

/-- An entry without a value is scanned up to its sign. -/
theorem scanBare_padded : scanBare (padded n key ++ [equals]) = some (padded n key) := by
  rw [scanBare, scanset_padded hkey]
  rfl

include hvalue

/-- The value is not quoted. -/
theorem scanQuoted_padded {q : Byte} (hq : value.head? ≠ some q) :
    scanQuoted q (padded n key ++ equals :: value) = none := by
  have hliteral : literal q value = none := by
    rw [literal, hvalue.stripped.1]
    cases value with
    | nil => rfl
    | cons d rest => exact if_neg fun heq => hq (by rw [List.head?_cons, heq])
  have hsign : isSpace equals = false := by decide
  simp only [scanQuoted, scanset_padded hkey, Option.bind_eq_bind, Option.bind_some,
    literal_cons hsign, hliteral, Option.bind_none]

/-- An entry with one is scanned as key and value. -/
theorem scanPlain_padded :
    scanPlain (padded n key ++ equals :: value) =
      if value = [] then none else some (padded n key, value) := by
  have hsign : isSpace equals = false := by decide
  -- no comment begins in the value
  have hvalid : ∀ c ∈ value, (c ≠ ch ';' && c ≠ ch '#') = true := by
    intro c hc
    have hsemi : c ≠ ch ';' := fun heq => hvalue.comment.1 (heq ▸ hc)
    have hhash : c ≠ ch '#' := fun heq => hvalue.comment.2 (heq ▸ hc)
    simp [hsemi, hhash]
  simp only [scanPlain, scanset_padded hkey, Option.bind_eq_bind, Option.bind_some,
    literal_cons hsign, hvalue.stripped.1]
  split
  · next hnil =>
    rw [hnil]
    rfl
  · next hne => rw [scanset_all hvalid hne, Option.bind_some]

/-- Neither end of an entry is blank. -/
theorem strstrip_entry :
    strstrip (padded n key ++ equals :: value) = padded n key ++ equals :: value := by
  obtain ⟨c, t, hc, hblank⟩ := hkey.stripped.exists_cons hkey.ne_nil
  have hfront : (padded n key ++ equals :: value).dropWhile isSpace =
      padded n key ++ equals :: value := by
    rw [hc, padded, List.cons_append, List.cons_append, dropWhile_cons_of_false hblank]
  rw [strstrip, hfront, hvalue.rdropWhile_entry]

/-- An entry is read. -/
theorem iniparserLine_entry (hlen : key.length ≤ asciiLineSz) (section_ : List Byte) :
    iniparserLine (padded n key ++ equals :: value) section_ = .valueLine key value := by
  obtain ⟨c, t, hc, -⟩ := hkey.stripped.exists_cons hkey.ne_nil
  have hhead : (padded n key ++ equals :: value).head? = key.head? := by
    rw [hc]
    rfl
  -- the value is not one of the two empty strings in quotes
  have hquoted : value ≠ [dquote, dquote] ∧ value ≠ [squote, squote] :=
    ⟨fun heq => hvalue.head.1 (by rw [heq]; rfl), fun heq => hvalue.head.2 (by rw [heq]; rfl)⟩
  have hstored : strlwc (strstrip (padded n key)) = key := by
    rw [hkey.stripped.strstrip_padded hkey.ne_nil, strlwc_of_lower hlen hkey.lower]
  unfold iniparserLine
  dsimp only
  rw [strstrip_entry hkey hvalue, hhead, if_neg (by simp), if_neg hkey.head.1,
    if_neg fun h => hkey.head.2 h.1, scanQuoted_padded hkey hvalue n hvalue.head.1,
    scanQuoted_padded hkey hvalue n hvalue.head.2, scanPlain_padded hkey hvalue]
  -- without a value only the scan for a bare key is left
  by_cases hne : value = []
  · rw [if_pos hne, hne, scanBare_padded hkey]
    exact congrArg (fun k => Line.valueLine k []) hstored
  · rw [if_neg hne]
    show Line.valueLine _ _ = _
    rw [hstored, hvalue.stripped.strstrip, if_neg (not_or.mpr hquoted)]

end Entry

/-! ## Lines of a file -/

/-- A line that the buffer has room for. -/
theorem fgets_line {l : List Byte} (hl : lf ∉ l) (hlen : l.length + 1 < asciiLineSz)
    (rest : List Byte) : fgets asciiLineSz (l ++ lf :: rest) = some (l ++ [lf], rest) := by
  -- the line feed is in the part that is looked at
  obtain ⟨k, hk⟩ : ∃ k, asciiLineSz - 1 - l.length = k + 1 :=
    ⟨asciiLineSz - 2 - l.length, by omega⟩
  have hchunk : (l ++ lf :: rest).take (asciiLineSz - 1) = l ++ lf :: rest.take k := by
    rw [List.take_append, List.take_of_length_le (by omega), hk, List.take_succ_cons]
  have hidx : (l ++ lf :: rest.take k).idxOf lf = l.length := by
    rw [List.idxOf_append_of_notMem hl, List.idxOf_cons_self, Nat.add_zero]
  have hmem : lf ∈ l ++ lf :: rest.take k := List.mem_append_right _ List.mem_cons_self
  have hroom : ¬(l ++ lf :: rest = [] ∨ asciiLineSz < 2) := by
    rw [not_or]
    exact ⟨List.append_ne_nil_of_right_ne_nil _ (List.cons_ne_nil _ _), by decide⟩
  unfold fgets
  rw [if_neg hroom]
  dsimp only
  rw [hchunk, if_pos hmem, hidx]
  have hsplit : l ++ lf :: rest = (l ++ [lf]) ++ rest := by simp
  have hlength : l.length + 1 = (l ++ [lf]).length := by simp
  rw [hsplit, hlength, List.take_left, List.drop_left]

section Lines

variable (front : Nat → Byte) {s : LoadState} {rest : List Byte}

/-- A turn of the loop on a line that does not go on. -/
theorem loadTurn_line {l : List Byte} (hline : s.line = []) (hinput : s.input = l ++ lf :: rest)
    (hplain : Plain l) (hl : lf ∉ l) (hlen : l.length + 1 < asciiLineSz)
    (hback : (l.rdropWhile isSpace).getLastD (front s.lineno) ≠ backslash) :
    loadTurn front s = loadLine (s.next rest) (iniparserLine (l.rdropWhile isSpace) s.section_) := by
  have hcstr : cstr (l ++ [lf]) = l ++ [lf] :=
    cstr_of_plain (hplain.append (.cons (by decide) plain_nil))
  -- the line feed is stripped with the other blanks
  have hstrip : (l ++ [lf]).rdropWhile isSpace = l.rdropWhile isSpace :=
    List.rdropWhile_concat_pos isSpace l lf (by decide)
  unfold loadTurn
  rw [hline, hinput, List.length_nil, Nat.sub_zero, fgets_line hl hlen]
  dsimp only
  rw [List.nil_append, hcstr, List.getLastD_concat, if_neg (not_not.mpr rfl), hstrip, if_neg hback]

/-- The loop is in front of `input`, in a section, with a map of what it has read. -/
structure At (s : LoadState) (input section_ : List Byte) (m : Map) : Prop where
  input : s.input = input
  line : s.line = []
  section_ : s.section_ = section_
  valid : Valid s.dict
  get : dictionaryGet s.dict = m
  errs : s.errs = 0

variable {section_ : List Byte} {m : Map}

/-- A key is set. -/
theorem At.set (h : At s rest section_ m) (key : List Byte) (val : Option (List Byte)) :
    ∃ s', s.set key val = .inl s' ∧ At s' rest section_ (update m key (some val)) := by
  obtain ⟨d', hset, hvalid, hget⟩ := set_spec h.valid key val
  refine ⟨{ s with dict := d', errs := 0 }, ?_, ⟨h.input, h.line, h.section_, hvalid, ?_, rfl⟩⟩
  · rw [LoadState.set, hset]
  · funext key'
    rw [hget, Function.update_apply, h.get]

/-- With the next input read, the rest of the state is as before. -/
theorem At.next {input : List Byte} (h : At s input section_ m) (rest : List Byte) :
    At (s.next rest) rest section_ m := ⟨rfl, rfl, h.section_, h.valid, h.get, h.errs⟩

/-- A line feed, with a carriage return or not. -/
def LineEnd (e : List Byte) : Prop := e = [lf] ∨ e = [cr, lf]

/-- A line with its end. -/
theorem At.line_eq {l e : List Byte} (he : LineEnd e) (h : At s (l ++ e ++ rest) section_ m)
    (hplain : Plain l) (hl : lf ∉ l) (hlen : l.length + 3 ≤ asciiLineSz)
    (hback : (l.rdropWhile isSpace).getLastD (front s.lineno) ≠ backslash) :
    loadTurn front s = loadLine (s.next rest) (iniparserLine (l.rdropWhile isSpace) section_) := by
  rw [← h.section_]
  rcases he with rfl | rfl
  · exact loadTurn_line front h.line (by rw [h.input, List.append_assoc]; rfl) hplain hl (by omega) hback
  · -- the carriage return is a blank
    have hstrip : (l ++ [cr]).rdropWhile isSpace = l.rdropWhile isSpace :=
      List.rdropWhile_concat_pos isSpace l cr (by decide)
    rw [← hstrip]
    refine loadTurn_line front h.line ?_ (hplain.append (.cons (by decide) plain_nil)) ?_ ?_ ?_
    · rw [h.input, List.append_assoc, List.append_assoc]
      rfl
    · rw [List.mem_append, not_or]
      exact ⟨hl, by decide⟩
    · rw [List.length_append, List.length_singleton]
      omega
    · rw [hstrip]
      exact hback

/-- An empty line. -/
theorem At.blank {e : List Byte} (he : LineEnd e) (hfront : ∀ n, front n ≠ backslash)
    (h : At s (e ++ rest) section_ m) :
    ∃ s', (loadLoop front).run s = (loadLoop front).run s' ∧ At s' rest section_ m := by
  have hturn : loadTurn front s = .inl (s.next rest) :=
    At.line_eq front (l := []) he h plain_nil List.not_mem_nil (by decide) (hfront s.lineno)
  exact ⟨_, ConsumingLoop.run_of_inl hturn, h.next rest⟩

/-- The line of a section. -/
theorem At.section {e name : List Byte} (he : LineEnd e) (hname : SectionName name)
    (h : At s (ch '[' :: name ++ [ch ']'] ++ e ++ rest) section_ m) :
    ∃ s', (loadLoop front).run s = (loadLoop front).run s' ∧
      At s' rest (name.map tolower) (update m (name.map tolower) (some none)) := by
  have hlen := hname.length_le
  have hstrip : (ch '[' :: name ++ [ch ']']).rdropWhile isSpace = ch '[' :: name ++ [ch ']'] :=
    rdropWhile_concat_of_false (by decide) _
  have hplain : Plain (ch '[' :: name ++ [ch ']']) :=
    .append (.cons (by decide) hname.plain) (.cons (by decide) plain_nil)
  have hlf : lf ∉ ch '[' :: name ++ [ch ']'] := by
    rw [List.mem_append, List.mem_cons, not_or, not_or]
    exact ⟨⟨by decide, hname.lf⟩, by decide⟩
  have hturn := At.line_eq front he h hplain hlf (by simp; omega)
    (by rw [hstrip, List.getLastD_concat]; decide)
  rw [hstrip, iniparserLine_section hname] at hturn
  have hnext := h.next rest
  -- the line sets the section, with no value
  obtain ⟨s', hset, hat⟩ := At.set (s := { s.next rest with section_ := name.map tolower })
    ⟨hnext.input, hnext.line, rfl, hnext.valid, hnext.get, hnext.errs⟩ (name.map tolower) none
  exact ⟨s', ConsumingLoop.run_of_inl (hturn.trans hset), hat⟩

/-- The line of an entry. -/
theorem At.entry {e key value : List Byte} (he : LineEnd e) (hkey : CleanKey key)
    (hvalue : CleanValue value) (n : Nat)
    (hlen : (padded n key).length + value.length + 4 ≤ asciiLineSz)
    (htmp : section_.length + 1 + key.length ≤ asciiLineSz)
    (h : At s (padded n key ++ equals :: value ++ e ++ rest) section_ m) :
    ∃ s', (loadLoop front).run s = (loadLoop front).run s' ∧
      At s' rest section_ (update m (section_ ++ colon :: key) (some (some value))) := by
  have hstrip := hvalue.rdropWhile_entry (padded n key)
  -- the blanks behind the key
  have hspaces : Plain (List.replicate n 0x20) ∧ lf ∉ List.replicate n 0x20 := by
    refine ⟨fun c hc => ?_, fun hc => ?_⟩
    · rw [List.eq_of_mem_replicate hc]
      decide
    · exact absurd (List.eq_of_mem_replicate hc) (by decide)
  have hplain : Plain (padded n key ++ equals :: value) :=
    .append (.append hkey.plain hspaces.1) (.cons (by decide) hvalue.plain)
  have hlf : lf ∉ padded n key ++ equals :: value := by
    rw [padded, List.mem_append, List.mem_append, List.mem_cons, not_or, not_or, not_or]
    exact ⟨⟨hkey.lf, hspaces.2⟩, by decide, hvalue.lf⟩
  -- the line ends in the equals sign or in the value, and neither is a backslash there
  have hback : (padded n key ++ equals :: value).getLastD (front s.lineno) ≠ backslash := by
    by_cases hne : value = []
    · rw [hne, List.getLastD_concat]
      decide
    · obtain ⟨v, d, hd, -⟩ := hvalue.stripped.exists_concat hne
      have hlast := hvalue.last
      rw [hd, List.getLast?_concat] at hlast
      rw [hd, ← List.cons_append, ← List.append_assoc, List.getLastD_concat]
      exact fun heq => hlast (congrArg some heq)
  have hturn := At.line_eq front he h hplain hlf (by simp; omega)
    (by rw [hstrip]; exact hback)
  rw [hstrip, iniparserLine_entry hkey hvalue n (by omega)] at hturn
  obtain ⟨s', hset, hat⟩ := (h.next rest).set (section_ ++ colon :: key) (some value)
  refine ⟨s', ConsumingLoop.run_of_inl (hturn.trans ?_), hat⟩
  have hsection : (s.next rest).section_ = section_ := h.section_
  -- the key with its section fits the temporary buffer
  have hroom : ¬ asciiLineSz < (section_ ++ colon :: key).length := by
    rw [List.length_append, List.length_cons]
    omega
  rw [loadLine, hsection, if_neg hroom]
  exact hset

/-- The end of the file. -/
theorem At.done (h : At s [] section_ m) :
    ∃ d, (loadLoop front).run s = some (some d) ∧ Valid d ∧ dictionaryGet d = m := by
  refine ⟨s.dict, ConsumingLoop.run_of_inr ?_, h.valid, h.get⟩
  show loadTurn front s = _
  rw [loadTurn, h.input, h.errs]
  rfl

end Lines

/-! ## Dictionaries that are loaded -/

/-- Setting an entry leaves the dictionary in order. -/
theorem LoadState.valid_set {s s' : LoadState} (h : Valid s.dict) {key : List Byte}
    {val : Option (List Byte)} (hset : s.set key val = .inl s') : Valid s'.dict := by
  obtain ⟨d', hd', hvalid, -⟩ := set_spec h key val
  rw [LoadState.set, hd'] at hset
  cases hset
  exact hvalid

/-- So does every line. -/
theorem valid_loadLine {s s' : LoadState} (h : Valid s.dict) {l : Line}
    (hline : loadLine s l = .inl s') : Valid s'.dict := by
  cases l with
  | error => cases hline; exact h
  | empty => cases hline; exact h
  | comment => cases hline; exact h
  | sectionLine name => exact LoadState.valid_set (s := { s with section_ := name }) h hline
  | valueLine key value =>
    rw [loadLine] at hline
    split at hline
    · cases hline
    · exact LoadState.valid_set h hline

/-- So does every turn of the loop. -/
theorem valid_loadTurn {front : Nat → Byte} {s s' : LoadState} (h : Valid s.dict)
    (hturn : loadTurn front s = .inl s') : Valid s'.dict := by
  unfold loadTurn at hturn
  split at hturn
  · cases hturn
  · dsimp only at hturn
    split at hturn
    · cases hturn
    · split at hturn
      · split at hturn
        · cases hturn
        · cases hturn
          exact h
      · -- a continued line leaves the dictionary; any other is put in
        exact valid_loadLine (s := s.next _) h hturn

/-- In a line the loop does not end with a result. -/
theorem loadLine_inr {s : LoadState} {l : Line} {r : Option (Option Dictionary)}
    (h : loadLine s l = .inr r) : r = none := by
  -- a key that the dictionary does not take is a fault, and no result
  have hset : ∀ {s : LoadState} {key : List Byte} {val : Option (List Byte)},
      s.set key val = .inr r → r = none := by
    intro s key val hset
    unfold LoadState.set at hset
    split at hset
    · cases hset
    · cases hset
      rfl
  cases l with
  | error => cases h
  | empty => cases h
  | comment => cases h
  | sectionLine name => exact hset h
  | valueLine key value =>
    rw [loadLine] at h
    split at h
    · cases h
      rfl
    · exact hset h

/-- It ends with the dictionary that it has filled. -/
theorem loadTurn_inr {front : Nat → Byte} {s : LoadState} {d : Dictionary}
    (hturn : loadTurn front s = .inr (some (some d))) : s.dict = d := by
  unfold loadTurn at hturn
  split at hturn
  · split at hturn
    · cases hturn
      rfl
    · cases hturn
  · dsimp only at hturn
    split at hturn
    · cases hturn
    · split at hturn
      · split at hturn <;> cases hturn
      · -- only the end of the file is left with a dictionary
        cases loadLine_inr hturn

/-- What is loaded is valid. -/
theorem valid_of_load {front : Nat → Byte} {file : Option (List Byte)} {d : Dictionary}
    (h : iniparserLoad front file = some (some d)) : Valid d := by
  cases file with
  | none => cases h
  | some input =>
    have hgo : ∀ {s s' : LoadState}, Valid s.dict → (loadLoop front).turn s = .inl s' →
        Valid s'.dict := fun hs hturn => valid_loadTurn hs hturn
    refine ConsumingLoop.run_inv (Q := fun r => r = some (some d) → Valid d) hgo ?_ (valid_new 0) h
    rintro s r hs hturn rfl
    exact loadTurn_inr hturn ▸ hs

/-! ## What is saved -/

/-- The sections, in the order of their slots. -/
def Dictionary.sections (d : Dictionary) : List (List Byte) := d.keys.filter isSection

/-- A line of an entry that comes back. -/
structure CleanEntry (name key value : List Byte) : Prop where
  cleanKey : CleanKey key
  cleanValue : CleanValue value
  line : (padRight key).length + value.length + 4 ≤ asciiLineSz
  tmp : name.length + 1 + key.length ≤ asciiLineSz

/-- There is a section, and the sections and their entries come back. -/
structure Printable (m : Map) : Prop where
  exists_section : ∃ name, isSection name = true ∧ m name ≠ none
  names : ∀ name, isSection name = true → m name ≠ none → CleanName name
  entries : ∀ name key value, isSection name = true → m name ≠ none →
    m (name ++ colon :: key) = some value → CleanEntry name key (value.getD [])

/-- The keys with a prefix, and what is printed for NULL. -/
def entriesOf (keym : List Byte) (slots : List Slot) : List (List Byte × Option (List Byte)) :=
  slots.filterMap fun s => s.key.bind fun key =>
    if keym.isPrefixOf key then some (key, some (s.val.getD [])) else none

/-- All that is printed. -/
def saved (d : Dictionary) : List (List Byte × Option (List Byte)) :=
  d.sections.flatMap fun name => (name, none) :: entriesOf (name ++ [colon]) d.slots

/-- One key is set after the other. -/
def assignAll (m : Map) (l : List (List Byte × Option (List Byte))) : Map :=
  l.foldl (fun m a => update m a.1 (some a.2)) m

/-- Two lists of entries are set one after the other. -/
theorem assignAll_append (m : Map) (l l' : List (List Byte × Option (List Byte))) :
    assignAll m (l ++ l') = assignAll (assignAll m l) l' := List.foldl_append

/-- Where a key determines what it is set to, it is set to that. -/
theorem assignAll_apply {f : List Byte → Option (List Byte)}
    {l : List (List Byte × Option (List Byte))} (hl : ∀ a ∈ l, a.2 = f a.1) (m : Map)
    (key : List Byte) :
    assignAll m l key = if key ∈ l.map Prod.fst then some (f key) else m key := by
  induction l generalizing m with
  | nil => rfl
  | cons a l ih =>
    obtain ⟨ha, hrest⟩ := List.forall_mem_cons.mp hl
    rw [assignAll, List.foldl_cons, ← assignAll, ih hrest, Function.update_apply, List.map_cons]
    -- a key that is set again keeps its value, as all values are those of `f`
    by_cases hkey : key = a.1
    · simp [hkey, ha]
    · have hmem : key ∈ a.1 :: l.map Prod.fst ↔ key ∈ l.map Prod.fst := by simp [hkey]
      rw [if_neg hkey, if_congr hmem rfl rfl]

section Saved

variable (front : Nat → Byte) {s : LoadState} {rest : List Byte} {m : Map}

/-- The entries of a section are read. -/
theorem At.entries {name : List Byte} {slots : List Slot}
    (hclean : ∀ s ∈ slots, ∀ key, s.key = some (name ++ colon :: key) →
      CleanEntry name key (s.val.getD []))
    (h : At s (dumpEntries (name ++ [colon]) slots ++ rest) name m) :
    ∃ s', (loadLoop front).run s = (loadLoop front).run s' ∧
      At s' rest name (assignAll m (entriesOf (name ++ [colon]) slots)) := by
  -- the induction is on the slots: a free one, or one of another section, puts no line
  induction slots generalizing s m with
  | nil => exact ⟨s, rfl, h⟩
  | cons slot slots ih =>
    obtain ⟨hslot, hrest⟩ := List.forall_mem_cons.mp hclean
    rw [dumpEntries, List.flatMap_cons, ← dumpEntries] at h
    rw [entriesOf, List.filterMap_cons, ← entriesOf]
    cases hkey : slot.key with
    | none =>
      rw [hkey] at h
      exact ih hrest h
    | some key =>
      rw [hkey] at h
      dsimp only at h
      rw [Option.bind_some]
      by_cases hprefix : (name ++ [colon]).isPrefixOf key = true
      · rw [if_pos hprefix] at h ⊢
        obtain ⟨k, rfl⟩ := List.isPrefixOf_iff_prefix.mp hprefix
        have hsplit : name ++ [colon] ++ k = name ++ colon :: k := by simp
        have hentry := hslot k (hkey.trans (congrArg some hsplit))
        rw [List.drop_left, padRight_eq] at h
        obtain ⟨s₁, hrun₁, h₁⟩ := At.entry front (.inr rfl) hentry.cleanKey
          hentry.cleanValue (30 - k.length) hentry.line hentry.tmp
          (by simpa [List.append_assoc] using h)
        obtain ⟨s', hrun', h'⟩ := ih hrest h₁
        refine ⟨s', hrun₁.trans hrun', ?_⟩
        rw [assignAll, List.foldl_cons, ← assignAll, hsplit]
        exact h'
      · rw [if_neg hprefix] at h ⊢
        exact ih hrest h

/-- The sections are read. -/
theorem At.sections (hfront : ∀ n, front n ≠ backslash) {d : Dictionary} {names : List (List Byte)}
    (hnames : ∀ name ∈ names, CleanName name ∧ ∀ slot ∈ d.slots, ∀ key,
      slot.key = some (name ++ colon :: key) → CleanEntry name key (slot.val.getD []))
    {section_ : List Byte} (h : At s (names.flatMap (dumpSection d) ++ rest) section_ m) :
    ∃ s' section', (loadLoop front).run s = (loadLoop front).run s' ∧
      At s' rest section' (assignAll m
        (names.flatMap fun name => (name, none) :: entriesOf (name ++ [colon]) d.slots)) := by
  -- a section is an empty line, its header and its entries
  induction names generalizing s section_ m with
  | nil => exact ⟨s, section_, rfl, h⟩
  | cons name names ih =>
    obtain ⟨⟨hname, hentries⟩, hrest⟩ := List.forall_mem_cons.mp hnames
    rw [List.flatMap_cons, dumpSection] at h
    obtain ⟨s₁, hrun₁, h₁⟩ := At.blank front (.inr rfl) hfront (by simpa [List.append_assoc] using h)
    obtain ⟨s₂, hrun₂, h₂⟩ := At.section front (e := [cr, lf]) (.inr rfl)
      hname.toSectionName (by simpa [List.append_assoc] using h₁)
    rw [hname.lower] at h₂
    obtain ⟨s₃, hrun₃, h₃⟩ := At.entries front hentries h₂
    obtain ⟨s', section', hrun', h'⟩ := ih hrest h₃
    refine ⟨s', section', hrun₁.trans (hrun₂.trans (hrun₃.trans hrun')), ?_⟩
    rw [List.flatMap_cons, assignAll_append]
    exact h'

end Saved

/-- A counting loop over a list is one along it. -/
theorem mapM_range {α β : Type} {g : α → Option β} {f : α → β} {l : List α}
    (hl : ∀ a ∈ l, g a = some (f a)) :
    ((List.range l.length).mapM fun i => l[i]?.bind g) = some (l.map f) := by
  induction l with
  | nil => rfl
  | cons a l ih =>
    obtain ⟨ha, hrest⟩ := List.forall_mem_cons.mp hl
    have hnext := ih hrest
    rw [List.length_cons, List.range_succ_eq_map, List.mapM_cons, List.mapM_map]
    show ((some a).bind g).bind (fun b => ((List.range l.length).mapM fun i => l[i]?.bind g).bind
      fun bs => some (b :: bs)) = _
    rw [Option.bind_some, ha, hnext]
    rfl

/-- The sections are the keys without a colon. -/
theorem mem_sections {d : Dictionary} (hd : Valid d) {name : List Byte} :
    name ∈ d.sections ↔ isSection name = true ∧ dictionaryGet d name ≠ none := by
  rw [Dictionary.sections, List.mem_filter, mem_dictionary_keys hd, and_comm]

/-- What is printed. -/
theorem iniparserDumpIni_eq {d : Dictionary} (hd : Valid d) (h : Printable (dictionaryGet d)) :
    iniparserDumpIni d = some (d.sections.flatMap (dumpSection d) ++ [cr, lf], true) := by
  have hcount : iniparserGetnsec d = d.sections.length := List.countP_eq_length_filter
  have hpos : ¬ d.sections.length < 1 := by
    obtain ⟨name, hname⟩ := h.exists_section
    have := List.length_pos_of_mem ((mem_sections hd).mpr hname)
    omega
  -- no name is too long for the key of its section
  have hloop : ((List.range d.sections.length).mapM fun i => d.sections[i]?.bind fun secname =>
      if asciiLineSz < secname.length + 1 then none else some (dumpSection d secname)) =
        some (d.sections.map (dumpSection d)) := by
    refine mapM_range fun name hname => if_neg ?_
    obtain ⟨hsection, hget⟩ := (mem_sections hd).mp hname
    have := (h.names name hsection hget).length_le
    omega
  unfold iniparserDumpIni
  rw [hcount, if_neg hpos]
  show ((List.range d.sections.length).mapM fun i => d.sections[i]?.bind fun secname =>
      if asciiLineSz < secname.length + 1 then none else some (dumpSection d secname)).bind _ = _
  rw [hloop, Option.bind_some, List.flatMap_def]

/-! ## The round trip -/

/-- The section of an entry. -/
def sectionOf (key : List Byte) : List Byte := key.takeWhile (· ≠ colon)

/-- What is printed for a key, if it is printed. -/
def printedVal (m : Map) (key : List Byte) : Option (List Byte) :=
  if isSection key then none else some ((m key).join.getD [])

/-- What a saved dictionary comes back as: a section is NULL, an entry is not, and one without a
section is gone. -/
def reload (m : Map) : Map := fun key =>
  if m key ≠ none ∧ (isSection key = true ∨ m (sectionOf key) ≠ none) then some (printedVal m key)
  else none

/-- The section of a key is what stands in front of its colon. -/
theorem sectionOf_append {name : List Byte} (hname : isSection name = true) (key : List Byte) :
    sectionOf (name ++ colon :: key) = name := by
  have hcolon : colon ∉ name := of_decide_eq_true hname
  rw [sectionOf, List.takeWhile_append_of_pos, List.takeWhile_cons_of_neg (by decide),
    List.append_nil]
  intro c hc
  exact decide_eq_true fun heq => hcolon (heq ▸ hc)

/-- A section's name has no colon. -/
theorem isSection_sectionOf (key : List Byte) : isSection (sectionOf key) = true := by
  refine decide_eq_true fun hmem => ?_
  exact absurd (List.mem_takeWhile_imp hmem) (by decide)

/-- An entry is the section, a colon and the rest. -/
theorem exists_key {key : List Byte} (h : isSection key ≠ true) :
    ∃ k, key = sectionOf key ++ colon :: k := by
  -- the section ends at the first colon
  induction key with
  | nil => exact absurd rfl h
  | cons c key ih =>
    by_cases hc : c = colon
    · refine ⟨key, ?_⟩
      rw [sectionOf, List.takeWhile_cons_of_neg (by simp [hc]), hc]
      rfl
    · have hkey : isSection key ≠ true := by
        intro hkey
        refine h (decide_eq_true ?_)
        rw [List.mem_cons, not_or]
        exact ⟨Ne.symm hc, of_decide_eq_true hkey⟩
      obtain ⟨k, hk⟩ := ih hkey
      refine ⟨k, ?_⟩
      rw [sectionOf, List.takeWhile_cons_of_pos (by simp [hc])]
      exact congrArg (List.cons c) hk

/-- A key with a colon is no section. -/
theorem not_isSection_append (name key : List Byte) : isSection (name ++ colon :: key) = false := by
  simp [isSection]

/-- The value of a slot. -/
theorem Valid.get_of_mem {d : Dictionary} (h : Valid d) {slot : Slot} (hslot : slot ∈ d.slots)
    {key : List Byte} (hkey : slot.key = some key) : dictionaryGet d key = some slot.val := by
  rw [h.get_eq, SlotTable.at?_of_mem h.distinct hslot hkey, Option.map_some]

/-- The entries of a section are the slots that begin with its name and a colon. -/
theorem mem_entriesOf {keym : List Byte} {slots : List Slot}
    {a : List Byte × Option (List Byte)} : a ∈ entriesOf keym slots ↔
      ∃ slot ∈ slots, slot.key = some a.1 ∧ keym.isPrefixOf a.1 = true ∧
        a.2 = some (slot.val.getD []) := by
  rw [entriesOf, List.mem_filterMap]
  refine exists_congr fun slot => and_congr_right fun _ => ?_
  -- a slot gives at most one entry, that of its own key
  rw [Option.bind_eq_some_iff]
  constructor
  · rintro ⟨key, hkey, hif⟩
    split at hif
    · next hprefix =>
      cases hif
      exact ⟨hkey, hprefix, rfl⟩
    · cases hif
  · rintro ⟨hkey, hprefix, hval⟩
    refine ⟨a.1, hkey, ?_⟩
    rw [if_pos hprefix, ← hval]

section Reload

variable {d : Dictionary} (hd : Valid d)
include hd

/-- The keys that are printed. -/
theorem mem_saved {key : List Byte} : key ∈ (saved d).map Prod.fst ↔
    dictionaryGet d key ≠ none ∧
      (isSection key = true ∨ dictionaryGet d (sectionOf key) ≠ none) := by
  constructor
  · intro h
    obtain ⟨a, ha, rfl⟩ := List.mem_map.mp h
    obtain ⟨name, hname, ha⟩ := List.mem_flatMap.mp ha
    obtain ⟨hsection, hget⟩ := (mem_sections hd).mp hname
    rcases List.mem_cons.mp ha with rfl | ha
    · exact ⟨hget, .inl hsection⟩
    · -- printed as an entry: what is in front of its colon is a section that is set
      obtain ⟨slot, hslot, hkey, hprefix, -⟩ := mem_entriesOf.mp ha
      obtain ⟨k, hk⟩ := List.isPrefixOf_iff_prefix.mp hprefix
      rw [List.append_assoc, List.singleton_append] at hk
      refine ⟨?_, .inr ?_⟩
      · rw [hd.get_of_mem hslot hkey]
        exact Option.some_ne_none _
      · rw [← hk, sectionOf_append hsection]
        exact hget
  · rintro ⟨hkey, hsection | howned⟩
    · exact List.mem_map.mpr ⟨(key, none), List.mem_flatMap.mpr
        ⟨key, (mem_sections hd).mpr ⟨hsection, hkey⟩, List.mem_cons_self⟩, rfl⟩
    · by_cases hsection : isSection key = true
      · exact List.mem_map.mpr ⟨(key, none), List.mem_flatMap.mpr
          ⟨key, (mem_sections hd).mpr ⟨hsection, hkey⟩, List.mem_cons_self⟩, rfl⟩
      · -- it is printed with the entries of its section
        obtain ⟨k, hk⟩ := exists_key hsection
        obtain ⟨slot, hslot, hslotkey⟩ :=
          SlotTable.mem_keys.mp ((mem_dictionary_keys hd key).mpr hkey)
        refine List.mem_map.mpr ⟨(key, some (slot.val.getD [])), List.mem_flatMap.mpr
          ⟨sectionOf key, (mem_sections hd).mpr ⟨isSection_sectionOf key, howned⟩,
            List.mem_cons_of_mem _ (mem_entriesOf.mpr ?_)⟩, rfl⟩
        refine ⟨slot, hslot, hslotkey, List.isPrefixOf_iff_prefix.mpr ⟨k, ?_⟩, rfl⟩
        rw [List.append_assoc, List.singleton_append]
        exact hk.symm

/-- A key determines what is printed for it. -/
theorem saved_eq : ∀ a ∈ saved d, a.2 = printedVal (dictionaryGet d) a.1 := by
  intro a ha
  unfold printedVal
  obtain ⟨name, hname, ha⟩ := List.mem_flatMap.mp ha
  rcases List.mem_cons.mp ha with rfl | ha
  · rw [if_pos ((mem_sections hd).mp hname).1]
  · obtain ⟨slot, hslot, hkey, hprefix, hval⟩ := mem_entriesOf.mp ha
    obtain ⟨k, hk⟩ := List.isPrefixOf_iff_prefix.mp hprefix
    rw [List.append_assoc, List.singleton_append] at hk
    -- what has a colon is no section
    have hnot : ¬ isSection a.1 = true := by
      rw [← hk, not_isSection_append]
      exact Bool.false_ne_true
    rw [if_neg hnot, hd.get_of_mem hslot hkey, hval]
    rfl

/-- Setting what was saved gives the map that is reloaded. -/
theorem assignAll_saved : assignAll (fun _ => none) (saved d) = reload (dictionaryGet d) := by
  funext key
  rw [assignAll_apply (saved_eq hd), if_congr (mem_saved hd) rfl rfl, reload]

/-- A file that was printed is read. -/
theorem read_saved {front : Nat → Byte} (hfront : ∀ n, front n ≠ backslash)
    (hp : Printable (dictionaryGet d)) :
    ∃ text d', iniparserDumpIni d = some (text, true) ∧
      iniparserLoad front (some text) = some (some d') ∧ Valid d' ∧
      dictionaryGet d' = reload (dictionaryGet d) := by
  -- what is printed is clean, as the dictionary is printable
  have hclean : ∀ name ∈ d.sections, CleanName name ∧ ∀ slot ∈ d.slots, ∀ key,
      slot.key = some (name ++ colon :: key) → CleanEntry name key (slot.val.getD []) := by
    intro name hname
    obtain ⟨hsection, hget⟩ := (mem_sections hd).mp hname
    exact ⟨hp.names name hsection hget, fun slot hslot key hkey =>
      hp.entries name key slot.val hsection hget (hd.get_of_mem hslot hkey)⟩
  have hstart : At ⟨d.sections.flatMap (dumpSection d) ++ [cr, lf], 0, [], [], dictionaryNew 0, 0⟩
      (d.sections.flatMap (dumpSection d) ++ [cr, lf]) [] (fun _ => none) :=
    ⟨rfl, rfl, rfl, valid_new 0, funext (get_new 0), rfl⟩
  -- the sections, the empty line behind them, the end of the file
  obtain ⟨s₁, section₁, hrun₁, h₁⟩ := At.sections front hfront hclean hstart
  obtain ⟨s₂, hrun₂, h₂⟩ := At.blank front (e := [cr, lf]) (.inr rfl) hfront h₁
  obtain ⟨d', hrun, hvalid, hget⟩ := At.done front h₂
  refine ⟨_, d', iniparserDumpIni_eq hd hp, hrun₁.trans (hrun₂.trans hrun), hvalid, ?_⟩
  rw [hget, ← assignAll_saved hd, saved]

end Reload

/-! ## Maps that are saved -/

/-- An entry that is set in a section that is there. -/
theorem printable_update {m : Map} (h : Printable m) {name key value : List Byte}
    (hname : isSection name = true) (hget : m name ≠ none) (hentry : CleanEntry name key value) :
    Printable (update m (name ++ colon :: key) (some (some value))) := by
  -- no section is touched
  have hsections : ∀ name', isSection name' = true →
      update m (name ++ colon :: key) (some (some value)) name' = m name' := by
    intro name' hname'
    refine Function.update_of_ne (fun heq => ?_) _ _
    rw [heq, not_isSection_append] at hname'
    cases hname'
  refine ⟨?_, ?_, ?_⟩
  · obtain ⟨name', hname', hget'⟩ := h.exists_section
    exact ⟨name', hname', by rwa [hsections name' hname']⟩
  · intro name' hname' hget'
    rw [hsections name' hname'] at hget'
    exact h.names name' hname' hget'
  · intro name' key' value' hname' hget' hkey'
    rw [hsections name' hname'] at hget'
    by_cases heq : name' ++ colon :: key' = name ++ colon :: key
    · -- the section and the rest are determined by the first colon
      have hsame : name' = name := by
        rw [← sectionOf_append hname' key', heq, sectionOf_append hname key]
      subst hsame
      obtain rfl := (List.cons.inj (List.append_cancel_left heq)).2
      rw [Function.update_self] at hkey'
      cases hkey'
      exact hentry
    · rw [Function.update_of_ne heq] at hkey'
      exact h.entries name' key' value' hname' hget' hkey'

/-- Another section, without entries. -/
theorem printable_insert {m : Map} (h : Printable m) {name : List Byte} (hname : CleanName name)
    (hsection : isSection name = true) (hfree : ∀ key, m (name ++ colon :: key) = none) :
    Printable (update m name (some none)) := by
  -- the entries are those that were there
  have hentry : ∀ name' key, isSection name' = true →
      update m name (some none) (name' ++ colon :: key) = m (name' ++ colon :: key) := by
    intro name' key _
    refine Function.update_of_ne (fun heq => ?_) _ _
    rw [← heq, not_isSection_append] at hsection
    cases hsection
  refine ⟨⟨name, hsection, ?_⟩, ?_, ?_⟩
  · rw [Function.update_self]
    exact Option.some_ne_none _
  · intro name' hname' hget
    by_cases heq : name' = name
    · rw [heq]
      exact hname
    · rw [Function.update_of_ne heq] at hget
      exact h.names name' hname' hget
  · intro name' key value hname' hget hkey
    rw [hentry name' key hname'] at hkey
    by_cases heq : name' = name
    · rw [heq, hfree] at hkey
      cases hkey
    · rw [Function.update_of_ne heq] at hget
      exact h.entries name' key value hname' hget hkey

/-- A section is reloaded without a value. -/
theorem reload_section {m : Map} {name : List Byte} (hname : isSection name = true) :
    reload m name = if m name ≠ none then some none else none := by
  rw [reload, if_congr (and_iff_left (.inl hname)) rfl rfl, printedVal, if_pos hname]

/-- A section is there after reloading if it was before. -/
theorem reload_section_ne_none {m : Map} {name : List Byte} (hname : isSection name = true) :
    reload m name ≠ none ↔ m name ≠ none := by
  rw [reload_section hname]
  split
  · next h => exact iff_of_true (Option.some_ne_none _) h
  · next h => exact iff_of_false (fun hn => hn rfl) h

/-- What comes back can be saved again. -/
theorem printable_reload {m : Map} (h : Printable m) : Printable (reload m) := by
  refine ⟨?_, ?_, ?_⟩
  · obtain ⟨name, hname, hget⟩ := h.exists_section
    exact ⟨name, hname, (reload_section_ne_none hname).mpr hget⟩
  · intro name hname hget
    exact h.names name hname ((reload_section_ne_none hname).mp hget)
  · intro name key value hname hget hkey
    have hget' := (reload_section_ne_none hname).mp hget
    rw [reload] at hkey
    split at hkey
    · next hcond =>
      obtain ⟨v, hv⟩ := Option.ne_none_iff_exists'.mp hcond.1
      -- the value came back as it was, or empty if there was none
      have hvalue : value = some (v.getD []) := by
        have hnot : ¬ isSection (name ++ colon :: key) = true := by
          rw [not_isSection_append]
          exact Bool.false_ne_true
        rw [printedVal, if_neg hnot, hv] at hkey
        exact (Option.some.inj hkey).symm
      rw [hvalue]
      exact h.entries name key v hname hget' hv
    · cases hkey

/-- What comes back, comes back again as it is. -/
theorem reload_reload (m : Map) : reload (reload m) = reload m := by
  funext key
  -- what is printed is printed again, and the rest is gone already
  by_cases hcond : m key ≠ none ∧ (isSection key = true ∨ m (sectionOf key) ≠ none)
  · have hget : reload m key = some (printedVal m key) := if_pos hcond
    have hval : printedVal (reload m) key = printedVal m key := by
      rw [printedVal, hget, printedVal]
      split <;> rfl
    have hcond' : reload m key ≠ none ∧
        (isSection key = true ∨ reload m (sectionOf key) ≠ none) := by
      rw [hget, reload_section_ne_none (isSection_sectionOf key)]
      exact ⟨Option.some_ne_none _, hcond.2⟩
    rw [reload, if_pos hcond', hval, hget]
  · have hget : reload m key = none := if_neg hcond
    rw [reload, if_neg (fun h => h.1 hget), hget]

/-- An entry that is set is saved. -/
theorem reload_update {m : Map} {name key value : List Byte} (hname : isSection name = true)
    (hget : m name ≠ none) :
    reload (update m (name ++ colon :: key) (some (some value))) =
      update (reload m) (name ++ colon :: key) (some (some value)) := by
  -- the sections are the same, since what is set is none
  have hsection : ∀ key', update m (name ++ colon :: key) (some (some value)) (sectionOf key') =
      m (sectionOf key') := by
    intro key'
    refine Function.update_of_ne (fun heq => ?_) _ _
    have := isSection_sectionOf key'
    rw [heq, not_isSection_append] at this
    cases this
  funext key'
  rw [reload, hsection]
  by_cases heq : key' = name ++ colon :: key
  · subst heq
    have hnot : ¬ isSection (name ++ colon :: key) = true := by
      rw [not_isSection_append]
      exact Bool.false_ne_true
    rw [printedVal, Function.update_self, Function.update_self, sectionOf_append hname,
      if_pos ⟨Option.some_ne_none _, .inr hget⟩, if_neg hnot]
    rfl
  · rw [printedVal, Function.update_of_ne heq, Function.update_of_ne heq, reload, printedVal]

/-- A section alone can be saved. -/
theorem printable_section {name : List Byte} (hname : CleanName name)
    (hsection : isSection name = true) :
    Printable (update (fun _ => none) name (some none)) := by
  -- nothing else is set
  have hother : ∀ key, update (fun _ => none : Map) name (some none) key ≠ none → key = name := by
    intro key hkey
    by_contra hne
    rw [Function.update_of_ne hne] at hkey
    exact hkey rfl
  refine ⟨⟨name, hsection, ?_⟩, ?_, ?_⟩
  · rw [Function.update_self]
    exact Option.some_ne_none _
  · intro name' _ hget
    rw [hother name' hget]
    exact hname
  · intro name' key value _ _ hkey
    have hentry := hother _ (by rw [hkey]; exact Option.some_ne_none _)
    rw [← hentry, not_isSection_append] at hsection
    cases hsection

/-- It comes back. -/
theorem reload_new {name : List Byte} (hname : isSection name = true) :
    reload (update (fun _ => none) name (some none)) = update (fun _ => none) name (some none) := by
  funext key
  by_cases hkey : key = name
  · rw [hkey, reload_section hname, Function.update_self, if_pos (Option.some_ne_none _)]
  · have hnone : update (fun _ => none : Map) name (some none) key = none := by
      rw [Function.update_of_ne hkey]
    rw [reload, if_neg (fun h => h.1 hnone), hnone]

/-- Two maps with the same sections and the same entries in them. -/
structure Agree (m m' : Map) : Prop where
  sections : ∀ name, isSection name = true → m' name = m name
  entries : ∀ name key, isSection name = true → m name ≠ none →
    m' (name ++ colon :: key) = m (name ++ colon :: key)

/-- Maps that agree can be printed both or neither. -/
theorem Agree.printable {m m' : Map} (h : Agree m m') (hp : Printable m) : Printable m' := by
  refine ⟨?_, ?_, ?_⟩
  · obtain ⟨name, hname, hget⟩ := hp.exists_section
    exact ⟨name, hname, by rwa [h.sections name hname]⟩
  · intro name hname hget
    rw [h.sections name hname] at hget
    exact hp.names name hname hget
  · intro name key value hname hget hkey
    rw [h.sections name hname] at hget
    rw [h.entries name key hname hget] at hkey
    exact hp.entries name key value hname hget hkey

/-- They come back as the same. -/
theorem Agree.reload_eq {m m' : Map} (h : Agree m m') : reload m' = reload m := by
  funext key
  have howner := h.sections (sectionOf key) (isSection_sectionOf key)
  by_cases hsection : isSection key = true
  · rw [reload_section hsection, reload_section hsection, h.sections key hsection]
  · by_cases hget : m (sectionOf key) = none
    · -- neither has the section of the key
      rw [reload, reload, howner, if_neg (by simp [hget, hsection]), if_neg (by simp [hget, hsection])]
    · obtain ⟨k, hk⟩ := exists_key hsection
      have hsame : m' key = m key := by
        have hentry := h.entries (sectionOf key) k (isSection_sectionOf key) hget
        rwa [← hk] at hentry
      rw [reload, reload, printedVal, printedVal, howner, hsame]

/-- Settings, one after the other. -/
theorem foldlM_dictionarySet (l : List (List Byte × Option (List Byte))) {d : Dictionary}
    (hd : Valid d) : ∃ d', l.foldlM (fun d a => dictionarySet d a.1 a.2) d = some d' ∧ Valid d' ∧
      dictionaryGet d' = assignAll (dictionaryGet d) l := by
  induction l generalizing d with
  | nil => exact ⟨d, rfl, hd, rfl⟩
  | cons a l ih =>
    obtain ⟨d₁, hset, hd₁, hspec⟩ := set_spec hd a.1 a.2
    -- the rest is set on the dictionary that the first one leaves
    obtain ⟨d', hfold, hd', hmap⟩ := ih hd₁
    refine ⟨d', ?_, hd', ?_⟩
    · rw [List.foldlM_cons, hset]
      exact hfold
    · rw [hmap, assignAll, assignAll, List.foldl_cons]
      refine congrArg (fun m => l.foldl _ m) (funext fun key => ?_)
      rw [hspec, Function.update_apply]

/-- **A saved configuration comes back**: the sections of a dictionary, and the entries in them. -/
theorem load_dump {front : Nat → Byte} (hfront : ∀ n, front n ≠ backslash) {d : Dictionary}
    (hd : Valid d) (hp : Printable (dictionaryGet d)) :
    ∃ text d', iniparserDumpIni d = some (text, true) ∧
      iniparserLoad front (some text) = some (some d') ∧
      ∀ key, dictionaryGet d' key = reload (dictionaryGet d) key := by
  obtain ⟨text, d', hdump, hload, -, hget⟩ := read_saved hd hfront hp
  exact ⟨text, d', hdump, hload, fun key => congrFun hget key⟩

/-- Two sections with an entry each. -/
theorem printable_two {name key value name' key' value' : List Byte} (hname : CleanName name)
    (hsection : isSection name = true) (hentry : CleanEntry name key value)
    (hname' : CleanName name') (hsection' : isSection name' = true)
    (hentry' : CleanEntry name' key' value') (hne : name' ≠ name) :
    Printable (assignAll (fun _ => none) [(name, none), (name ++ colon :: key, some value),
      (name', none), (name' ++ colon :: key', some value')]) := by
  have h₂ := printable_update (printable_section hname hsection) hsection (by simp) hentry
  -- nothing has been set in the second section
  have hfree : ∀ key'', update (update (fun _ => none : Map) name (some none))
      (name ++ colon :: key) (some (some value)) (name' ++ colon :: key'') = none := by
    intro key''
    refine (Function.update_of_ne (fun heq => hne ?_) _ _).trans
      (Function.update_of_ne (fun heq => ?_) _ _)
    · rw [← sectionOf_append hsection' key'', heq, sectionOf_append hsection]
    · rw [← heq, not_isSection_append] at hsection
      cases hsection
  exact printable_update (printable_insert h₂ hname' hsection' hfree) hsection' (by simp) hentry'

/-- Two sections with an entry each, and an entry without a section. -/
theorem load_dump_section :
    let entries := [(ascii "a", none), (ascii "a:x", some (ascii "1")), (ascii "b", none),
      (ascii "b:y", some (ascii "two words")), (ascii "c:z", some (ascii "3"))]
    ∃ d text d', entries.foldlM (fun d a => dictionarySet d a.1 a.2) (dictionaryNew 0) = some d ∧
      iniparserDumpIni d = some (text, true) ∧
      iniparserLoad (fun _ => 0) (some text) = some (some d') ∧
      dictionaryGet d' (ascii "a:x") = some (some (ascii "1")) ∧
      dictionaryGet d' (ascii "b:y") = some (some (ascii "two words")) ∧
      dictionaryGet d' (ascii "c:z") = none := by
  intro entries
  obtain ⟨d, hset, hd, hget⟩ := foldlM_dictionarySet entries (valid_new 0)
  have hnew : dictionaryGet (dictionaryNew 0) = fun _ => none := funext (get_new 0)
  rw [hnew] at hget
  have ha : CleanName (ascii "a") :=
    ⟨⟨⟨by decide, by decide, by decide, by decide⟩, by decide, by decide, by decide⟩, by decide⟩
  have hb : CleanName (ascii "b") :=
    ⟨⟨⟨by decide, by decide, by decide, by decide⟩, by decide, by decide, by decide⟩, by decide⟩
  have hx : CleanEntry (ascii "a") (ascii "x") (ascii "1") :=
    ⟨⟨⟨by decide, by decide, by decide, by decide⟩, by decide, by decide, by decide, by decide⟩,
      ⟨⟨by decide, by decide, by decide, by decide⟩, by decide, by decide, by decide⟩, by decide,
      by decide⟩
  have hy : CleanEntry (ascii "b") (ascii "y") (ascii "two words") :=
    ⟨⟨⟨by decide, by decide, by decide, by decide⟩, by decide, by decide, by decide, by decide⟩,
      ⟨⟨by decide, by decide, by decide, by decide⟩, by decide, by decide, by decide⟩, by decide,
      by decide⟩
  have hp : Printable (dictionaryGet d) := by
    rw [hget]
    -- the entry without a section does not show
    refine Agree.printable ⟨fun name hname => ?_, fun name key hname hsome => ?_⟩
      (printable_two ha (by decide) hx hb (by decide) hy (by decide))
    · exact Function.update_of_ne (fun heq => absurd hname (by rw [heq]; decide)) _ _
    · refine Function.update_of_ne (fun heq => hsome ?_) _ _
      have hc : name = ascii "c" := by
        rw [← sectionOf_append hname key, heq]
        decide
      rw [hc]
      decide
  have hzero : (0 : Byte) ≠ backslash := by decide
  have hfront : ∀ n, (fun _ : Nat => (0 : Byte)) n ≠ backslash := fun _ => hzero
  obtain ⟨text, d', hdump, hload, hback⟩ := load_dump hfront hd hp
  rw [hget] at hback
  exact ⟨d, text, d', hset, hdump, hload, (hback _).trans (by decide), (hback _).trans (by decide),
    (hback _).trans (by decide)⟩

end PgClient.Ini
