import Mathlib.Tactic.NormNum
import PgClient.Json.Parse

/-!
# The JSON printer

`cJSON_Print` and `cJSON_PrintUnformatted`: every array and object is put into a block of its
own, from the texts of its entries, and the length of the block is added up before.

* `Item.Sound` — the items that the client makes: of strings and integers.
* `printValue_eq` — what is printed of such an item, and that all blocks are long enough.
-/

namespace PgClient.Json

open Text

def tab : Byte := 0x09

def newline : Byte := 0x0a

/-! ## The code -/

/-- A block of `n` bytes that takes a text and its NUL. -/
def fits (n : Nat) (text : List Byte) : Option (List Byte) :=
  if text.length + 1 ≤ n then some text else none

/-- `DBL_EPSILON`. -/
def dblEpsilon : Rat := 1 / 2 ^ 52

/-- `fabs`. -/
def fabs (d : Rat) : Rat := if d < 0 then -d else d

/-- The nearest integer, and of two the even one. -/
def nearest (d : Rat) : Nat :=
  let f := d.floor.toNat
  if d - f < 1 / 2 then f else if 1 / 2 < d - f then f + 1 else f + f % 2

/-- Digits with leading zeros. -/
def padded (places n : Nat) : List Byte :=
  List.replicate (places - (digits n).length) (ch '0') ++ (digits n).map digitChar

/-- What `%.0f` and `%f` print, with so many places behind the point. -/
def formatF (places : Nat) (d : Rat) : List Byte :=
  let k := nearest (fabs d * 10 ^ places)
  (if d < 0 then [ch '-'] else []) ++ (digits (k / 10 ^ places)).map digitChar ++
    if places = 0 then [] else ch '.' :: padded places (k % 10 ^ places)

/-- What `%e` prints. -/
def formatE (d : Rat) : List Byte :=
  let a := fabs d
  let e₀ : Int := (digits a.num.natAbs).length - (digits a.den).length
  let e₁ := if (10 : Rat) ^ e₀ ≤ a then e₀ else e₀ - 1
  let k₁ := nearest (a / (10 : Rat) ^ e₁ * 10 ^ 6)
  -- nines may be rounded up to another digit
  let e := if k₁ = 10 ^ 7 then e₁ + 1 else e₁
  let k := if k₁ = 10 ^ 7 then 10 ^ 6 else k₁
  (if d < 0 then [ch '-'] else []) ++ padded 1 (k / 10 ^ 6) ++ ch '.' :: padded 6 (k % 10 ^ 6) ++
    ch 'e' :: (if e < 0 then ch '-' else ch '+') :: padded 2 e.natAbs

/-- `print_number`. -/
def printNumber (valueint : Int) (d : Rat) : Option (List Byte) :=
  if d = 0 then fits 2 (ascii "0")
  else if fabs (valueint - d) ≤ dblEpsilon ∧ d ≤ 2147483647 ∧ -2147483648 ≤ d then
    fits 21 (formatD valueint)
  else if fabs (d.floor - d) ≤ dblEpsilon ∧ fabs d < 10 ^ 60 then fits 64 (formatF 0 d)
  else if fabs d < 1 / 10 ^ 6 ∨ 10 ^ 9 < fabs d then fits 64 (formatE d)
  else fits 64 (formatF 6 d)

/-- The separator of an array. -/
def comma (fmt : Bool) : List Byte := ch ',' :: if fmt then [ch ' '] else []

def joinEntries (fmt : Bool) : List (List Byte) → List Byte
  | [] => []
  | e :: es => e ++ (if es = [] then [] else comma fmt) ++ joinEntries fmt es

/-- `print_array`, from the texts of its entries. -/
def printArray (fmt : Bool) (entries : List (List Byte)) : Option (List Byte) :=
  if entries = [] then fits 3 (ascii "[]")
  else
    let len := entries.foldl (fun len e => len + (e.length + 2 + if fmt then 1 else 0)) 5
    fits len (ch '[' :: joinEntries fmt entries ++ [ch ']'])

/-- The bytes that are put only if `fmt` is set. -/
def whenFmt (fmt : Bool) (bytes : List Byte) : List Byte := if fmt then bytes else []

def tabs (n : Nat) : List Byte := List.replicate n tab

def joinMembers (fmt : Bool) (depth : Nat) : List (List Byte × List Byte) → List Byte
  | [] => []
  | (name, e) :: ms => whenFmt fmt (tabs depth) ++ name ++ ch ':' :: whenFmt fmt [tab] ++ e ++
      (if ms = [] then [] else [ch ',']) ++ whenFmt fmt [newline] ++ joinMembers fmt depth ms

/-- `print_object`, from the texts of its names and entries. -/
def printObject (fmt : Bool) (depth : Nat) (members : List (List Byte × List Byte)) :
    Option (List Byte) :=
  if members = [] then
    fits (if fmt then depth + 4 else 3)
      (ch '{' :: whenFmt fmt (newline :: tabs (depth - 1)) ++ [ch '}'])
  else
    let depth := depth + 1
    let len := members.foldl (fun len m => len + (m.2.length + m.1.length + 2 +
      if fmt then 2 + depth else 0)) (7 + if fmt then depth else 0)
    fits len (ch '{' :: whenFmt fmt [newline] ++ joinMembers fmt depth members ++
      whenFmt fmt (tabs (depth - 1)) ++ [ch '}'])

mutual

/-- `print_value`; `none` is an access outside of a block, or the dereference of NULL. -/
def printValue (fmt : Bool) : Item → Nat → Option (List Byte)
  | .null, _ => some (ascii "null")
  | .false, _ => some (ascii "false")
  | .true, _ => some (ascii "true")
  | .number i d, _ => printNumber i d
  | .string s, _ => printStringPtr (some s)
  | .array c, depth => do
    let entries ← printEntries fmt c (depth + 1)
    printArray fmt entries
  | .object c, depth => do
    let members ← printMembers fmt c (depth + 1)
    printObject fmt depth members

def printEntries (fmt : Bool) : Chain → Nat → Option (List (List Byte))
  | .nil, _ => some []
  | .cons _ i next, depth => do
    let e ← printValue fmt i depth
    let es ← printEntries fmt next depth
    some (e :: es)

def printMembers (fmt : Bool) : Chain → Nat → Option (List (List Byte × List Byte))
  | .nil, _ => some []
  | .cons name i next, depth => do
    let n ← printStringPtr name
    let e ← printValue fmt i depth
    let ms ← printMembers fmt next depth
    some ((n, e) :: ms)

end

/-- `cJSON_Print`. -/
def cJSONPrint (item : Item) : Option (List Byte) := printValue true item 0

/-- `cJSON_PrintUnformatted`. -/
def cJSONPrintUnformatted (item : Item) : Option (List Byte) := printValue false item 0

/-! ## What is printed -/

mutual

/-- An item that is made of strings and integers: what the functions of the client make. -/
def Item.Sound : Item → Prop
  | .number i d => d = i ∧ -2147483648 ≤ i ∧ i ≤ 2147483647
  | .string s => Plain s
  | .array c => c.SoundElements
  | .object c => c.SoundMembers
  | _ => True

def Chain.SoundElements : Chain → Prop
  | .nil => True
  | .cons name i next => name = none ∧ i.Sound ∧ next.SoundElements

def Chain.SoundMembers : Chain → Prop
  | .nil => True
  | .cons name i next => (∃ s, name = some s ∧ Plain s) ∧ i.Sound ∧ next.SoundMembers

end

mutual

/-- The text of an item. -/
def Item.text (fmt : Bool) : Item → Nat → List Byte
  | .null, _ => ascii "null"
  | .false, _ => ascii "false"
  | .true, _ => ascii "true"
  | .number i _, _ => formatD i
  | .string s, _ => quoted s
  | .array c, depth => ch '[' :: c.entriesText fmt true (depth + 1) ++ [ch ']']
  | .object c, depth =>
    if c.size = 0 then ch '{' :: whenFmt fmt (newline :: tabs (depth - 1)) ++ [ch '}']
    else ch '{' :: whenFmt fmt [newline] ++ c.membersText fmt true (depth + 1) ++
      whenFmt fmt (newline :: tabs depth) ++ [ch '}']

/-- The elements of an array; the first one has no separator. -/
def Chain.entriesText (fmt : Bool) : Chain → Bool → Nat → List Byte
  | .nil, _, _ => []
  | .cons _ i next, first, depth =>
    (if first then [] else comma fmt) ++ i.text fmt depth ++ next.entriesText fmt false depth

/-- The members of an object. -/
def Chain.membersText (fmt : Bool) : Chain → Bool → Nat → List Byte
  | .nil, _, _ => []
  | .cons name i next, first, depth =>
    (if first then [] else ch ',' :: whenFmt fmt [newline]) ++ (whenFmt fmt (tabs depth) ++
      quoted (name.getD []) ++ ch ':' :: whenFmt fmt [tab] ++ i.text fmt depth) ++
      next.membersText fmt false depth

end

theorem fits_of_le {n : Nat} {text : List Byte} (h : text.length + 1 ≤ n) :
    fits n text = some text := if_pos h

theorem length_digits_le {n : Nat} (h : n < 10 ^ 10) : (digits n).length ≤ 10 := by
  by_cases hn : n = 0
  · rw [hn, digits_zero]
    decide
  · rw [digits_of_pos hn, List.length_reverse]
    exact (Nat.digits_length_le_iff (by decide) n).mpr h

/-- An `int` takes eleven characters at most. -/
theorem length_formatD_le {i : Int} (hlow : -2147483648 ≤ i) (hhigh : i ≤ 2147483647) :
    (formatD i).length ≤ 11 := by
  have hlen : (digits i.natAbs).length ≤ 10 := length_digits_le (by omega)
  rw [formatD, List.length_append, List.length_map]
  split <;> simp <;> omega

/-- An `int` is printed as an `int`. -/
theorem printNumber_eq {i : Int} (hlow : -2147483648 ≤ i) (hhigh : i ≤ 2147483647) :
    printNumber i i = some (formatD i) := by
  rw [printNumber]
  by_cases hi : (i : Rat) = 0
  · rw [if_pos hi, Rat.intCast_eq_zero_iff.mp hi]
    rfl
  · -- the value and its integer are the same, within the range of `int`
    have hself : fabs ((i : Rat) - i) ≤ dblEpsilon := by
      rw [Rat.sub_self]
      norm_num [fabs, dblEpsilon]
    rw [if_neg hi, if_pos ⟨hself, by exact_mod_cast hhigh, by exact_mod_cast hlow⟩]
    exact fits_of_le ((Nat.succ_le_succ (length_formatD_le hlow hhigh)).trans (by decide))

/-! ### Arrays -/

/-- The texts of the elements. -/
def Chain.entries (fmt : Bool) : Chain → Nat → List (List Byte)
  | .nil, _ => []
  | .cons _ i next, depth => i.text fmt depth :: next.entries fmt depth

/-- The texts of the names and the members. -/
def Chain.namedEntries (fmt : Bool) : Chain → Nat → List (List Byte × List Byte)
  | .nil, _ => []
  | .cons name i next, depth =>
    (quoted (name.getD []), i.text fmt depth) :: next.namedEntries fmt depth

theorem joinEntries_entries (fmt : Bool) (depth : Nat) : ∀ c : Chain,
    joinEntries fmt (c.entries fmt depth) = c.entriesText fmt true depth
  | .nil => rfl
  | .cons _ i .nil => by
    rw [Chain.entries, Chain.entries, joinEntries, joinEntries, Chain.entriesText,
      Chain.entriesText]
    simp
  | .cons _ i (.cons name j next) => by
    have ih := joinEntries_entries fmt depth (.cons name j next)
    rw [Chain.entriesText, if_pos rfl, List.nil_append] at ih
    rw [Chain.entries, joinEntries, if_neg (by rw [Chain.entries]; simp), ih, Chain.entriesText,
      Chain.entriesText, if_pos rfl, if_neg (by decide), List.nil_append, List.append_assoc,
      List.append_assoc]

theorem entries_eq_nil_iff (fmt : Bool) (depth : Nat) (c : Chain) :
    c.entries fmt depth = [] ↔ c.size = 0 := by
  cases c <;> simp [Chain.entries, Chain.size]

theorem namedEntries_eq_nil_iff (fmt : Bool) (depth : Nat) (c : Chain) :
    c.namedEntries fmt depth = [] ↔ c.size = 0 := by
  cases c <;> simp [Chain.namedEntries, Chain.size]

theorem entriesText_nil_of_size {fmt : Bool} {depth : Nat} {c : Chain} (h : c.size = 0) :
    c.entriesText fmt true depth = [] := by
  cases c with
  | nil => rfl
  | cons name i next => cases h

theorem length_comma (fmt : Bool) : (comma fmt).length = 1 + if fmt then 1 else 0 := by
  cases fmt <;> rfl

theorem foldl_lengths {α : Type} (f : α → Nat) (l : List α) (n : Nat) :
    l.foldl (fun len a => len + f a) n = n + l.foldl (fun len a => len + f a) 0 := by
  induction l generalizing n with
  | nil => rfl
  | cons a l ih =>
    rw [List.foldl_cons, List.foldl_cons, ih, ih (0 + f a)]
    omega

theorem length_joinEntries_le (fmt : Bool) (es : List (List Byte)) :
    (joinEntries fmt es).length ≤
      es.foldl (fun len e => len + (e.length + 2 + if fmt then 1 else 0)) 0 := by
  induction es with
  | nil => exact Nat.le_refl 0
  | cons e es ih =>
    -- a comma for each, though the last has none
    have hsep : (if es = [] then [] else comma fmt).length ≤ 1 + if fmt then 1 else 0 := by
      split
      · exact Nat.zero_le _
      · exact (length_comma fmt).le
    rw [joinEntries, List.length_append, List.length_append, List.foldl_cons, foldl_lengths]
    omega

/-- The block of an array is long enough. -/
theorem printArray_entries (fmt : Bool) (c : Chain) (depth : Nat) :
    printArray fmt (c.entries fmt depth) =
      some (ch '[' :: c.entriesText fmt true depth ++ [ch ']']) := by
  rw [printArray]
  by_cases h : c.size = 0
  · rw [if_pos ((entries_eq_nil_iff fmt depth c).mpr h), entriesText_nil_of_size h]
    rfl
  · rw [if_neg fun heq => h ((entries_eq_nil_iff fmt depth c).mp heq), joinEntries_entries]
    apply fits_of_le
    -- the block is counted with a comma for every element
    have hle := length_joinEntries_le fmt (c.entries fmt depth)
    rw [joinEntries_entries] at hle
    rw [foldl_lengths, List.length_append, List.length_cons, List.length_singleton]
    omega

/-! ### Objects -/

theorem joinMembers_namedEntries (fmt : Bool) (depth : Nat) : ∀ c : Chain, c.size ≠ 0 →
    joinMembers fmt depth (c.namedEntries fmt depth) =
      c.membersText fmt true depth ++ whenFmt fmt [newline]
  | .nil, h => absurd rfl h
  | .cons name i .nil, _ => by
    rw [Chain.namedEntries, Chain.namedEntries, joinMembers, joinMembers, Chain.membersText,
      Chain.membersText]
    simp
  | .cons name i (.cons name' j next), _ => by
    -- the comma stands in front of the next member in one and behind this one in the other
    have ih := joinMembers_namedEntries fmt depth (.cons name' j next) (by simp [Chain.size])
    rw [Chain.membersText, if_pos rfl, List.nil_append] at ih
    rw [Chain.namedEntries, joinMembers, ih, if_neg (by rw [Chain.namedEntries]; simp),
      Chain.membersText, Chain.membersText, if_pos rfl, if_neg (by decide)]
    simp

theorem length_whenFmt (fmt : Bool) (bytes : List Byte) :
    (whenFmt fmt bytes).length = if fmt then bytes.length else 0 := by
  cases fmt <;> rfl

theorem length_joinMembers_le (fmt : Bool) (depth : Nat) (ms : List (List Byte × List Byte)) :
    (joinMembers fmt depth ms).length ≤ ms.foldl (fun len m => len + (m.2.length + m.1.length + 2 +
      if fmt then 2 + depth else 0)) 0 := by
  induction ms with
  | nil => exact Nat.le_refl 0
  | cons m ms ih =>
    -- the last member has no comma, but is given room for one
    have hsep : (if ms = [] then ([] : List Byte) else [ch ',']).length ≤ 1 := by
      split
      · exact Nat.zero_le 1
      · exact Nat.le_refl 1
    rw [joinMembers, List.foldl_cons, foldl_lengths]
    simp only [List.length_append, List.length_cons, length_whenFmt, tabs, List.length_replicate,
      List.length_nil]
    split <;> simp_all <;> omega

/-- The block of an object is long enough. -/
theorem printObject_namedEntries (fmt : Bool) (c : Chain) (depth : Nat) :
    printObject fmt depth (c.namedEntries fmt (depth + 1)) =
      some ((Item.object c).text fmt depth) := by
  rw [printObject, Item.text]
  -- an object without members has a text of its own
  by_cases h : c.size = 0
  · rw [if_pos ((namedEntries_eq_nil_iff fmt _ c).mpr h), if_pos h]
    apply fits_of_le
    simp only [List.length_append, List.length_cons, length_whenFmt, tabs, List.length_replicate,
      List.length_nil]
    split <;> omega
  · rw [if_neg fun heq => h ((namedEntries_eq_nil_iff fmt _ c).mp heq), if_neg h]
    -- what is put for the members is no longer than what was counted for them
    have hle := length_joinMembers_le fmt (depth + 1) (c.namedEntries fmt (depth + 1))
    have htext := joinMembers_namedEntries fmt (depth + 1) c h
    have hclose : whenFmt fmt [newline] ++ whenFmt fmt (tabs depth) =
        whenFmt fmt (newline :: tabs depth) := by
      cases fmt <;> rfl
    rw [htext] at hle
    dsimp only
    rw [htext, Nat.add_sub_cancel, fits_of_le]
    · simp only [← hclose, List.append_assoc, List.cons_append]
    · rw [foldl_lengths]
      simp only [List.length_append, List.length_cons, length_whenFmt, tabs, List.length_replicate,
        List.length_nil] at hle ⊢
      split <;> simp_all <;> omega

mutual

/-- **What is printed**: no string, array or object is put into a block that is too short. -/
theorem printValue_eq (fmt : Bool) : ∀ {i : Item}, i.Sound → ∀ depth : Nat,
    printValue fmt i depth = some (i.text fmt depth)
  | .null, _, _ => rfl
  | .false, _, _ => rfl
  | .true, _, _ => rfl
  | .number i d, h, depth => by
    obtain ⟨rfl, hlow, hhigh⟩ := h
    exact printNumber_eq hlow hhigh
  | .string s, h, depth => printStringPtr_eq h
  | .array c, h, depth => by
    rw [printValue, printEntries_eq fmt h]
    exact printArray_entries fmt c (depth + 1)
  | .object c, h, depth => by
    rw [printValue, printMembers_eq fmt h]
    exact printObject_namedEntries fmt c depth

theorem printEntries_eq (fmt : Bool) : ∀ {c : Chain}, c.SoundElements → ∀ depth : Nat,
    printEntries fmt c depth = some (c.entries fmt depth)
  | .nil, _, _ => rfl
  | .cons name i next, h, depth => by
    obtain ⟨-, hi, hnext⟩ := h
    rw [printEntries, printValue_eq fmt hi, printEntries_eq fmt hnext]
    rfl

theorem printMembers_eq (fmt : Bool) : ∀ {c : Chain}, c.SoundMembers → ∀ depth : Nat,
    printMembers fmt c depth = some (c.namedEntries fmt depth)
  | .nil, _, _ => rfl
  | .cons name i next, h, depth => by
    obtain ⟨⟨s, rfl, hs⟩, hi, hnext⟩ := h
    rw [printMembers, printStringPtr_eq hs, printValue_eq fmt hi, printMembers_eq fmt hnext]
    rfl

end

/-! ## Bytes and lengths -/

theorem letter_ne_zero {c l : Byte} (h : letter c = some l) : l ≠ 0 := by
  rw [letter] at h
  repeat' split at h
  all_goals cases h
  all_goals decide

theorem plain_escaped {c : Byte} (hc : c ≠ 0) : Plain (escaped c) := by
  rw [escaped]
  split
  · exact .cons hc plain_nil
  · cases hl : letter c with
    | some l => exact .cons (by decide) (.cons (letter_ne_zero hl) plain_nil)
    | none =>
      -- a hexadecimal digit is no NUL
      have hdigit : ∀ n < 16, hexDigit n ≠ 0 := by decide
      have hbyte := c.isLt
      exact .cons (by decide) (.cons (by decide) (.cons (by decide) (.cons (by decide)
        (.cons (hdigit _ (by omega)) (.cons (hdigit _ (by omega)) plain_nil)))))

theorem plain_quoted {s : List Byte} (hs : Plain s) : Plain (quoted s) := by
  refine .cons (by decide) (.append (fun c hc => ?_) (.cons (by decide) plain_nil))
  obtain ⟨d, hd, hc⟩ := List.mem_flatMap.mp hc
  exact plain_escaped (hs d hd) c hc

theorem plain_whenFmt {fmt : Bool} {bytes : List Byte} (h : Plain bytes) :
    Plain (whenFmt fmt bytes) := by
  cases fmt with
  | false => exact plain_nil
  | true => exact h

theorem plain_tabs (n : Nat) : Plain (tabs n) := fun c hc => by
  rw [List.eq_of_mem_replicate hc]
  decide

theorem plain_newline (n : Nat) : Plain (newline :: tabs n) := .cons (by decide) (plain_tabs n)

mutual

/-- There is no NUL in a text: `strlen` counts all of it. -/
theorem plain_text (fmt : Bool) : ∀ {i : Item}, i.Sound → ∀ depth : Nat, Plain (i.text fmt depth)
  | .null, _, _ => show Plain (ascii "null") by decide
  | .false, _, _ => show Plain (ascii "false") by decide
  | .true, _, _ => show Plain (ascii "true") by decide
  | .number i d, _, _ => plain_formatD i
  | .string s, hi, _ => plain_quoted hi
  | .array c, hi, depth => by
    rw [Item.text]
    -- a bracket, the elements, a bracket
    exact (Plain.cons (by decide) (plain_entriesText fmt hi true (depth + 1))).append
      (.cons (by decide) plain_nil)
  | .object c, hi, depth => by
    rw [Item.text]
    split
    · exact (Plain.cons (by decide) (plain_whenFmt (plain_newline _))).append
        (.cons (by decide) plain_nil)
    · exact (((Plain.cons (by decide) (plain_whenFmt (.cons (by decide) plain_nil))).append
        (plain_membersText fmt hi true (depth + 1))).append (plain_whenFmt (plain_newline _))).append
          (.cons (by decide) plain_nil)

theorem plain_entriesText (fmt : Bool) : ∀ {c : Chain}, c.SoundElements → ∀ (first : Bool)
    (depth : Nat), Plain (c.entriesText fmt first depth)
  | .nil, _, _, _ => plain_nil
  | .cons name i next, hc, first, depth => by
    have hcomma : Plain (if first then [] else comma fmt) := by
      cases first with
      | true => exact plain_nil
      | false => cases fmt <;> decide
    rw [Chain.entriesText]
    exact (hcomma.append (plain_text fmt hc.2.1 depth)).append
      (plain_entriesText fmt hc.2.2 false depth)

theorem plain_membersText (fmt : Bool) : ∀ {c : Chain}, c.SoundMembers → ∀ (first : Bool)
    (depth : Nat), Plain (c.membersText fmt first depth)
  | .nil, _, _, _ => plain_nil
  | .cons name i next, hc, first, depth => by
    obtain ⟨⟨s, rfl, hs⟩, hi, hnext⟩ := hc
    -- the comma, the member's line and the rest
    have hcomma : Plain (if first then [] else ch ',' :: whenFmt fmt [newline]) := by
      cases first with
      | true => exact plain_nil
      | false => cases fmt <;> decide
    have hmember : Plain (whenFmt fmt (tabs depth) ++ quoted s ++ ch ':' :: whenFmt fmt [tab] ++
        i.text fmt depth) :=
      (((plain_whenFmt (plain_tabs depth)).append (plain_quoted hs)).append
        (.cons (by decide) (plain_whenFmt (plain_tabs 1)))).append (plain_text fmt hi depth)
    rw [Chain.membersText]
    exact (hcomma.append hmember).append (plain_membersText fmt hnext false depth)

end

theorem length_quoted_le (s : List Byte) : (quoted s).length ≤ 6 * s.length + 2 := by
  -- a character is put as six at most, as `\u` with its digits
  have hescaped : ∀ c : Byte, (escaped c).length ≤ 6 := fun c => by
    rw [length_escaped, escapedLen]
    split
    · decide
    · split <;> decide
  have h : (s.flatMap escaped).length ≤ 6 * s.length := by
    induction s with
    | nil => exact Nat.le_refl 0
    | cons c s ih =>
      have hc := hescaped c
      rw [List.flatMap_cons, List.length_append, List.length_cons]
      omega
  rw [quoted, List.cons_append, List.length_cons, List.length_append, List.length_singleton]
  omega

end PgClient.Json
