import PgClient.Json.Print

/-!
# JSON texts are read as they are printed

* `parseValue_text` — an item is read back from its text, formatted or not, at any depth and in
  front of anything that does not go on with a number.
* `cJSONParse_printed` — `cJSON_Parse` after `cJSON_Print`.
* `cJSONParse_cut` — a message that is cut short is read behind its end.
-/

namespace PgClient.Json

open BlockReader Reader Text

/-! ## White space and literals -/

theorem skip_stop {c : Byte} (hc : 32 < c) (m : List Byte) : skip (c :: m) = .ok () (c :: m) := by
  apply loop_of_inr
  rw [skipTurn, look_bind_cons, if_neg fun h => absurd h.2 (BitVec.not_le.mpr hc)]
  rfl

theorem skip_cons {c : Byte} (hz : c ≠ 0) (hc : c ≤ 32) (m : List Byte) :
    skip (c :: m) = skip m := by
  refine loop_of_inl ?_ (Nat.lt_succ_self m.length)
  rw [skipTurn, look_bind_cons, if_pos ⟨hz, hc⟩, advance_bind_cons]
  rfl

theorem skip_append {p : List Byte} (hp : ∀ c ∈ p, c ≠ 0 ∧ c ≤ 32) (m : List Byte) :
    skip (p ++ m) = skip m := by
  induction p with
  | nil => rfl
  | cons c p ih =>
    obtain ⟨hc, hrest⟩ := List.forall_mem_cons.mp hp
    rw [List.cons_append, skip_cons hc.1 hc.2, ih hrest]

theorem space_tabs (fmt : Bool) (n : Nat) : ∀ c ∈ whenFmt fmt (tabs n), c ≠ 0 ∧ c ≤ 32 := by
  cases fmt with
  | false => exact fun c hc => absurd hc List.not_mem_nil
  | true =>
    intro c hc
    rw [List.eq_of_mem_replicate hc]
    decide

theorem space_newline (fmt : Bool) (n : Nat) :
    ∀ c ∈ whenFmt fmt (newline :: tabs n), c ≠ 0 ∧ c ≤ 32 := by
  cases fmt with
  | false => exact fun c hc => absurd hc List.not_mem_nil
  | true => exact List.forall_mem_cons.mpr ⟨by decide, space_tabs true n⟩

theorem matchesAt_self (m : List Byte) : ∀ lit pre : List Byte,
    matchesAt lit pre.length (pre ++ (lit ++ m)) = .ok true (pre ++ (lit ++ m)) := by
  intro lit
  -- the induction is on what is left of the word, with what matched in front
  induction lit with
  | nil => exact fun pre => rfl
  | cons x lit ih =>
    intro pre
    have hat : (pre ++ (x :: lit ++ m))[pre.length]? = some x := by
      rw [List.getElem?_append_right (Nat.le_refl _), Nat.sub_self]
      rfl
    have hnext := ih (pre ++ [x])
    rw [List.length_append, List.length_singleton, List.append_assoc] at hnext
    rw [matchesAt, look_bind hat, if_pos rfl]
    exact hnext

theorem strncmp_self (lit m : List Byte) : strncmp lit (lit ++ m) = .ok true (lit ++ m) :=
  matchesAt_self m lit []

theorem strncmp_ne {x c : Byte} (hc : c ≠ x) (lit m : List Byte) :
    strncmp (x :: lit) (c :: m) = .ok false (c :: m) := by
  rw [strncmp, matchesAt, look_bind_cons, if_neg hc]
  rfl

/-! ## Numbers -/

/-- Nothing of a number follows. -/
def Stops (m : List Byte) : Prop :=
  ∃ c rest, m = c :: rest ∧ isDigit c = false ∧ c ≠ ch '.' ∧ c ≠ ch 'e' ∧ c ≠ ch 'E'

theorem accept_self (c : Byte) (m : List Byte) : accept c (c :: m) = .ok true m := by
  rw [accept, look_bind_cons, if_pos rfl, advance_bind_cons]
  rfl

theorem accept_ne {c d : Byte} (h : d ≠ c) (m : List Byte) :
    accept c (d :: m) = .ok false (d :: m) := by
  rw [accept, look_bind_cons, if_neg h]
  rfl

theorem digitLoop_digits {ds : List Nat} (hds : ∀ d ∈ ds, d < 10) (s : Nat × Nat) {c : Byte}
    (hc : isDigit c = false) (m : List Byte) :
    loop digitTurn s (ds.map digitChar ++ c :: m) =
      .ok (ds.foldl (fun v d => 10 * v + d) s.1, s.2 + ds.length) (c :: m) := by
  -- the induction is on the digits, with any value and count before them
  induction ds generalizing s with
  | nil =>
    apply loop_of_inr
    rw [List.map_nil, List.nil_append, digitTurn, look_bind_cons, hc]
    rfl
  | cons d ds ih =>
    obtain ⟨hd, hrest⟩ := List.forall_mem_cons.mp hds
    have hturn : digitTurn s (digitChar d :: (ds.map digitChar ++ c :: m)) =
        .ok (.inl (10 * s.1 + d, s.2 + 1)) (ds.map digitChar ++ c :: m) := by
      rw [digitTurn, look_bind_cons, if_pos (isDigit_digitChar d hd), advance_bind_cons,
        digitChar_toNat d hd, Nat.add_sub_cancel_left]
      rfl
    rw [List.map_cons, List.cons_append, loop_of_inl hturn (Nat.lt_succ_self _), ih hrest,
      List.foldl_cons, List.length_cons]
    congr 2
    omega

theorem readInteger_stop {c : Byte} (hc : ¬ (ch '1' ≤ c ∧ c ≤ ch '9')) (m : List Byte) :
    readInteger (c :: m) = .ok (0, 0) (c :: m) := by
  rw [readInteger, look_bind_cons, if_neg hc]
  rfl

theorem digitChar_ne_zero : ∀ d < 10, d ≠ 0 →
    digitChar d ≠ ch '0' ∧ ch '1' ≤ digitChar d ∧ digitChar d ≤ ch '9' := by decide

theorem not_digit {c : Byte} (hc : isDigit c = false) : ¬ (ch '1' ≤ c ∧ c ≤ ch '9') := by
  rintro ⟨hlow, hhigh⟩
  have hdigit : isDigit c = true := by
    rw [isDigit, Bool.and_eq_true, decide_eq_true_eq, decide_eq_true_eq]
    exact ⟨BitVec.le_trans (by decide) hlow, hhigh⟩
  rw [hc] at hdigit
  cases hdigit

/-- The digits of a number, up to what stops it. -/
theorem readInteger_digits (n : Nat) {c : Byte} (hc : isDigit c = false) (m : List Byte) :
    ∃ b mid k, accept (ch '0') ((digits n).map digitChar ++ c :: m) = .ok b mid ∧
      readInteger mid = .ok (n, k) (c :: m) := by
  obtain ⟨d, ds, hds, hd, hzero⟩ := exists_digits_eq_cons n
  -- a number that begins with 0 is 0, and then no further digit is read
  by_cases hd0 : d = 0
  · obtain ⟨rfl, rfl⟩ := hzero hd0
    rw [hds, hd0]
    exact ⟨true, c :: m, 0, accept_self _ _, readInteger_stop (not_digit hc) m⟩
  · obtain ⟨hne, hrange⟩ := digitChar_ne_zero d hd hd0
    have hlt : ∀ d ∈ digits n, d < 10 := fun _ h => digits_lt h
    have hrun := digitLoop_digits hlt (0, 0) hc m
    rw [foldl_digits, hds, List.map_cons, List.cons_append] at hrun
    rw [hds, List.map_cons, List.cons_append]
    refine ⟨false, _, 0 + (d :: ds).length, accept_ne hne _, ?_⟩
    rw [readInteger, look_bind_cons, if_pos hrange]
    exact hrun

theorem readFraction_stop (n : Nat) {c : Byte} (hc : c ≠ ch '.') (m : List Byte) :
    readFraction n (c :: m) = .ok (n, 0) (c :: m) := by
  rw [readFraction, look_bind_cons, if_neg hc]
  rfl

theorem readExponent_stop {c : Byte} (he : c ≠ ch 'e') (hE : c ≠ ch 'E') (m : List Byte) :
    readExponent (c :: m) = .ok 0 (c :: m) := by
  rw [readExponent, look_bind_cons, if_neg (not_or_intro he hE)]
  rfl

theorem toInt_of_range {i : Int} (hlow : -2147483648 ≤ i) (hhigh : i ≤ 2147483647) :
    toInt i = i := by
  unfold toInt
  omega

/-- **A number is read back from what `%d` prints of it.** -/
theorem parseNumber_formatD {i : Int} (hlow : -2147483648 ≤ i) (hhigh : i ≤ 2147483647)
    {tail : List Byte} (hstop : Stops tail) :
    parseNumber (formatD i ++ tail) = .ok (.number i i) tail := by
  obtain ⟨c, m, rfl, hdigit, hpoint, he, hE⟩ := hstop
  obtain ⟨b, mid, k, hzero, hint⟩ := readInteger_digits i.natAbs hdigit m
  -- the sign is read if the number is negative; a digit is no sign
  have hsign : accept (ch '-') (formatD i ++ c :: m) =
      .ok (decide (i < 0)) ((digits i.natAbs).map digitChar ++ c :: m) := by
    rw [formatD]
    by_cases hneg : i < 0
    · rw [if_pos hneg, decide_eq_true hneg]
      exact accept_self _ _
    · rw [if_neg hneg, decide_eq_false hneg, List.nil_append]
      obtain ⟨d, ds, hds, hd, -⟩ := exists_digits_eq_cons i.natAbs
      have hminus : ∀ d < 10, digitChar d ≠ ch '-' := by decide
      rw [hds]
      exact accept_ne (hminus d hd) _
  rw [parseNumber, bind_ok hsign, bind_ok hzero, bind_ok hint,
    bind_ok (readFraction_stop i.natAbs hpoint m), bind_ok (readExponent_stop he hE m), pure_apply]
  have hvalue : (if decide (i < 0) = true then -(i.natAbs : Int) else i.natAbs) = i := by
    by_cases hneg : i < 0
    · rw [decide_eq_true hneg, if_pos rfl]
      omega
    · rw [decide_eq_false hneg, if_neg (by decide)]
      omega
  dsimp only
  rw [hvalue, toInt_of_range hlow hhigh]
  simp

/-! ## Values -/

mutual

/-- The calls of `parse_value` that are open at a time. -/
def Item.levels : Item → Nat
  | .array c => c.levels + 1
  | .object c => c.levels + 1
  | _ => 1

def Chain.levels : Chain → Nat
  | .nil => 0
  | .cons _ i next => max i.levels next.levels

end

def Item.IsNumber : Item → Prop
  | .number _ _ => True
  | _ => False

/-- The first character of a text is none of those that open no value. -/
theorem exists_text_eq_cons (fmt : Bool) {i : Item} (hi : i.Sound) (depth : Nat) :
    ∃ c rest, i.text fmt depth = c :: rest ∧ 32 < c ∧ c ≠ ch ']' := by
  cases i with
  | null => exact ⟨_, _, rfl, by decide, by decide⟩
  | false => exact ⟨_, _, rfl, by decide, by decide⟩
  | true => exact ⟨_, _, rfl, by decide, by decide⟩
  | number i d =>
    rw [Item.text, formatD]
    by_cases hneg : i < 0
    · rw [if_pos hneg]
      exact ⟨_, _, rfl, by decide, by decide⟩
    · obtain ⟨d, ds, hds, hd, -⟩ := exists_digits_eq_cons i.natAbs
      have hchar : ∀ d < 10, 32 < digitChar d ∧ digitChar d ≠ ch ']' := by decide
      rw [if_neg hneg, hds]
      exact ⟨_, _, rfl, hchar d hd⟩
  | string s => exact ⟨_, _, rfl, by decide, by decide⟩
  | array c => exact ⟨_, _, rfl, by decide, by decide⟩
  | object c =>
    rw [Item.text]
    -- an object opens with a brace, with members or without
    split
    · exact ⟨_, _, rfl, by decide, by decide⟩
    · exact ⟨_, _, rfl, by decide, by decide⟩

theorem stops_cons {c : Byte} (h : isDigit c = false ∧ c ≠ ch '.' ∧ c ≠ ch 'e' ∧ c ≠ ch 'E')
    (m : List Byte) : Stops (c :: m) := ⟨c, m, rfl, h⟩

/-- Dispatch on a character that begins none of the three words. -/
theorem parseValue_cons {c : Byte} (hn : c ≠ ch 'n') (hf : c ≠ ch 'f') (ht : c ≠ ch 't')
    (stack : Nat) (m : List Byte) : parseValue (stack + 1) (c :: m) =
      (if c = quote then parseString >>= fun s => pure (.string s)
        else if c = ch '-' ∨ isDigit c then parseNumber
        else if c = ch '[' then parseArray (parseValue stack)
        else if c = ch '{' then parseObject (parseValue stack)
        else giveUp : Reader Byte Item) (c :: m) := by
  -- each word differs in its first letter
  have hnull : strncmp (ascii "null") (c :: m) = .ok false (c :: m) :=
    strncmp_ne hn (ascii "ull") m
  have hfalse : strncmp (ascii "false") (c :: m) = .ok false (c :: m) :=
    strncmp_ne hf (ascii "alse") m
  have htrue : strncmp (ascii "true") (c :: m) = .ok false (c :: m) :=
    strncmp_ne ht (ascii "rue") m
  rw [parseValue, bind_ok hnull, if_neg (by decide), bind_ok hfalse, if_neg (by decide),
    bind_ok htrue, if_neg (by decide), look_bind_cons]

theorem parseValue_number {i : Int} (hlow : -2147483648 ≤ i) (hhigh : i ≤ 2147483647)
    {tail : List Byte} (hstop : Stops tail) (stack : Nat) :
    parseValue (stack + 1) (formatD i ++ tail) = .ok (.number i i) tail := by
  rw [← parseNumber_formatD hlow hhigh hstop]
  -- a number begins with its sign or with a digit
  obtain ⟨c, rest, heq, hc⟩ : ∃ c rest, formatD i = c :: rest ∧ (c = ch '-' ∨ isDigit c) := by
    rw [formatD]
    by_cases hneg : i < 0
    · rw [if_pos hneg]
      exact ⟨_, _, rfl, Or.inl rfl⟩
    · obtain ⟨d, ds, hds, hd, -⟩ := exists_digits_eq_cons i.natAbs
      rw [if_neg hneg, hds]
      exact ⟨_, _, rfl, Or.inr (isDigit_digitChar d hd)⟩
  have hplain : ∀ {k : Byte}, k ≠ ch '-' → isDigit k = false → c ≠ k := by
    rintro k hk hdigit rfl
    rcases hc with hc | hc
    · exact hk hc
    · rw [hdigit] at hc
      cases hc
  rw [heq, List.cons_append, parseValue_cons (hplain (by decide) (by decide))
    (hplain (by decide) (by decide)) (hplain (by decide) (by decide)),
    if_neg (hplain (by decide) (by decide)), if_pos hc]

section Nested

variable {fmt : Bool} {stack : Nat}

/-- What follows an element stops a number. -/
theorem stops_entries (c : Chain) (depth : Nat) (tail : List Byte) :
    Stops (c.entriesText fmt false depth ++ ch ']' :: tail) := by
  cases c with
  | nil => exact stops_cons (by decide) _
  | cons name i next =>
    rw [Chain.entriesText, if_neg (by decide), comma]
    exact stops_cons (by decide) _

theorem stops_members (c : Chain) (depth k : Nat) (tail : List Byte) :
    Stops (c.membersText fmt false depth ++ (whenFmt fmt (newline :: tabs k) ++ ch '}' :: tail)) := by
  cases c with
  | nil =>
    cases fmt with
    | false => exact stops_cons (by decide) _
    | true => exact stops_cons (by decide) _
  | cons name i next =>
    rw [Chain.membersText, if_neg (by decide)]
    exact stops_cons (by decide) _

/-- The end of an array. -/
theorem arrayTurn_close (child : Chain) (tail : List Byte) :
    arrayTurn (parseValue stack) child (ch ']' :: tail) = .ok (.inr child) tail := by
  rw [arrayTurn, look_bind_cons, if_neg (by decide), if_pos rfl, advance_bind_cons]
  rfl

theorem objectTurn_close (child : Chain) (tail : List Byte) :
    objectTurn (parseValue stack) child (ch '}' :: tail) = .ok (.inr child) tail := by
  rw [objectTurn, look_bind_cons, if_neg (by decide), if_pos rfl, advance_bind_cons]
  rfl

/-- An element behind a comma. -/
theorem arrayTurn_comma {child : Chain} {i : Item} (hi : i.Sound) {depth : Nat} {rest m : List Byte}
    (hvalue : parseValue stack (i.text fmt depth ++ rest) = .ok i rest)
    (hrest : skip rest = .ok () m) :
    arrayTurn (parseValue stack) child (comma fmt ++ (i.text fmt depth ++ rest)) =
      .ok (.inl (child.snoc none i)) m := by
  have hskip : skip ((if fmt then [ch ' '] else []) ++ (i.text fmt depth ++ rest)) =
      .ok () (i.text fmt depth ++ rest) := by
    -- behind a comma there is a blank in the formatted text, and nothing in the other
    have hspace : ∀ c ∈ (if fmt then [ch ' '] else []), c ≠ 0 ∧ c ≤ 32 := by
      cases fmt with
      | false => exact fun c hc => absurd hc List.not_mem_nil
      | true => exact List.forall_mem_cons.mpr ⟨by decide, fun c hc => absurd hc List.not_mem_nil⟩
    obtain ⟨c, text, htext, hc, -⟩ := exists_text_eq_cons fmt hi depth
    rw [skip_append hspace, htext]
    exact skip_stop hc _
  rw [comma, List.cons_append, arrayTurn, look_bind_cons, if_pos rfl, advance_bind_cons,
    bind_ok hskip, bind_ok hvalue, bind_ok hrest]
  rfl

/-- A member, from the white space in front of its name on. -/
theorem parseMember_text {name : List Byte} (hname : Plain name) {i : Item} (hi : i.Sound)
    {depth : Nat} {p rest m : List Byte} (hp : ∀ c ∈ p, c ≠ 0 ∧ c ≤ 32)
    (hvalue : parseValue stack (i.text fmt depth ++ rest) = .ok i rest)
    (hrest : skip rest = .ok () m) :
    parseMember (parseValue stack) (p ++ (quoted name ++
      (ch ':' :: (whenFmt fmt [tab] ++ (i.text fmt depth ++ rest))))) = .ok (name, i) m := by
  -- the value begins with no white space, so that `skip` stops at it
  have hopen : ∀ x : List Byte, skip (p ++ (quoted name ++ x)) = .ok () (quoted name ++ x) :=
    fun x => by
      rw [skip_append hp]
      exact skip_stop (by decide) _
  have hvalueSkip : skip (whenFmt fmt [tab] ++ (i.text fmt depth ++ rest)) =
      .ok () (i.text fmt depth ++ rest) := by
    obtain ⟨c, text, htext, hc, -⟩ := exists_text_eq_cons fmt hi depth
    rw [show whenFmt fmt [tab] = whenFmt fmt (tabs 1) from rfl, skip_append (space_tabs fmt 1), htext]
    exact skip_stop hc _
  rw [parseMember, bind_ok (hopen _), bind_ok (parseString_quoted hname _),
    bind_ok (skip_stop (by decide) _), look_bind_cons, if_neg (by decide), advance_bind_cons,
    bind_ok hvalueSkip, bind_ok hvalue, bind_ok hrest]
  rfl

/-- A member behind a comma. -/
theorem objectTurn_comma {child : Chain} {name : List Byte} (hname : Plain name) {i : Item}
    (hi : i.Sound) {depth k : Nat} {rest m : List Byte}
    (hvalue : parseValue stack (i.text fmt depth ++ rest) = .ok i rest)
    (hrest : skip rest = .ok () m) :
    objectTurn (parseValue stack) child (ch ',' :: (whenFmt fmt (newline :: tabs k) ++
      (quoted name ++ (ch ':' :: (whenFmt fmt [tab] ++ (i.text fmt depth ++ rest)))))) =
      .ok (.inl (child.snoc (some name) i)) m := by
  rw [objectTurn, look_bind_cons, if_pos rfl, advance_bind_cons,
    bind_ok (parseMember_text hname hi (space_newline fmt k) hvalue hrest)]
  rfl

mutual

/-- **An item is read back from its text**, if what follows does not go on with a number. -/
theorem parseValue_text : ∀ {i : Item}, i.Sound → ∀ {stack : Nat} (depth : Nat) {tail : List Byte},
    i.levels ≤ stack → (i.IsNumber → Stops tail) →
    parseValue stack (i.text fmt depth ++ tail) = .ok i tail
  | i, _, 0, _, _, hlevels, _ => by
    -- every item has a level
    cases i <;> cases hlevels
  | .null, _, stack + 1, depth, tail, _, _ => by
    rw [Item.text, parseValue, bind_ok (strncmp_self (ascii "null") tail), if_pos rfl,
      bind_ok (advance_apply (by rw [List.length_append]; exact Nat.le_add_right 4 _))]
    rfl
  | .false, _, stack + 1, depth, tail, _, _ => by
    -- the words are tried one after the other
    have hnull : strncmp (ascii "null") (ascii "false" ++ tail) = .ok false (ascii "false" ++ tail) :=
      strncmp_ne (by decide) (ascii "ull") (ascii "alse" ++ tail)
    rw [Item.text, parseValue, bind_ok hnull, if_neg (by decide),
      bind_ok (strncmp_self (ascii "false") tail), if_pos rfl,
      bind_ok (advance_apply (by rw [List.length_append]; exact Nat.le_add_right 5 _))]
    rfl
  | .true, _, stack + 1, depth, tail, _, _ => by
    have hnull : strncmp (ascii "null") (ascii "true" ++ tail) = .ok false (ascii "true" ++ tail) :=
      strncmp_ne (by decide) (ascii "ull") (ascii "rue" ++ tail)
    have hfalse : strncmp (ascii "false") (ascii "true" ++ tail) =
        .ok false (ascii "true" ++ tail) :=
      strncmp_ne (by decide) (ascii "alse") (ascii "rue" ++ tail)
    rw [Item.text, parseValue, bind_ok hnull, if_neg (by decide), bind_ok hfalse,
      if_neg (by decide), bind_ok (strncmp_self (ascii "true") tail), if_pos rfl,
      bind_ok (advance_apply (by rw [List.length_append]; exact Nat.le_add_right 4 _))]
    rfl
  | .number i d, hi, stack + 1, depth, tail, _, hstop => by
    obtain ⟨rfl, hlow, hhigh⟩ := hi
    exact parseValue_number hlow hhigh (hstop trivial) stack
  | .string s, hi, stack + 1, depth, tail, _, _ => by
    have hquote : parseValue (stack + 1) (quoted s ++ tail) =
        (parseString >>= fun s => pure (.string s)) (quoted s ++ tail) :=
      parseValue_cons (by decide) (by decide) (by decide) stack _
    rw [Item.text, hquote, bind_ok (parseString_quoted hi tail)]
    rfl
  | .array .nil, _, stack + 1, depth, tail, _, _ => by
    have hopen : parseValue (stack + 1) (ch '[' :: (ch ']' :: tail)) =
        parseArray (parseValue stack) (ch '[' :: (ch ']' :: tail)) :=
      parseValue_cons (by decide) (by decide) (by decide) stack _
    show parseValue (stack + 1) (ch '[' :: (ch ']' :: tail)) = _
    rw [hopen, parseArray, look_bind_cons, if_neg (by decide), advance_bind_cons,
      bind_ok (skip_stop (by decide) _), look_bind_cons, if_pos rfl, advance_bind_cons]
    rfl
  | .array (.cons name i next), hi, stack + 1, depth, tail, hlevels, _ => by
    obtain ⟨rfl, hi, hnext⟩ := hi
    rw [Item.levels, Chain.levels] at hlevels
    have hlevels := max_le_iff.mp (Nat.le_of_succ_le_succ hlevels)
    have htext : (Item.array (.cons none i next)).text fmt depth ++ tail =
        ch '[' :: (i.text fmt (depth + 1) ++ (next.entriesText fmt false (depth + 1) ++
          ch ']' :: tail)) := by
      rw [Item.text, Chain.entriesText, if_pos rfl]
      simp
    -- the first element is read here, the others in the loop
    obtain ⟨m, hrest, hloop⟩ := elements_text hnext (depth + 1) tail (.cons none i .nil) hlevels.2
    have hvalue : parseValue stack (i.text fmt (depth + 1) ++
        (next.entriesText fmt false (depth + 1) ++ ch ']' :: tail)) = .ok i _ :=
      parseValue_text hi (depth + 1) hlevels.1 fun _ => stops_entries next (depth + 1) tail
    obtain ⟨c, text, hc, hspace, hclose⟩ := exists_text_eq_cons fmt hi (depth + 1)
    have hopen : ∀ m : List Byte, parseValue (stack + 1) (ch '[' :: m) =
        parseArray (parseValue stack) (ch '[' :: m) := fun m =>
      parseValue_cons (by decide) (by decide) (by decide) stack m
    rw [htext, hopen]
    rw [hc, List.cons_append] at hvalue ⊢
    rw [parseArray, look_bind_cons, if_neg (by decide), advance_bind_cons,
      bind_ok (skip_stop hspace _), look_bind_cons, if_neg hclose, bind_ok (skip_stop hspace _),
      bind_ok hvalue, bind_ok hrest, bind_ok hloop]
    rfl
  | .object .nil, _, stack + 1, depth, tail, _, _ => by
    have hopen : ∀ m : List Byte, parseValue (stack + 1) (ch '{' :: m) =
        parseObject (parseValue stack) (ch '{' :: m) := fun m =>
      parseValue_cons (by decide) (by decide) (by decide) stack m
    have htext : (Item.object .nil).text fmt depth ++ tail =
        ch '{' :: (whenFmt fmt (newline :: tabs (depth - 1)) ++ ch '}' :: tail) := by
      rw [Item.text, Chain.size, if_pos rfl]
      simp
    have hspace : skip (whenFmt fmt (newline :: tabs (depth - 1)) ++ ch '}' :: tail) =
        .ok () (ch '}' :: tail) := by
      rw [skip_append (space_newline fmt _)]
      exact skip_stop (by decide) tail
    rw [htext, hopen, parseObject, look_bind_cons, if_neg (by decide), advance_bind_cons,
      bind_ok hspace, look_bind_cons, if_pos rfl, advance_bind_cons]
    rfl
  | .object (.cons name i next), hi, stack + 1, depth, tail, hlevels, _ => by
    obtain ⟨⟨s, rfl, hs⟩, hi, hnext⟩ := hi
    rw [Item.levels, Chain.levels] at hlevels
    have hlevels := max_le_iff.mp (Nat.le_of_succ_le_succ hlevels)
    -- the first member is read here, the others in the loop
    obtain ⟨m, hrest, hloop⟩ := members_text hnext (depth + 1) depth tail (.cons (some s) i .nil)
      hlevels.2
    have hvalue : parseValue stack (i.text fmt (depth + 1) ++
        (next.membersText fmt false (depth + 1) ++ (whenFmt fmt (newline :: tabs depth) ++
          ch '}' :: tail))) = .ok i _ :=
      parseValue_text hi (depth + 1) hlevels.1 fun _ => stops_members next (depth + 1) depth tail
    have htext : (Item.object (.cons (some s) i next)).text fmt depth ++ tail =
        ch '{' :: (whenFmt fmt (newline :: tabs (depth + 1)) ++ (quoted s ++ (ch ':' ::
          (whenFmt fmt [tab] ++ (i.text fmt (depth + 1) ++ (next.membersText fmt false (depth + 1) ++
            (whenFmt fmt (newline :: tabs depth) ++ ch '}' :: tail))))))) := by
      rw [Item.text, if_neg (by simp [Chain.size]), Chain.membersText, if_pos rfl]
      cases fmt <;> simp [whenFmt]
    have hopen : ∀ m : List Byte, parseValue (stack + 1) (ch '{' :: m) =
        parseObject (parseValue stack) (ch '{' :: m) := fun m =>
      parseValue_cons (by decide) (by decide) (by decide) stack m
    have hspace : ∀ x : List Byte, skip (whenFmt fmt (newline :: tabs (depth + 1)) ++
        (quoted s ++ x)) = .ok () (quoted s ++ x) := fun x => by
      rw [skip_append (space_newline fmt _)]
      exact skip_stop (by decide) _
    have hmember := parseMember_text (p := []) hs hi (fun c hc => absurd hc List.not_mem_nil) hvalue
      hrest
    rw [List.nil_append] at hmember
    have hquote : ∀ x : List Byte, quoted s ++ x = quote :: (s.flatMap escaped ++ [quote] ++ x) :=
      fun x => by rw [quoted]; simp
    rw [htext, hopen, parseObject, look_bind_cons, if_neg (by decide), advance_bind_cons,
      bind_ok (hspace _)]
    rw [hquote] at hmember ⊢
    rw [look_bind_cons, if_neg (by decide), bind_ok hmember, bind_ok hloop]
    rfl

/-- The elements behind the first one. -/
theorem elements_text : ∀ {c : Chain}, c.SoundElements → ∀ {stack : Nat} (depth : Nat)
    (tail : List Byte) (child : Chain), c.levels ≤ stack →
    ∃ m, skip (c.entriesText fmt false depth ++ ch ']' :: tail) = .ok () m ∧
      loop (arrayTurn (parseValue stack)) child m = .ok (child.append c) tail
  | .nil, _, stack, depth, tail, child, _ => by
    -- no element is left: the bracket closes the array
    refine ⟨ch ']' :: tail, skip_stop (by decide) tail, ?_⟩
    rw [loop_of_inr (arrayTurn_close child tail), Chain.append_nil]
  | .cons name i next, hc, stack, depth, tail, child, hlevels => by
    obtain ⟨rfl, hi, hnext⟩ := hc
    rw [Chain.levels] at hlevels
    have hlevels := max_le_iff.mp hlevels
    obtain ⟨m, hskip, hloop⟩ := elements_text hnext depth tail (child.snoc none i) hlevels.2
    have hvalue : parseValue stack (i.text fmt depth ++
        (next.entriesText fmt false depth ++ ch ']' :: tail)) = .ok i _ :=
      parseValue_text hi depth hlevels.1 fun _ => stops_entries next depth tail
    -- one turn reads the comma and the element; the others follow by induction on the chain
    have hturn : arrayTurn (parseValue stack) child _ = .ok (.inl (child.snoc none i)) m :=
      arrayTurn_comma hi hvalue hskip
    have htext : (Chain.cons none i next).entriesText fmt false depth ++ ch ']' :: tail =
        comma fmt ++ (i.text fmt depth ++ (next.entriesText fmt false depth ++ ch ']' :: tail)) := by
      rw [Chain.entriesText, if_neg (by decide)]
      simp
    refine ⟨_, by rw [htext, comma, List.cons_append]; exact skip_stop (by decide) _, ?_⟩
    rw [← List.cons_append, ← comma, loop_of_inl hturn (arrayTurn_go (proper_parseValue stack) hturn),
      hloop, Chain.snoc_append]

/-- The members behind the first one. -/
theorem members_text : ∀ {c : Chain}, c.SoundMembers → ∀ {stack : Nat} (depth k : Nat)
    (tail : List Byte) (child : Chain), c.levels ≤ stack →
    ∃ m, skip (c.membersText fmt false depth ++ (whenFmt fmt (newline :: tabs k) ++
        ch '}' :: tail)) = .ok () m ∧
      loop (objectTurn (parseValue stack)) child m = .ok (child.append c) tail
  | .nil, _, stack, depth, k, tail, child, _ => by
    -- no member is left: the brace closes the object
    refine ⟨ch '}' :: tail, ?_, ?_⟩
    · rw [Chain.membersText, List.nil_append, skip_append (space_newline fmt k)]
      exact skip_stop (by decide) tail
    · rw [loop_of_inr (objectTurn_close child tail), Chain.append_nil]
  | .cons name i next, hc, stack, depth, k, tail, child, hlevels => by
    obtain ⟨⟨s, rfl, hs⟩, hi, hnext⟩ := hc
    rw [Chain.levels] at hlevels
    have hlevels := max_le_iff.mp hlevels
    obtain ⟨m, hskip, hloop⟩ := members_text hnext depth k tail (child.snoc (some s) i) hlevels.2
    have hvalue : parseValue stack (i.text fmt depth ++ (next.membersText fmt false depth ++
        (whenFmt fmt (newline :: tabs k) ++ ch '}' :: tail))) = .ok i _ :=
      parseValue_text hi depth hlevels.1 fun _ => stops_members next depth k tail
    -- one turn reads the comma, the name and the value
    have hturn : objectTurn (parseValue stack) child _ = .ok (.inl (child.snoc (some s) i)) m :=
      objectTurn_comma (k := depth) hs hi hvalue hskip
    have htext : (Chain.cons (some s) i next).membersText fmt false depth ++
        (whenFmt fmt (newline :: tabs k) ++ ch '}' :: tail) =
          ch ',' :: (whenFmt fmt (newline :: tabs depth) ++ (quoted s ++ (ch ':' ::
            (whenFmt fmt [tab] ++ (i.text fmt depth ++ (next.membersText fmt false depth ++
              (whenFmt fmt (newline :: tabs k) ++ ch '}' :: tail))))))) := by
      rw [Chain.membersText, if_neg (by decide)]
      cases fmt <;> simp [whenFmt]
    refine ⟨_, by rw [htext]; exact skip_stop (by decide) _, ?_⟩
    rw [loop_of_inl hturn (objectTurn_go (proper_parseValue stack) hturn), hloop, Chain.snoc_append]

end

end Nested

theorem parse_text {i : Item} (hi : i.Sound) (fmt : Bool) {stack : Nat} (hstack : i.levels ≤ stack)
    {tail : List Byte} (hstop : i.IsNumber → Stops tail) :
    cJSONParse stack (i.text fmt 0 ++ tail) = .ok i tail := by
  have hvalue : parseValue stack (i.text fmt 0 ++ tail) = .ok i tail :=
    parseValue_text hi 0 hstack hstop
  obtain ⟨c, rest, htext, hc, -⟩ := exists_text_eq_cons fmt hi 0
  rw [htext, List.cons_append] at hvalue ⊢
  rw [cJSONParse, parseWithOpts, bind_ok (skip_stop hc _), bind_ok hvalue]
  rfl

/-- **A message is read back from what is printed of it**, formatted or not. -/
theorem cJSONParse_printed {i : Item} (hi : i.Sound) (fmt : Bool) {stack : Nat}
    (hstack : i.levels ≤ stack) {tail : List Byte} (hstop : i.IsNumber → Stops tail) :
    ∃ text, printValue fmt i 0 = some text ∧ cJSONParse stack (text ++ tail) = .ok i tail :=
  ⟨_, printValue_eq fmt hi 0, parse_text hi fmt hstack hstop⟩

/-- A nested item with an escaped name, in front of the NUL. -/
theorem cJSONParse_printed_nested :
    ∃ text, printValue true (.object (.cons (some [quote]) (.array (.cons none (.number (-5) (-5))
      .nil)) .nil)) 0 = some text ∧ cJSONParse 3 (text ++ [0]) =
        .ok (.object (.cons (some [quote]) (.array (.cons none (.number (-5) (-5)) .nil)) .nil))
          [0] :=
  cJSONParse_printed (i := .object (.cons (some [quote]) (.array (.cons none (.number (-5) (-5))
    .nil)) .nil)) ⟨⟨_, rfl, by decide⟩, ⟨rfl, ⟨by norm_num, by decide, by decide⟩, trivial⟩, trivial⟩
    true (by decide) fun h => absurd h id

/-! ## Messages that are cut short -/

mutual

/-- Every level puts a character. -/
theorem levels_le_length (fmt : Bool) : ∀ {i : Item}, i.Sound → ∀ depth : Nat,
    i.levels ≤ (i.text fmt depth).length
  | .null, _, _ => show 1 ≤ (ascii "null").length by decide
  | .false, _, _ => show 1 ≤ (ascii "false").length by decide
  | .true, _, _ => show 1 ≤ (ascii "true").length by decide
  | .number i d, h, depth => by
    obtain ⟨c, rest, htext, -⟩ := exists_text_eq_cons fmt (i := .number i d) h depth
    rw [htext]
    exact Nat.le_add_left 1 rest.length
  | .string s, _, _ => Nat.le_add_left 1 (s.flatMap escaped ++ [quote]).length
  | .array c, h, depth => by
    have hc := levels_le_entries fmt h true (depth + 1)
    rw [Item.text, Item.levels, List.length_append, List.length_cons]
    omega
  | .object c, h, depth => by
    have hc := levels_le_members fmt h true (depth + 1)
    rw [Item.text, Item.levels]
    split
    · -- the text of an object without members holds both braces
      next hsize =>
      cases c with
      | nil =>
        rw [List.length_append, List.length_cons, Chain.levels]
        omega
      | cons name i next => cases hsize
    · rw [List.length_append, List.length_append, List.length_append, List.length_cons]
      omega

theorem levels_le_entries (fmt : Bool) : ∀ {c : Chain}, c.SoundElements → ∀ (first : Bool)
    (depth : Nat), c.levels ≤ (c.entriesText fmt first depth).length
  | .nil, _, _, _ => Nat.zero_le _
  | .cons name i next, h, first, depth => by
    have hi := levels_le_length fmt h.2.1 depth
    have hnext := levels_le_entries fmt h.2.2 false depth
    rw [Chain.levels, Chain.entriesText, List.length_append, List.length_append]
    omega

theorem levels_le_members (fmt : Bool) : ∀ {c : Chain}, c.SoundMembers → ∀ (first : Bool)
    (depth : Nat), c.levels ≤ (c.membersText fmt first depth).length
  | .nil, _, _, _ => Nat.zero_le _
  | .cons name i next, h, first, depth => by
    have hi := levels_le_length fmt h.2.1 depth
    have hnext := levels_le_members fmt h.2.2 false depth
    rw [Chain.levels, Chain.membersText, List.length_append, List.length_append,
      List.length_append]
    omega

end

/-- **A message that is cut short is read behind its end**: a message is no number, it comes in a
block without a NUL, and with a level of stack for every byte `cJSON_Parse` goes on to read what
is behind the block, at whatever byte the message ends. -/
theorem cJSONParse_cut {i : Item} (hi : i.Sound) (hmessage : ¬ i.IsNumber) {fmt : Bool}
    {text : List Byte} (htext : printValue fmt i 0 = some text) {stack n : Nat}
    (hstack : text.length ≤ stack) (hn : n < text.length) :
    cJSONParse stack (text.take n) = .fault := by
  cases (printValue_eq fmt hi 0).symm.trans htext
  have hlevels : i.levels ≤ stack := (levels_le_length fmt hi 0).trans hstack
  have hwhole : cJSONParse stack (i.text fmt 0 ++ []) = .ok i [] :=
    parse_text hi fmt hlevels fun h => absurd h hmessage
  have hcut : ((i.text fmt 0).take n).length < stack := by
    rw [List.length_take]
    omega
  -- the whole text is needed: nothing of it is left
  rw [List.append_nil, ← List.take_append_drop n (i.text fmt 0)] at hwhole
  refine (proper_cJSONParse stack).fault_of_cut hwhole ?_ ((ends_cJSONParse stack).back hcut)
  rw [List.length_nil, List.length_drop]
  omega

/-- A string without its last quote. -/
theorem cJSONParse_cut_string :
    cJSONParse 3 ([quote, ch 'a', quote].take 2) = .fault :=
  have htext : printValue true (.string [ch 'a']) 0 = some [quote, ch 'a', quote] := rfl
  cJSONParse_cut (i := .string [ch 'a']) (show Plain [ch 'a'] by decide) id htext (by decide)
    (by decide)

end PgClient.Json
