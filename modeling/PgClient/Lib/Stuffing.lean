import Mathlib.Tactic.Common

/-!
# Byte stuffing

A stuffing code sends each special symbol as an escape followed by a substitute.
The escape itself is special.

* `unescape_escape_append`, `unescape_escape` — what was escaped is found again.
* `length_le_escape`, `length_escape_le` — escaping makes nothing shorter, and at most
  doubles the length.
* `length_escape`, `length_unescape_add` — every special symbol makes it longer by one, and
  every pair shorter.
-/

/-- `enc` gives the substitute of a special symbol, `dec` what a substitute stands for. -/
structure Stuffing (α : Type*) where
  esc : α
  enc : α → Option α
  dec : α → Option α
  dec_enc : ∀ {b c}, enc b = some c → dec c = some b
  enc_esc : enc esc ≠ none

namespace Stuffing

variable {α : Type*} (s : Stuffing α)

def escape : List α → List α
  | [] => []
  | b :: bs =>
    match s.enc b with
    | some c => s.esc :: c :: escape bs
    | none => b :: escape bs

/-- Escaping never shortens. -/
theorem length_le_escape (p : List α) : p.length ≤ (s.escape p).length := by
  induction p with
  | nil => exact Nat.le_refl 0
  | cons b p ih =>
    unfold escape
    cases s.enc b <;> simp only [List.length_cons] <;> omega

/-- At worst every symbol is escaped. -/
theorem length_escape_le (p : List α) : (s.escape p).length ≤ 2 * p.length := by
  induction p with
  | nil => exact Nat.le_refl 0
  | cons b p ih =>
    unfold escape
    cases s.enc b <;> simp only [List.length_cons] <;> omega

/-- The number of special symbols. -/
def specials (p : List α) : Nat := p.countP fun b => (s.enc b).isSome

/-- It adds one symbol for each special one. -/
theorem length_escape (p : List α) : (s.escape p).length = p.length + s.specials p := by
  induction p with
  | nil => rfl
  | cons b p ih =>
    unfold specials at ih ⊢
    rw [escape, List.countP_cons, List.length_cons]
    cases s.enc b with
    | none =>
      rw [List.length_cons, ih, if_neg (by simp)]
      omega
    | some c =>
      rw [List.length_cons, List.length_cons, ih, if_pos Option.isSome_some]
      omega

/-- A special symbol becomes a pair behind the escape. -/
theorem escape_cons_enc {b c : α} (h : s.enc b = some c) (p : List α) :
    s.escape (b :: p) = s.esc :: c :: s.escape p := by
  rw [escape, h]

/-- Any other stands for itself. -/
theorem escape_cons_raw {b : α} (h : s.enc b = none) (p : List α) :
    s.escape (b :: p) = b :: s.escape p := by
  rw [escape, h]

/-- Parts can be escaped on their own. -/
theorem escape_append (p q : List α) : s.escape (p ++ q) = s.escape p ++ s.escape q := by
  induction p with
  | nil => rfl
  | cons b p ih =>
    rw [List.cons_append]
    cases henc : s.enc b with
    | some c => rw [s.escape_cons_enc henc, s.escape_cons_enc henc, ih]; rfl
    | none => rw [s.escape_cons_raw henc, s.escape_cons_raw henc, ih]; rfl

/-- An element that needs no pair is not the escape. -/
theorem ne_esc_of_raw {b : α} (h : s.enc b = none) : b ≠ s.esc := fun heq => s.enc_esc (heq ▸ h)

variable [DecidableEq α]

/-- An escape with no substitute after it stands for itself. -/
def unescape : List α → List α
  | [] => []
  | [b] => [b]
  | b :: c :: bs =>
    if b = s.esc then
      match s.dec c with
      | some x => x :: unescape bs
      -- not a pair: the escape stands for itself
      | none => b :: unescape (c :: bs)
    else b :: unescape (c :: bs)

/-- A symbol that is no escape is passed on. -/
theorem unescape_cons {b : α} (hb : b ≠ s.esc) (bs : List α) :
    s.unescape (b :: bs) = b :: s.unescape bs := by
  cases bs with
  | nil => rfl
  | cons c bs => rw [unescape, if_neg hb]

/-- An escape with a code behind it gives the symbol of the code. -/
theorem unescape_esc {c x : α} (hc : s.dec c = some x) (bs : List α) :
    s.unescape (s.esc :: c :: bs) = x :: s.unescape bs := by
  rw [unescape, if_pos rfl, hc]

/-- One without a code is passed on, and what is behind it is looked at again. -/
theorem unescape_esc_none {c : α} (hc : s.dec c = none) (bs : List α) :
    s.unescape (s.esc :: c :: bs) = s.esc :: s.unescape (c :: bs) := by
  rw [unescape, if_pos rfl, hc]

/-- Escaped symbols are recovered, whatever follows them. -/
theorem unescape_escape_append (p bs : List α) :
    s.unescape (s.escape p ++ bs) = p ++ s.unescape bs := by
  induction p with
  | nil => rfl
  | cons b p ih =>
    cases henc : s.enc b with
    | some c =>
      rw [s.escape_cons_enc henc, List.cons_append, List.cons_append,
        s.unescape_esc (s.dec_enc henc), ih]
      rfl
    | none =>
      rw [s.escape_cons_raw henc, List.cons_append, s.unescape_cons (s.ne_esc_of_raw henc), ih]
      rfl

/-- Unescaping undoes escaping. -/
theorem unescape_escape (p : List α) : s.unescape (s.escape p) = p := by
  simpa [unescape] using s.unescape_escape_append p []

/-- The number of escapes with a substitute behind them. -/
def pairs (bs : List α) : Nat :=
  (bs.zip bs.tail).countP fun x => x.1 = s.esc ∧ (s.dec x.2).isSome = true

/-- A pair is an escape with a code behind it. -/
theorem pairs_cons_cons (b c : α) (bs : List α) :
    s.pairs (b :: c :: bs) =
      s.pairs (c :: bs) + if b = s.esc ∧ (s.dec c).isSome = true then 1 else 0 := by
  simp only [pairs, List.tail_cons, List.zip_cons_cons, List.countP_cons, decide_eq_true_eq]

/-- A symbol that is no escape begins none. -/
theorem pairs_cons_of_ne {b : α} (hb : b ≠ s.esc) (bs : List α) : s.pairs (b :: bs) = s.pairs bs := by
  cases bs with
  | nil => rfl
  | cons c bs => rw [s.pairs_cons_cons, if_neg fun h => hb h.1, Nat.add_zero]

/-- Where the escape is no substitute, every pair becomes one symbol. -/
theorem length_unescape_add (hesc : s.dec s.esc = none) (bs : List α) :
    (s.unescape bs).length + s.pairs bs = bs.length := by
  induction bs using Stuffing.unescape.induct (s := s) with
  | case1 => rfl
  | case2 b => rfl
  | case3 c bs x hc ih =>
    -- the substitute is no escape, so the next pair starts behind it
    have hne : c ≠ s.esc := fun heq => by rw [heq, hesc] at hc; cases hc
    rw [s.unescape_esc hc, s.pairs_cons_cons, if_pos ⟨rfl, by rw [hc]; rfl⟩, s.pairs_cons_of_ne hne]
    simp only [List.length_cons]
    omega
  | case4 c bs hc ih =>
    rw [s.unescape_esc_none hc, s.pairs_cons_cons, if_neg (by rw [hc]; simp)]
    simp only [List.length_cons] at ih ⊢
    omega
  | case5 b c bs hb ih =>
    rw [s.unescape_cons hb, s.pairs_cons_of_ne hb]
    simp only [List.length_cons] at ih ⊢
    omega

end Stuffing
