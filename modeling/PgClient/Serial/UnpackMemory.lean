import Mathlib.Data.List.Chain
import PgClient.Serial.Capture

/-!
# What `dataunpack` touches

The receiver delimits a frame by its flags, and `dataunpack` trusts the length field in it.

* `catchOps_delimited` — the frames that the receiver leaves in `uartcatch`.
* `unpackRun_outcome` — what `dataunpack` reads and stores of such a frame.
* `captured_unpacksSafely_iff` — on which of them it stays inside its buffers.
-/

namespace PgClient.Serial

open PartialRun (runAll)

/-! ## The code -/

/-- The bytes that `dataunpack` has read, by their index from `inBuf` on, what it has stored,
and whether it has returned before the CRC is taken. -/
structure UnpackRun where
  reads : List Nat
  data : List Byte
  refused : Bool

/-- The loop of `dataunpack` from index `i` on, with `n` turns left, on the memory from
`inBuf` on. -/
def unpackTurns (mem : Nat → Byte) (nlen : Nat) : Nat → Nat → FrameState → UnpackRun → UnpackRun
  | 0, _, _, r => r
  | n + 1, i, state, r =>
    match unpackByte nlen i state (mem (4 + i)) with
    | .skip state => unpackTurns mem nlen n (i + 1) state { r with reads := r.reads ++ [4 + i] }
    | .store state byte =>
      unpackTurns mem nlen n (i + 1) state
        { r with reads := r.reads ++ [4 + i], data := r.data ++ [byte] }
    | .frameError => { r with reads := r.reads ++ [4 + i], refused := true }

/-- `dataunpack` up to the CRC. The second byte is looked at only if the first one is wrong. -/
def unpackRun (mem : Nat → Byte) : UnpackRun :=
  if mem 0 ≠ 0x55 then
    if mem 1 ≠ 0xaa then ⟨[0, 1], [], true⟩
    else
      let nlen := (le16 [mem 2, mem 3]).toNat
      unpackTurns mem nlen nlen 0 .outsideFrame ⟨[0, 1, 2, 3], [], false⟩
  else
    let nlen := (le16 [mem 2, mem 3]).toNat
    unpackTurns mem nlen nlen 0 .outsideFrame ⟨[0, 2, 3], [], false⟩

/-- The size of `buf` in `boxRcvThread`, which is the `outBuf` of `dataunpack`. -/
def boxBufSize : Nat := 1024

/-- The memory begins with these bytes. -/
def BeginsWith (mem : Nat → Byte) (f : List Byte) : Prop := ∀ k b, f[k]? = some b → mem k = b

/-- Whatever lies behind the frame, only its bytes are read, the length of what the CRC is
computed of is not negative, and what is stored fits the buffer. -/
def UnpacksSafely (f : List Byte) : Prop :=
  ∀ mem, BeginsWith mem f →
    (∀ k ∈ (unpackRun mem).reads, k < f.length) ∧
      ((unpackRun mem).refused = false → 0 ≤ ((unpackRun mem).data.length : Int) - 4) ∧
      (unpackRun mem).data.length ≤ boxBufSize

/-! ## The condition -/

/-- The length field of a frame. -/
def frameLength (f : List Byte) : Nat := (le16 (f.drop 2)).toNat

/-- The bytes between the flags. -/
def frameBody (f : List Byte) : List Byte := RingBuffer.slice f 6 (f.length - 8)

/-- The bytes of the body in front of the place where the length field has the closing flags. -/
def coveredBody (f : List Byte) : List Byte := (frameBody f).take (frameLength f - 2)

/-- Behind every escape, except at the end, is one of the two substitutes. -/
def EscapesWhole (q : List Byte) : Prop :=
  q.IsChain fun b c => b = 0x7d → c = 0x5d ∨ c = 0x5e

/-- The bytes that are no escapes. -/
def plainBytes (q : List Byte) : Nat := q.countP (· ≠ 0x7d)

/-- The closing flags are where the length field has them, or behind what it covers. -/
def EndsInTime (f : List Byte) : Prop :=
  frameLength f ≤ (frameBody f).length + 2 ∨
    frameLength f = (frameBody f).length + 4 ∧ (frameBody f).getLast? ≠ some 0x7d

/-- The frame has a body; no part at its front that can be unescaped has more bytes than the
buffer, and if the part that is covered can be, it has those of a CRC. -/
structure UnpackFits (f : List Byte) : Prop where
  body : frameBody f ≠ []
  room : ∀ q, q <+: coveredBody f → EscapesWhole q → plainBytes q ≤ boxBufSize
  crc : EscapesWhole (coveredBody f) → EndsInTime f → 4 ≤ plainBytes (coveredBody f)

/-- The bytes `l` and `h` of a length field, and a body between flags. -/
def enclosed (l h : Byte) (body : List Byte) : List Byte :=
  [0x55, 0xaa, l, h, 0x7e, 0x7e] ++ body ++ [0x7e, 0x7e]

/-- The only flags are those round the body. -/
def Delimited (f : List Byte) : Prop := ∃ l h body, 0x7e ∉ body ∧ f = enclosed l h body

/-! ## What is captured -/

/-- Where the flags are in what is captured; `c` is what `uartcatch` holds. -/
def FlagsAtEnd : UartState → List Byte → Prop
  | .recvData, c => 0x7e ∉ c.drop 6
  | .recvEnd, c => ∃ body, 0x7e ∉ body ∧ c.drop 6 = body ++ [0x7e]
  | .recvBusy, c => ∃ body, 0x7e ∉ body ∧ c.drop 6 = body ++ [0x7e, 0x7e]
  | _, _ => True

namespace CatchBuf

def Flagged (p : CatchBuf) : Prop := FlagsAtEnd p.uartstate (p.uartcatch.take p.uartrecvcnt)

/-- The same, when the byte is stored and the `switch` is still to come. -/
theorem Flagged.store {byte : Byte} {p q : CatchBuf} (h : p.Caught) (hflags : p.Flagged)
    (hstore : catchStore byte p = some q) :
    FlagsAtEnd q.uartstate (q.uartcatch.take (q.uartrecvcnt - 1)) := by
  -- the count is put back to 0, or is as it was
  have hfull : p.ifFull.Flagged := by
    unfold CatchBuf.ifFull
    split_ifs
    · exact trivial
    · exact hflags
  have hptr := h.ifFull.1.curuartptr
  rw [catchStore] at hstore
  split_ifs at hstore
  obtain rfl := Option.some.inj hstore
  show FlagsAtEnd p.ifFull.uartstate ((p.ifFull.uartcatch.set _ byte).take p.ifFull.uartrecvcnt)
  rw [hptr, Int.toNat_natCast, List.take_set_of_le le_rfl]
  exact hfull

/-- Behind the head a byte that is a flag closes the frame, and another one leaves it open. -/
theorem CaughtNext.flagged {byte : Byte} {p : CatchBuf} (h : p.CaughtNext byte)
    (hflags : FlagsAtEnd p.uartstate (p.uartcatch.take (p.uartrecvcnt - 1))) :
    (catchSwitch byte p).1.Flagged := by
  have hcaptured := h.captured
  have hbyte := h.byte
  unfold catchSwitch
  cases hstate : p.uartstate <;> rw [hstate] at hcaptured hflags <;> dsimp only
  case idle => split_ifs <;> exact trivial
  case recvBegin => split_ifs <;> exact trivial
  case recvLength => split_ifs <;> exact trivial
  case recvHead =>
    obtain ⟨hk, l, hi, hc⟩ := hcaptured
    split_ifs with hb hlast
    · -- the head is complete, and nothing is behind it
      have hone : p.uartbytecnt = 1 := by omega
      show 0x7e ∉ (p.uartcatch.take p.uartrecvcnt).drop 6
      rw [hbyte, hc, hone]
      nofun
    · exact trivial
    · exact trivial
  case recvData =>
    obtain ⟨l, hi, body, hc⟩ := hcaptured
    have hbody : (p.uartcatch.take (p.uartrecvcnt - 1)).drop 6 = body := by
      rw [hc]
      rfl
    have hdrop : (p.uartcatch.take p.uartrecvcnt).drop 6 = body ++ [byte] := by
      rw [hbyte, hc]
      rfl
    have hfree : 0x7e ∉ body := hbody ▸ hflags
    split_ifs with hb
    -- the first closing flag, or one byte more of the body
    · exact ⟨body, hfree, by rw [← hb]; exact hdrop⟩
    · show FlagsAtEnd p.uartstate _
      rw [hstate]
      show 0x7e ∉ (p.uartcatch.take p.uartrecvcnt).drop 6
      rw [hdrop, List.mem_append, List.mem_singleton]
      exact not_or.mpr ⟨hfree, Ne.symm hb⟩
  case recvEnd =>
    obtain ⟨l, hi, body, hc⟩ := hcaptured
    obtain ⟨body', hfree, hbody⟩ := hflags
    split_ifs with hb
    -- the second closing flag; any other byte makes the receiver begin again
    · refine ⟨body', hfree, ?_⟩
      show (p.uartcatch.take p.uartrecvcnt).drop 6 = _
      have hsix : 6 ≤ (p.uartcatch.take (p.uartrecvcnt - 1)).length := by
        rw [hc]
        simp
      rw [hbyte, List.drop_append_of_le_length hsix, hbody, hb, List.append_assoc]
      rfl
    · exact trivial
  case recvBusy => exact hflags

end CatchBuf

/-- A turn of the loop keeps the flags at the end. -/
theorem RevTurn.Going.flagged {buf : List Byte} {s s' : RevTurn} (h : s.Going buf)
    (hflags : s.p.Flagged) (hturn : revTurn buf s = .inl s' ∨
      ∃ whole, revTurn buf s = .inr (some (s', whole))) : s'.p.Flagged := by
  obtain ⟨-, hend⟩ | ⟨byte, -, hrest⟩ := revTurn_cases buf s
  -- no byte is left of the piece
  · rw [hend] at hturn
    obtain hturn | ⟨whole, hturn⟩ := hturn
    · cases hturn
    · obtain ⟨rfl, -⟩ := Prod.mk.inj (Option.some.inj (Sum.inr.inj hturn))
      exact hflags
  obtain ⟨q, hstore, hnext, -⟩ := h.caught.store byte
  -- the byte is always stored, so the turn with no room is none
  obtain ⟨hnone, -⟩ | ⟨p, t, hp, ht, -, -, hgo⟩ := hrest
  · rw [hnone] at hstore
    cases hstore
  obtain rfl : p = q := Option.some.inj (hp.symm.trans hstore)
  have hflagged : t.p.Flagged := ht ▸ hnext.flagged (hflags.store h.caught hp)
  rw [hgo] at hturn
  obtain hturn | ⟨whole, hturn⟩ := hturn
  · split_ifs at hturn
    obtain rfl := Sum.inl.inj hturn
    exact hflagged
  · split_ifs at hturn
    obtain ⟨rfl, -⟩ := Prod.mk.inj (Option.some.inj (Sum.inr.inj hturn))
    exact hflagged

/-- The loop keeps them there, too. -/
theorem catchBytes_flagged {p : CatchBuf} (h : p.Caught) (hflags : p.Flagged) {buf : List Byte}
    {s : RevTurn} {whole : Bool} (hbytes : catchBytes buf p = some (s, whole)) : s.p.Flagged := by
  refine @ConsumingLoop.run_inv _ _ (catchLoop buf) (fun s => s.Going buf ∧ s.p.Flagged)
    (fun r => ∀ s whole, r = some (s, whole) → s.p.Flagged) ?_ ?_ _ ⟨.start h buf, hflags⟩ s whole
    hbytes
  · rintro s s' ⟨hgoing, hflags⟩ hturn
    obtain ⟨t, ht, hgoing'⟩ | ⟨t, whole, ht, -⟩ := hgoing.turn
    · obtain rfl := Sum.inl.inj (ht.symm.trans hturn)
      exact ⟨hgoing', hgoing.flagged hflags (.inl hturn)⟩
    · cases ht.symm.trans hturn
  · rintro s r ⟨hgoing, hflags⟩ hturn s' whole rfl
    exact hgoing.flagged hflags (.inr ⟨whole, hturn⟩)

/-- No operation of the receiver loses a flag. -/
theorem catchOp_flagged {op : CatchOp} {p p' : CatchBuf} (h : p.Caught) (hflags : p.Flagged)
    (hop : catchOp op p = some p') : p'.Flagged := by
  cases op with
  | revData buf =>
    -- saving what is left does not touch the frame
    obtain ⟨s, whole, hbytes, -⟩ := catchBytes_going h buf
    have hs := catchBytes_flagged h hflags hbytes
    rw [catchOp, catchRevDataProcess, hbytes] at hop
    cases whole with
    | false => exact Option.some.inj hop ▸ hs
    | true =>
      dsimp only at hop
      rw [copyIn] at hop
      split_ifs at hop
      · obtain rfl := Option.some.inj hop
        exact hs
      · cases hop
  | readEnd =>
    obtain rfl := Option.some.inj hop
    rw [catchReset]
    split_ifs
    · exact trivial
    · exact hflags

/-- **What the receiver hands to `dataunpack`** in any run: a delimited frame that is not
longer than `uartcatch`. -/
theorem catchOps_delimited {p₀ p : CatchBuf} (hidle : p₀.toUartBuf.Idle) (hptr : p₀.curuartptr = 0)
    {ops : List CatchOp} (hrun : runAll catchOp ops p₀ = some p) (hdo : p.uartdo = true) :
    Delimited (p.uartcatch.take p.uartrecvcnt) := by
  have hstart : p₀.Caught ∧ p₀.Flagged := by
    refine ⟨⟨hidle.uartcatch, hidle.uartbuff, by rw [hptr, hidle.uartrecvcnt]; rfl,
      by rw [hidle.uartrecvcnt]; exact Nat.zero_le _, by simp [hidle.uartdo, hidle.uartstate],
      by rw [hidle.uartstate, hidle.uartrecvcnt]; rfl⟩, ?_⟩
    rw [CatchBuf.Flagged, hidle.uartstate]
    exact trivial
  obtain ⟨hcaught, hflags⟩ := @PartialRun.runAll_inv _ _ catchOp
    (fun p => p.Caught ∧ p.Flagged) (fun _ _ _ h hop =>
      ⟨catchOp_caught h.1 hop, catchOp_flagged h.1 h.2 hop⟩) _ _ _ hstart hrun
  have hbusy := hcaught.uartdo.mp hdo
  have hcaptured := hcaught.captured
  rw [hbusy] at hcaptured
  rw [CatchBuf.Flagged, hbusy] at hflags
  obtain ⟨l, h, body, hc⟩ := hcaptured
  obtain ⟨body', hfree, hdrop⟩ := hflags
  -- both speak of the bytes behind the head
  rw [hc, List.append_assoc] at hdrop
  obtain rfl : body = body' := List.append_cancel_right
    (show body ++ [0x7e, 0x7e] = body' ++ [0x7e, 0x7e] from hdrop)
  exact ⟨l, h, body, hfree, hc⟩

/-! ## What is read and stored -/

/-- A part of a body whose escapes are whole has whole escapes. -/
theorem escapesWhole_mono {q q' : List Byte} (h : q <+: q') (hwhole : EscapesWhole q') :
    EscapesWhole q := by
  obtain ⟨t, rfl⟩ := h
  exact (List.isChain_append.mp hwhole).1

/-- One byte more keeps the escapes whole if it ends an escape that is open. -/
theorem escapesWhole_concat {q : List Byte} {b : Byte} :
    EscapesWhole (q ++ [b]) ↔
      EscapesWhole q ∧ (q.getLast? = some 0x7d → b = 0x5d ∨ b = 0x5e) := by
  unfold EscapesWhole
  rw [List.isChain_append]
  constructor
  · rintro ⟨hq, -, hlast⟩
    exact ⟨hq, fun hesc => hlast _ hesc b rfl rfl⟩
  · rintro ⟨hq, hlast⟩
    refine ⟨hq, List.isChain_singleton _, ?_⟩
    rintro x hx y hy rfl
    obtain rfl := Option.some.inj hy
    exact hlast hx

/-- It adds a plain byte unless it opens an escape. -/
theorem plainBytes_concat (q : List Byte) (b : Byte) :
    plainBytes (q ++ [b]) = plainBytes q + if b = 0x7d then 0 else 1 := by
  rw [plainBytes, List.countP_append, List.countP_singleton, plainBytes]
  by_cases hb : b = 0x7d <;> simp [hb]

/-- More bytes are no fewer plain ones. -/
theorem plainBytes_mono {q q' : List Byte} (h : q <+: q') : plainBytes q ≤ plainBytes q' :=
  h.sublist.countP_le

/-- What has been done so far: only bytes in front of `top` were read, and `count` stored. -/
structure UnpackRun.Has (r : UnpackRun) (top count : Nat) : Prop where
  reads : ∀ k ∈ r.reads, k < top
  data : r.data.length = count

/-- The byte of the next turn is read. -/
theorem UnpackRun.Has.read {r : UnpackRun} {i count : Nat} (hr : r.Has (4 + i) count) :
    ∀ k ∈ r.reads ++ [4 + i], k < 4 + (i + 1) := by
  intro k hk
  rw [List.mem_append, List.mem_singleton] at hk
  rcases hk with hk | rfl
  · have := hr.reads k hk
    omega
  · omega

/-- The state behind a front of the body; its last escape is still open. -/
def stateBehind (q : List Byte) : FrameState :=
  if q = [] then .outsideFrame else if q.getLast? = some 0x7d then .linkEscape else .insideFrame

/-- A byte of the body. -/
theorem unpackByte_body {nlen i : Nat} {q : List Byte} {b : Byte} (hb : b ≠ 0x7e) :
    unpackByte nlen i (stateBehind q) b =
      if q.getLast? = some 0x7d then
        if b = 0x5e then .store .insideFrame (b ^^^ 0x20)
        else if b = 0x5d then .store .insideFrame (b ^^^ 0x20)
        else .frameError
      else if b = 0x7d then .skip .linkEscape
      else .store .insideFrame b := by
  have hinside : insideByte nlen i b =
      if b = 0x7d then .skip .linkEscape else .store .insideFrame b := by
    rw [insideByte, if_neg hb]
  unfold stateBehind
  -- the first byte of the body is read outside, which is as if inside
  by_cases hq : q = []
  · subst hq
    rw [if_pos rfl, if_neg (by simp)]
    simp only [unpackByte, if_neg hb, hinside]
  · rw [if_neg hq]
    split_ifs with hlast <;> simp only [unpackByte, hinside] <;> simp_all

/-- The state behind it. -/
theorem stateBehind_concat (q : List Byte) (b : Byte) :
    stateBehind (q ++ [b]) = if b = 0x7d then .linkEscape else .insideFrame := by
  rw [stateBehind, if_neg (by simp), List.getLast?_concat]
  simp only [Option.some.injEq]

section Turns

variable {mem : Nat → Byte} {nlen n i top count : Nat} {q : List Byte} {b : Byte} {r : UnpackRun}

/-- A turn whose byte goes on with the part that can be unescaped. -/
theorem turns_body (hb : mem (4 + i) = b) (hflag : b ≠ 0x7e) (hwhole : EscapesWhole (q ++ [b]))
    (hr : r.Has (4 + i) count) (hopen : r.refused = false) :
    ∃ r', unpackTurns mem nlen (n + 1) i (stateBehind q) r =
        unpackTurns mem nlen n (i + 1) (stateBehind (q ++ [b])) r' ∧
      r'.Has (4 + (i + 1)) (count + if b = 0x7d then 0 else 1) ∧ r'.refused = false := by
  have hlast := (escapesWhole_concat.mp hwhole).2
  have hreads := hr.read
  rw [unpackTurns, hb, unpackByte_body hflag, stateBehind_concat]
  by_cases hesc : q.getLast? = some 0x7d
  · -- the substitute behind an escape
    have hne : b ≠ 0x7d := by
      rintro rfl
      exact absurd (hlast hesc) (by decide)
    rw [if_pos hesc, if_neg hne]
    rcases hlast hesc with rfl | rfl
    all_goals
      exact ⟨_, rfl, ⟨hreads, by rw [List.length_append, hr.data]; rfl⟩, hopen⟩
  · rw [if_neg hesc]
    -- an escape is not stored itself
    by_cases h7d : b = 0x7d
    · rw [if_pos h7d, if_pos h7d]
      exact ⟨_, rfl, ⟨hreads, by rw [if_pos h7d]; exact hr.data⟩, hopen⟩
    · rw [if_neg h7d, if_neg h7d]
      exact ⟨_, rfl, ⟨hreads, by rw [if_neg h7d, List.length_append, hr.data]; rfl⟩, hopen⟩

/-- A turn that leaves the loop. -/
theorem turns_refused {state : FrameState} (hbyte : unpackByte nlen i state (mem (4 + i)) = .frameError)
    (hr : r.Has (4 + i) count) :
    (unpackTurns mem nlen (n + 1) i state r).Has (4 + (i + 1)) count ∧
      (unpackTurns mem nlen (n + 1) i state r).refused = true := by
  rw [unpackTurns, hbyte]
  exact ⟨⟨hr.read, hr.data⟩, rfl⟩

/-- A turn that only changes the state. -/
theorem turns_skip {state state' : FrameState}
    (hbyte : unpackByte nlen i state (mem (4 + i)) = .skip state') (hr : r.Has (4 + i) count)
    (hopen : r.refused = false) :
    ∃ r', unpackTurns mem nlen (n + 1) i state r = unpackTurns mem nlen n (i + 1) state' r' ∧
      r'.Has (4 + (i + 1)) count ∧ r'.refused = false := by
  exact ⟨{ r with reads := r.reads ++ [4 + i] }, by rw [unpackTurns, hbyte], ⟨hr.read, hr.data⟩, hopen⟩

/-- Flags in front of the frame are skipped. -/
theorem turns_flags {m : Nat} (hflags : ∀ j < n, mem (4 + (i + j)) = 0x7e) (hr : r.Has (4 + i) count)
    (hopen : r.refused = false) :
    ∃ r', unpackTurns mem nlen (n + m) i .outsideFrame r =
        unpackTurns mem nlen m (i + n) .outsideFrame r' ∧
      r'.Has (4 + (i + n)) count ∧ r'.refused = false := by
  induction n generalizing i r with
  | zero => exact ⟨r, by rw [Nat.zero_add, Nat.add_zero], hr, hopen⟩
  | succ n ih =>
    -- one flag, and the others behind it
    have hbyte : unpackByte nlen i .outsideFrame (mem (4 + i)) = .skip .outsideFrame := by
      rw [show mem (4 + i) = 0x7e from hflags 0 (Nat.succ_pos n)]
      rfl
    obtain ⟨r₁, hturn, hr₁, hopen₁⟩ := turns_skip (n := n + m) hbyte hr hopen
    obtain ⟨r', hrest, hr', hopen'⟩ := ih (i := i + 1) (fun j hj => by
      rw [Nat.add_right_comm, Nat.add_assoc]
      exact hflags (j + 1) (Nat.succ_lt_succ hj)) hr₁ hopen₁
    rw [Nat.add_right_comm, show i + (n + 1) = i + 1 + n by omega]
    exact ⟨r', hturn.trans hrest, hr', hopen'⟩

/-- What was read stays read. -/
theorem reads_turns {state : FrameState} {k : Nat} (hk : k ∈ r.reads) :
    k ∈ (unpackTurns mem nlen n i state r).reads := by
  induction n generalizing i state r with
  | zero => exact hk
  | succ n ih =>
    rw [unpackTurns]
    split
    · exact ih (List.mem_append_left _ hk)
    · exact ih (List.mem_append_left _ hk)
    · exact List.mem_append_left _ hk

/-- A turn reads its byte. -/
theorem reads_turn {state : FrameState} :
    4 + i ∈ (unpackTurns mem nlen (n + 1) i state r).reads := by
  have hhere : 4 + i ∈ r.reads ++ [4 + i] := List.mem_append_right _ (List.mem_singleton_self _)
  rw [unpackTurns]
  split
  · exact reads_turns hhere
  · exact reads_turns hhere
  · exact hhere

end Turns

section Outcome

variable {l h : Byte} {body : List Byte} {mem : Nat → Byte}

/-- Head and flags are eight bytes. -/
theorem length_enclosed : (enclosed l h body).length = body.length + 8 := by
  simp only [enclosed, List.length_append, List.length_cons, List.length_nil]
  omega

theorem frameLength_enclosed : frameLength (enclosed l h body) = (le16 [l, h]).toNat := rfl

/-- The body of a frame is what stands between its flags. -/
theorem frameBody_enclosed : frameBody (enclosed l h body) = body := by
  rw [frameBody, length_enclosed, Nat.add_sub_cancel]
  exact List.take_left

/-- The covered body of a frame is what of its body the length field covers. -/
theorem coveredBody_enclosed :
    coveredBody (enclosed l h body) = body.take ((le16 [l, h]).toNat - 2) := by
  rw [coveredBody, frameBody_enclosed, frameLength_enclosed]

/-- The body in memory. -/
theorem mem_body (hmem : BeginsWith mem (enclosed l h body)) {k : Nat} (hk : k < body.length) :
    mem (4 + (2 + k)) = body[k] := by
  apply hmem
  have hget : (enclosed l h body)[k + 6]? = (body ++ [0x7e, 0x7e])[k]? := rfl
  rw [show 4 + (2 + k) = k + 6 by omega, hget, List.getElem?_append_left hk,
    List.getElem?_eq_getElem hk]

/-- The flags behind the body. -/
theorem mem_close (hmem : BeginsWith mem (enclosed l h body)) {j : Nat} (hj : j < 2) :
    mem (4 + (2 + body.length + j)) = 0x7e := by
  apply hmem
  have hget : (enclosed l h body)[body.length + j + 6]? = (body ++ [0x7e, 0x7e])[body.length + j]? :=
    rfl
  rw [show 4 + (2 + body.length + j) = body.length + j + 6 by omega, hget,
    List.getElem?_append_right (by omega), Nat.add_sub_cancel_left]
  obtain rfl | rfl : j = 0 ∨ j = 1 := by omega
  all_goals rfl

/-- The run reads the head, and then as many bytes as it says. -/
theorem unpackRun_enclosed (hmem : BeginsWith mem (enclosed l h body)) :
    unpackRun mem = unpackTurns mem (le16 [l, h]).toNat (le16 [l, h]).toNat 0 .outsideFrame
      ⟨[0, 2, 3], [], false⟩ := by
  have hfirst : mem 0 = 0x55 := hmem 0 _ rfl
  have hl : mem 2 = l := hmem 2 _ rfl
  have hh : mem 3 = h := hmem 3 _ rfl
  rw [unpackRun, if_neg (not_not_intro hfirst), hl, hh]

/-- The flags at the front. -/
theorem unpackRun_flags (hmem : BeginsWith mem (enclosed l h body)) {n m : Nat}
    (hflags : ∀ j < n, mem (4 + (0 + j)) = 0x7e) (hfield : (le16 [l, h]).toNat = n + m) :
    ∃ r, unpackRun mem = unpackTurns mem (le16 [l, h]).toNat m (0 + n) .outsideFrame r ∧
      r.Has (4 + (0 + n)) 0 ∧ r.refused = false := by
  have hstart : (⟨[0, 2, 3], [], false⟩ : UnpackRun).Has (4 + 0) 0 :=
    ⟨fun k hk => by simp only [List.mem_cons, List.not_mem_nil, or_false] at hk; omega, rfl⟩
  obtain ⟨r, hrun, hr, hopen⟩ := @turns_flags mem (le16 [l, h]).toNat n 0 0 _ m hflags hstart rfl
  exact ⟨r, by rw [unpackRun_enclosed hmem, ← hrun, hfield], hr, hopen⟩

/-- The flags in front of the body. -/
theorem mem_open (hmem : BeginsWith mem (enclosed l h body)) {j : Nat} (hj : j < 2) :
    mem (4 + (0 + j)) = 0x7e := by
  obtain rfl | rfl : j = 0 ∨ j = 1 := by omega
  · exact hmem 4 _ rfl
  · exact hmem 5 _ rfl

/-- The flags at the front, and a part of the body that can be unescaped. -/
theorem unpackRun_front (hfree : 0x7e ∉ body) (hmem : BeginsWith mem (enclosed l h body)) {k : Nat}
    (hk : k ≤ body.length) (hfield : k + 2 ≤ (le16 [l, h]).toNat)
    (hwhole : EscapesWhole (body.take k)) :
    ∃ r, unpackRun mem = unpackTurns mem (le16 [l, h]).toNat ((le16 [l, h]).toNat - 2 - k) (2 + k)
        (stateBehind (body.take k)) r ∧
      r.Has (4 + (2 + k)) (plainBytes (body.take k)) ∧ r.refused = false := by
  induction k with
  | zero => exact unpackRun_flags hmem (fun j hj => mem_open hmem hj) (by omega)
  | succ k ih =>
    -- one byte more
    have htake : body.take (k + 1) = body.take k ++ [body[k]] := List.take_succ_eq_append_getElem hk
    rw [htake] at hwhole ⊢
    obtain ⟨r, hrun, hr, hopen⟩ := ih (by omega) (by omega) (escapesWhole_concat.mp hwhole).1
    obtain ⟨m, hm⟩ : ∃ m, (le16 [l, h]).toNat - 2 - k = m + 1 :=
      ⟨(le16 [l, h]).toNat - 2 - k - 1, by omega⟩
    rw [hm] at hrun
    -- it is no flag, so it is stored or opens an escape
    have hflag : body[k] ≠ 0x7e := fun heq => hfree (heq ▸ List.getElem_mem _)
    obtain ⟨r', hturn, hr', hopen'⟩ := turns_body (n := m) (mem_body hmem hk) hflag hwhole hr hopen
    refine ⟨r', ?_, ?_, hopen'⟩
    · rw [hrun, hturn, show (le16 [l, h]).toNat - 2 - (k + 1) = m by omega, Nat.add_assoc]
    · rw [plainBytes_concat]
      exact hr'

/-- The first escape that is broken. -/
theorem exists_broken {q : List Byte} (hbroken : ¬EscapesWhole q) :
    ∃ k, ∃ hk : k < q.length, EscapesWhole (q.take k) ∧ (q.take k).getLast? = some 0x7d ∧
      q[k] ≠ 0x5e ∧ q[k] ≠ 0x5d := by
  induction q using List.reverseRecOn with
  | nil => exact absurd List.isChain_nil hbroken
  | append_singleton q b ih =>
    by_cases hwhole : EscapesWhole q
    -- the last byte breaks it, or it was broken in front of it
    · have hlast : ¬(q.getLast? = some 0x7d → b = 0x5d ∨ b = 0x5e) := fun h =>
        hbroken (escapesWhole_concat.mpr ⟨hwhole, h⟩)
      rw [Classical.not_imp, not_or] at hlast
      refine ⟨q.length, by simp, ?_, ?_, ?_⟩
      · rwa [List.take_left]
      · rw [List.take_left]
        exact hlast.1
      · simpa using hlast.2.symm
    · obtain ⟨k, hk, h⟩ := ih hwhole
      refine ⟨k, by rw [List.length_append]; omega, ?_⟩
      rw [List.take_append_of_le_length (by omega), List.getElem_append_left hk]
      exact h

/-- A body whose escapes are whole, and the closing flags that are behind it. -/
theorem unpackRun_close (hfree : 0x7e ∉ body) (hne : body ≠ [])
    (hmem : BeginsWith mem (enclosed l h body)) (hwhole : EscapesWhole body)
    (hfield : body.length + 2 < (le16 [l, h]).toNat) :
    (unpackRun mem).Has (body.length + 8) (plainBytes body) ∧
      ((unpackRun mem).refused = false ↔
        (le16 [l, h]).toNat = body.length + 4 ∧ body.getLast? ≠ some 0x7d) := by
  -- the turns over the body are done, and the first closing flag is next
  obtain ⟨r, hrun, hr, hopen⟩ := unpackRun_front hfree hmem le_rfl (by omega)
    (by rwa [List.take_length])
  rw [List.take_length] at hrun hr
  obtain ⟨m, hm⟩ : ∃ m, (le16 [l, h]).toNat - 2 - body.length = m + 1 :=
    ⟨(le16 [l, h]).toNat - 2 - body.length - 1, by omega⟩
  have hflag : mem (4 + (2 + body.length)) = 0x7e := mem_close hmem (j := 0) (by omega)
  rw [hm] at hrun
  rw [hrun]
  by_cases hend : (le16 [l, h]).toNat = body.length + 4 ∧ body.getLast? ≠ some 0x7d
  · -- both closing flags are where the length field has them
    have hbyte : unpackByte (le16 [l, h]).toNat (2 + body.length) (stateBehind body)
        (mem (4 + (2 + body.length))) = .skip .outsideFrame := by
      rw [hflag, stateBehind, if_neg hne, if_neg hend.2, unpackByte, insideByte,
        if_neg (by decide), if_pos rfl, if_neg (by omega)]
    obtain ⟨r₁, hturn₁, hr₁, hopen₁⟩ := turns_skip (n := m) hbyte hr hopen
    obtain rfl : m = 1 + 0 := by omega
    obtain ⟨r₂, hturn₂, hr₂, hopen₂⟩ := @turns_flags mem (le16 [l, h]).toNat 1
      (2 + body.length + 1) _ _ 0 (fun j hj => by
        rw [Nat.add_assoc (2 + body.length)]
        exact mem_close hmem (by omega)) hr₁ hopen₁
    rw [hturn₁, hturn₂]
    refine ⟨⟨fun k hk => ?_, hr₂.data⟩, iff_of_true hopen₂ hend⟩
    have := hr₂.reads k hk
    omega
  · -- an escape that is still open, or a flag in another place
    have hbyte : unpackByte (le16 [l, h]).toNat (2 + body.length) (stateBehind body)
        (mem (4 + (2 + body.length))) = .frameError := by
      rw [hflag, stateBehind, if_neg hne]
      split_ifs with hesc
      · rfl
      · have hplace : (le16 [l, h]).toNat ≠ body.length + 4 := fun heq => hend ⟨heq, hesc⟩
        rw [unpackByte, insideByte, if_neg (by decide), if_pos rfl, if_pos (by omega)]
    obtain ⟨hhas, hrefused⟩ := @turns_refused mem _ m _ _ _ _ hbyte hr
    refine ⟨⟨fun k hk => ?_, hhas.data⟩, iff_of_false (by simp [hrefused]) hend⟩
    have := hhas.reads k hk
    omega

/-- A body whose escapes are whole, as far as the length field goes. -/
theorem unpackRun_whole (hfree : 0x7e ∉ body) (hne : body ≠ [])
    (hmem : BeginsWith mem (enclosed l h body))
    (hwhole : EscapesWhole (body.take ((le16 [l, h]).toNat - 2))) :
    (unpackRun mem).Has (body.length + 8) (plainBytes (body.take ((le16 [l, h]).toNat - 2))) ∧
      ((unpackRun mem).refused = false ↔
        (le16 [l, h]).toNat ≤ body.length + 2 ∨
          (le16 [l, h]).toNat = body.length + 4 ∧ body.getLast? ≠ some 0x7d) := by
  rcases Nat.lt_or_ge (body.length + 2) (le16 [l, h]).toNat with hbehind | hinside
  · rw [List.take_of_length_le (by omega)] at hwhole ⊢
    obtain ⟨hhas, hopen⟩ := unpackRun_close hfree hne hmem hwhole hbehind
    exact ⟨hhas, hopen.trans (or_iff_right (by omega)).symm⟩
  -- the length field ends in the body, or in front of it
  obtain ⟨top, htop, hhas, hopen⟩ : ∃ top ≤ body.length + 8,
      (unpackRun mem).Has top (plainBytes (body.take ((le16 [l, h]).toNat - 2))) ∧
        (unpackRun mem).refused = false := by
    -- with less than two bytes only opening flags are gone over
    rcases Nat.lt_or_ge (le16 [l, h]).toNat 2 with hshort | hlong
    · obtain ⟨r, hrun, hr, hopen⟩ := unpackRun_flags hmem
        (fun j hj => mem_open hmem (show j < 2 by omega)) (Nat.add_zero _).symm
      rw [hrun, show (le16 [l, h]).toNat - 2 = 0 by omega]
      exact ⟨_, by omega, hr, hopen⟩
    · obtain ⟨r, hrun, hr, hopen⟩ := unpackRun_front hfree hmem (by omega) (by omega) hwhole
      rw [Nat.sub_self] at hrun
      rw [hrun]
      exact ⟨_, by omega, hr, hopen⟩
  exact ⟨⟨fun k hk => (hhas.reads k hk).trans_le htop, hhas.data⟩, iff_of_true hopen (.inl hinside)⟩

/-- Of a frame with a body the loop stores the longest front that can be unescaped, as far as
the length field goes, and only bytes of the frame are read. -/
theorem unpackRun_outcome (hfree : 0x7e ∉ body) (hne : body ≠ [])
    (hmem : BeginsWith mem (enclosed l h body)) :
    ∃ q, q <+: coveredBody (enclosed l h body) ∧ EscapesWhole q ∧
      (∀ q', q' <+: coveredBody (enclosed l h body) → EscapesWhole q' → q' <+: q) ∧
      (EscapesWhole (coveredBody (enclosed l h body)) → q = coveredBody (enclosed l h body)) ∧
      (unpackRun mem).Has (enclosed l h body).length (plainBytes q) ∧
      ((unpackRun mem).refused = false ↔
        EscapesWhole (coveredBody (enclosed l h body)) ∧ EndsInTime (enclosed l h body)) := by
  rw [coveredBody_enclosed, length_enclosed]
  by_cases hwhole : EscapesWhole (body.take ((le16 [l, h]).toNat - 2))
  -- all that is covered, or what is in front of the first broken escape
  · refine ⟨_, List.prefix_rfl, hwhole, fun q' hq' _ => hq', fun _ => rfl, ?_⟩
    rw [EndsInTime, frameBody_enclosed, frameLength_enclosed]
    obtain ⟨hhas, hopen⟩ := unpackRun_whole hfree hne hmem hwhole
    exact ⟨hhas, hopen.trans (and_iff_right hwhole).symm⟩
  · -- the turn behind the last escape that is not broken leaves the loop
    obtain ⟨k, hk, hfront, hesc, h5e, h5d⟩ := exists_broken hwhole
    rw [List.length_take] at hk
    have htake : (body.take ((le16 [l, h]).toNat - 2)).take k = body.take k := by
      rw [List.take_take, Nat.min_eq_left (by omega)]
    rw [htake] at hfront hesc
    rw [List.getElem_take] at h5e h5d
    obtain ⟨r, hrun, hr, -⟩ := unpackRun_front hfree hmem (by omega) (by omega) hfront
    obtain ⟨m, hm⟩ : ∃ m, (le16 [l, h]).toNat - 2 - k = m + 1 :=
      ⟨(le16 [l, h]).toNat - 2 - k - 1, by omega⟩
    have hbyte : unpackByte (le16 [l, h]).toNat (2 + k) (stateBehind (body.take k))
        (mem (4 + (2 + k))) = .frameError := by
      have hflag : body[k] ≠ 0x7e := fun heq => hfree (heq ▸ List.getElem_mem _)
      rw [mem_body hmem (by omega), unpackByte_body hflag, if_pos hesc, if_neg h5e, if_neg h5d]
    obtain ⟨hhas, hrefused⟩ := @turns_refused mem _ m _ _ _ _ hbyte hr
    rw [hm] at hrun
    rw [hrun]
    refine ⟨body.take k, htake ▸ List.take_prefix k _, hfront, ?_, fun h => absurd h hwhole,
      ⟨fun j hj => ?_, hhas.data⟩, ?_⟩
    · -- a longer front would have the broken escape
      intro q' hq' hwhole'
      have hbody : q' <+: body := hq'.trans (List.take_prefix _ _)
      refine List.prefix_of_prefix_length_le hbody (List.take_prefix _ _) ?_
      rw [List.length_take, Nat.min_eq_left (by omega)]
      by_contra hlonger
      have hmore : body.take k ++ [body[k]] <+: q' := by
        rw [← List.take_succ_eq_append_getElem (by omega)]
        refine List.prefix_of_prefix_length_le (List.take_prefix _ _) hbody ?_
        rw [List.length_take]
        omega
      exact ((escapesWhole_concat.mp (escapesWhole_mono hmore hwhole')).2 hesc).elim h5d h5e
    · have := hhas.reads j hj
      omega
    · rw [hrefused]
      exact iff_of_false (by simp) fun h => hwhole h.1

end Outcome

/-! ## The run and `dataunpack` -/

section Loop

variable {f : List Byte} {mem : Nat → Byte} {nlen n i : Nat} {state : FrameState} {r : UnpackRun}

/-- The loop on the memory goes where the loop over the bytes goes, while it stays in them. -/
theorem unpackTurns_unpackLoop (hmem : BeginsWith mem f) (hopen : r.refused = false)
    (hi : 4 + i ≤ f.length)
    (hreads : ∀ k ∈ (unpackTurns mem nlen n i state r).reads, k < f.length) :
    unpackLoop nlen i state r.data (RingBuffer.slice f (4 + i) n) =
        (if (unpackTurns mem nlen n i state r).refused then none
        else some (unpackTurns mem nlen n i state r).data) ∧
      ((unpackTurns mem nlen n i state r).refused = false → 4 + (i + n) ≤ f.length) := by
  induction n generalizing i state r with
  | zero =>
    rw [RingBuffer.slice, List.take_zero]
    exact ⟨by simp [unpackTurns, unpackLoop, hopen], fun _ => hi⟩
  | succ n ih =>
    -- the turn reads its byte, so the byte lies in the frame
    have hlt : 4 + i < f.length := hreads _ reads_turn
    have hslice : RingBuffer.slice f (4 + i) (n + 1) =
        mem (4 + i) :: RingBuffer.slice f (4 + (i + 1)) n := by
      rw [hmem (4 + i) _ (List.getElem?_eq_getElem hlt), RingBuffer.slice,
        List.drop_eq_getElem_cons hlt]
      rfl
    rw [hslice, unpackLoop]
    rw [unpackTurns] at hreads ⊢
    cases hbyte : unpackByte nlen i state (mem (4 + i)) with
    | skip state' =>
      simp only [hbyte] at hreads
      obtain ⟨hloop, hend⟩ := ih (r := { r with reads := r.reads ++ [4 + i] }) hopen hlt hreads
      exact ⟨hloop, fun h => by have := hend h; omega⟩
    | store state' byte =>
      simp only [hbyte] at hreads
      obtain ⟨hloop, hend⟩ :=
        ih (r := { r with reads := r.reads ++ [4 + i], data := r.data ++ [byte] }) hopen hlt hreads
      exact ⟨hloop, fun h => by have := hend h; omega⟩
    | frameError => exact ⟨rfl, fun h => absurd h.symm Bool.false_ne_true⟩

end Loop

/-- **`dataunpack` is the run and the CRC**, if the run stays in the frame. -/
theorem dataunpack_eq_unpackRun {f : List Byte} (hlen : 4 ≤ f.length) {mem : Nat → Byte}
    (hmem : BeginsWith mem f) (hreads : ∀ k ∈ (unpackRun mem).reads, k < f.length) :
    dataunpack f =
      if (unpackRun mem).refused then some (0, []) else unpackCheck (unpackRun mem).data := by
  have hat : ∀ k < 4, mem k = f.getD k 0 := by
    intro k hk
    rw [List.getD_eq_getElem?_getD, List.getElem?_eq_getElem (by omega), Option.getD_some]
    exact hmem k _ (List.getElem?_eq_getElem _)
  have hfield : le16 (f.drop 2) = le16 [mem 2, mem 3] := by
    have hdrop : f.drop 2 = mem 2 :: mem 3 :: f.drop 4 := by
      rw [hmem 2 _ (List.getElem?_eq_getElem (by omega)),
        hmem 3 _ (List.getElem?_eq_getElem (by omega)), List.drop_eq_getElem_cons (by omega),
        List.drop_eq_getElem_cons (by omega)]
    rw [hdrop]
    rfl
  unfold dataunpack
  rw [if_neg (by omega), ← hat 0 (by omega), ← hat 1 (by omega), hfield]
  -- the first two bytes are compared in one condition, or one after the other
  by_cases hheader : mem 0 ≠ 0x55 ∧ mem 1 ≠ 0xaa
  · rw [if_pos hheader, unpackRun, if_pos hheader.1, if_pos hheader.2]
    rfl
  · obtain ⟨reads, heq⟩ : ∃ reads, unpackRun mem = unpackTurns mem (le16 [mem 2, mem 3]).toNat
        (le16 [mem 2, mem 3]).toNat 0 .outsideFrame ⟨reads, [], false⟩ := by
      by_cases hfirst : mem 0 = 0x55
      · exact ⟨[0, 2, 3], by rw [unpackRun, if_neg (not_not_intro hfirst)]⟩
      · have hsecond : mem 1 = 0xaa := by
          by_contra hsecond
          exact hheader ⟨hfirst, hsecond⟩
        exact ⟨[0, 1, 2, 3], by rw [unpackRun, if_pos hfirst, if_neg (not_not_intro hsecond)]⟩
    rw [if_neg hheader]
    dsimp only
    rw [heq] at hreads
    obtain ⟨hloop, hend⟩ := unpackTurns_unpackLoop hmem rfl (by omega) hreads
    dsimp only at hloop
    rw [show RingBuffer.slice f 4 = RingBuffer.slice f (4 + 0) from rfl, hloop, heq]
    cases href : (unpackTurns mem (le16 [mem 2, mem 3]).toNat (le16 [mem 2, mem 3]).toNat 0
      .outsideFrame ⟨reads, [], false⟩).refused with
    | true => rfl
    | false =>
      have := hend href
      simp only [Bool.false_eq_true, if_false]
      rw [if_neg (by omega)]

/-! ## When it is safe -/

/-- A frame and zeros behind it. -/
theorem beginsWith_getD (f : List Byte) : BeginsWith (fun k => f.getD k 0) f := by
  intro k b hb
  show f.getD k 0 = b
  rw [List.getD_eq_getElem?_getD, hb]
  rfl

/-- Without a body the flags are all skipped: nothing is stored, or what is behind is read. -/
theorem not_unpacksSafely_empty (l h : Byte) : ¬UnpacksSafely (enclosed l h []) := by
  intro hsafe
  have hmem := beginsWith_getD (enclosed l h [])
  obtain ⟨hreads, hcrc, -⟩ := hsafe _ hmem
  generalize (fun k => (enclosed l h []).getD k 0) = mem at hmem hreads hcrc
  -- all four bytes behind the header are flags
  have hflags : ∀ j < 4, mem (4 + (0 + j)) = 0x7e := by
    intro j hj
    obtain rfl | rfl | rfl | rfl : j = 0 ∨ j = 1 ∨ j = 2 ∨ j = 3 := by omega
    all_goals exact hmem _ _ rfl
  -- a longer length reads on, a shorter one stores nothing to check
  rcases Nat.lt_or_ge 4 (le16 [l, h]).toNat with hlong | hshort
  · obtain ⟨m, hm⟩ : ∃ m, (le16 [l, h]).toNat = 4 + (m + 1) := ⟨(le16 [l, h]).toNat - 5, by omega⟩
    obtain ⟨r, hrun, -⟩ := unpackRun_flags hmem hflags hm
    rw [hrun] at hreads
    exact absurd (hreads _ reads_turn) (by rw [length_enclosed]; simp)
  · obtain ⟨r, hrun, hr, hopen⟩ := unpackRun_flags hmem (fun j hj => hflags j (by omega))
      (Nat.add_zero (le16 [l, h]).toNat).symm
    rw [hrun] at hcrc
    have hlen := hcrc hopen
    rw [unpackTurns, hr.data] at hlen
    omega

/-- **Which frames are unpacked safely**, of those with flags at their ends only. -/
theorem unpacksSafely_iff {f : List Byte} (hf : Delimited f) : UnpacksSafely f ↔ UnpackFits f := by
  obtain ⟨l, h, body, hfree, rfl⟩ := hf
  by_cases hne : body = []
  · subst hne
    exact iff_of_false (not_unpacksSafely_empty l h) fun hfits => hfits.body frameBody_enclosed
  constructor
  · intro hsafe
    -- one memory that begins with the frame is enough to show the condition
    have hmem := beginsWith_getD (enclosed l h body)
    obtain ⟨q, hq, hwhole, hlongest, hall, hhas, hopen⟩ := unpackRun_outcome hfree hne hmem
    obtain ⟨-, hcrc, hroom⟩ := hsafe _ hmem
    rw [hhas.data] at hcrc hroom
    refine ⟨by rwa [frameBody_enclosed], fun q' hq' hwhole' => ?_, fun hcovered hend => ?_⟩
    · exact (plainBytes_mono (hlongest q' hq' hwhole')).trans hroom
    · have hlen := hcrc (hopen.mpr ⟨hcovered, hend⟩)
      rw [hall hcovered] at hlen
      omega
  · rintro ⟨-, hroom, hcrc⟩ mem hmem
    obtain ⟨q, hq, hwhole, -, hall, hhas, hopen⟩ := unpackRun_outcome hfree hne hmem
    refine ⟨hhas.reads, fun hdone => ?_, ?_⟩
    · obtain ⟨hcovered, hend⟩ := hopen.mp hdone
      have := hcrc hcovered hend
      rw [hhas.data, hall hcovered]
      omega
    · rw [hhas.data]
      exact hroom q hq hwhole

/-! ## The frames of a run -/

/-- A delimited frame is one for the receiver. -/
theorem Delimited.uartFrame {f : List Byte} (hf : Delimited f) : UartFrame f := by
  obtain ⟨l, h, body, hfree, rfl⟩ := hf
  refine ⟨by rw [length_enclosed]; omega, ⟨rfl, rfl⟩, ⟨rfl, rfl⟩, ?_⟩
  intro n b hn hb
  -- a byte of the body, or one of the closing flags
  obtain ⟨k, rfl⟩ : ∃ k, n = k + 6 := ⟨n - 6, by omega⟩
  have hget : (enclosed l h body)[k + 6]? = (body ++ [0x7e, 0x7e])[k]? := rfl
  rw [hget] at hb
  rw [length_enclosed]
  rcases Nat.lt_or_ge k body.length with hin | hout
  · rw [List.getElem?_append_left hin] at hb
    have hne : b ≠ 0x7e := by
      rintro rfl
      exact hfree (List.mem_of_getElem? hb)
    exact iff_of_false hne (by omega)
  · rw [List.getElem?_append_right hout] at hb
    have hmem : b ∈ ([0x7e, 0x7e] : List Byte) := List.mem_of_getElem? hb
    simp only [List.mem_cons, List.not_mem_nil, or_false, or_self] at hmem
    exact iff_of_true hmem (by omega)

/-- **Every delimited frame is captured** that fits `uartcatch`. -/
theorem captured_of_delimited {f : List Byte} (hf : Delimited f) (hlen : f.length ≤ uartBufSize) :
    ∃ p, runAll catchOp [.revData f] openedCatch = some p ∧ p.uartdo = true ∧
      p.uartcatch.take p.uartrecvcnt = f := by
  have hframe := hf.uartFrame
  have hpos := hframe.length
  have hidle := openedUart_idle
  obtain ⟨p', hrun, hall, hcnt, -⟩ := @uartRevDataProcess_whole f 0 openedUart false hframe hlen
    ⟨⟨hidle.uartcatch, hidle.uartbuff⟩, rfl, rfl, rfl, by omega, rfl⟩ (by omega) [] (Nat.zero_le _)
    nofun
  rw [List.drop_zero, List.append_nil] at hrun
  have hcaught : openedCatch.Caught := ⟨hidle.uartcatch, hidle.uartbuff, rfl, Nat.zero_le _,
    iff_of_false (by decide) (by decide), rfl⟩
  -- with the pointer it is the same call
  have hmap := catchRevDataProcess_toUartBuf hcaught f
  rw [show openedCatch.toUartBuf = openedUart from rfl, hrun] at hmap
  obtain ⟨p, hp, rfl⟩ := Option.map_eq_some_iff.mp hmap
  refine ⟨p, ?_, hall.uartdo, by rw [hcnt, hall.uartcatch]⟩
  rw [runAll, catchOp, hp]
  rfl

/-- **What the receiver leaves is unpacked safely** if it has a body, its bytes fit the
buffer, and they are at least those of a CRC. -/
theorem captured_unpacksSafely_iff {p₀ p : CatchBuf} (hidle : p₀.toUartBuf.Idle)
    (hptr : p₀.curuartptr = 0) {ops : List CatchOp} (hrun : runAll catchOp ops p₀ = some p)
    (hdo : p.uartdo = true) :
    UnpacksSafely (p.uartcatch.take p.uartrecvcnt) ↔ UnpackFits (p.uartcatch.take p.uartrecvcnt) :=
  unpacksSafely_iff (catchOps_delimited hidle hptr hrun hdo)

/-- A body of four bytes, which are taken for the CRC. -/
theorem captured_unpacksSafely_iff_four :
    ∃ p, runAll catchOp [.revData (enclosed 8 0 [1, 2, 3, 4])] openedCatch = some p ∧
      p.uartdo = true ∧ UnpacksSafely (p.uartcatch.take p.uartrecvcnt) := by
  obtain ⟨p, hrun, hdo, hframe⟩ := @captured_of_delimited (enclosed 8 0 [1, 2, 3, 4])
    ⟨8, 0, [1, 2, 3, 4], by decide, rfl⟩ (by decide)
  refine ⟨p, hrun, hdo, (captured_unpacksSafely_iff openedUart_idle rfl hrun hdo).mpr ?_⟩
  rw [hframe]
  refine ⟨by decide, fun q hq _ => ?_, fun _ _ => by decide⟩
  have hcount : plainBytes q ≤ q.length := List.countP_le_length
  have hlen : q.length ≤ 4 := hq.length_le
  show plainBytes q ≤ 1024
  omega

/-- The receiver leaves the frame in the buffer, and unpacking it is not safe. -/
def LeftUnsafe (f : List Byte) : Prop :=
  (∃ p, runAll catchOp [.revData f] openedCatch = some p ∧ p.uartdo = true ∧
    p.uartcatch.take p.uartrecvcnt = f) ∧ ¬UnpacksSafely f

/-- A body without a flag that does not unpack safely is left by the receiver as it came. -/
theorem leftUnsafe_enclosed {l h : Byte} {body : List Byte} (hfree : 0x7e ∉ body)
    (hlen : (enclosed l h body).length ≤ uartBufSize)
    (hbad : ¬UnpacksSafely (enclosed l h body)) : LeftUnsafe (enclosed l h body) :=
  ⟨captured_of_delimited ⟨l, h, body, hfree, rfl⟩ hlen, hbad⟩

/-- Frames without a body, and with a length that goes behind it; with a body that is shorter
than a CRC; and with one that is longer than the buffer. -/
theorem badFrames_not_unpacksSafely :
    LeftUnsafe (enclosed 5 0 []) ∧ LeftUnsafe (enclosed 6 0 [1, 2]) ∧
      LeftUnsafe (enclosed 5 4 (List.replicate 1025 0)) := by
  refine ⟨leftUnsafe_enclosed (by decide) (by decide) (not_unpacksSafely_empty 5 0),
    leftUnsafe_enclosed (by decide) (by decide) fun hsafe => ?_,
    leftUnsafe_enclosed ?_ ?_ fun hsafe => ?_⟩
  -- two bytes are fewer than a CRC
  · obtain ⟨-, -, hcrc⟩ := (unpacksSafely_iff ⟨6, 0, [1, 2], by decide, rfl⟩).mp hsafe
    have hchain : EscapesWhole [1, 2] := List.isChain_pair.mpr nofun
    exact absurd (hcrc hchain (.inr ⟨rfl, by decide⟩)) (by decide)
  · rw [List.mem_replicate]
    decide
  · rw [length_enclosed, List.length_replicate]
    decide
  · have hfree : (0x7e : Byte) ∉ List.replicate 1025 0 := by
      rw [List.mem_replicate]
      decide
    obtain ⟨-, hroom, -⟩ := (unpacksSafely_iff ⟨5, 4, _, hfree, rfl⟩).mp hsafe
    -- the length covers all of the 1025 bytes, of which 1024 fit
    have hcovered : coveredBody (enclosed 5 4 (List.replicate 1025 0)) = List.replicate 1025 0 := by
      rw [coveredBody_enclosed, List.take_replicate]
      rfl
    have hchain : EscapesWhole (List.replicate 1025 0) :=
      List.isChain_replicate_of_rel _ nofun
    rw [hcovered] at hroom
    have hle := hroom _ List.prefix_rfl hchain
    rw [plainBytes, List.countP_replicate] at hle
    exact absurd hle (by decide)

end PgClient.Serial
