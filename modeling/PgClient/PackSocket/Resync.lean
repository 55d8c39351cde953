import Mathlib.Algebra.BigOperators.Fin
import Mathlib.Algebra.Order.BigOperators.Group.Finset
import PgClient.PackSocket.Reconnect

/-!
# Resynchronisation

`read_cmd_try_read` looks at the head of the FIFO only, and consumes nothing
unless a whole frame is there. A head that is not `SYNC_HEAD`, or announces
more than the FIFO holds, stays there for ever (`Receiver.Stuck.serve`), and
with it the receiver: `stray_not_resyncs`.

Where what is left in the FIFO and the first messages after it split into whole
frames, the receiver does come back to delivering every message, although these
frames and the pending list may at first swallow some: `resyncs_of_realigned`.
Every message that the list swallows fills a gap in it (`Pending.deficit`), so
this happens finitely often. An empty FIFO is the case of no message at all, the
first part of a frame whose rest never came the case of some
(`torn_frame_resyncs`).
-/

namespace PgClient.PackSocket

/-- A measure that never grows is constant from some index on. -/
theorem exists_stable {f : Nat → Nat} (hf : ∀ n, f (n + 1) ≤ f n) : ∃ N, ∀ n, f (N + n) = f N := by
  have hmono : ∀ m n, f (m + n) ≤ f m := by
    intro m n
    induction n with
    | zero => exact Nat.le_refl _
    | succ n ih => exact (hf (m + n)).trans ih
  obtain ⟨N, hN⟩ : ∃ N, ∀ n, f N ≤ f n := by
    obtain ⟨v, ⟨N, rfl⟩, hmin⟩ := WellFounded.has_min (wellFounded_lt (α := Nat))
      (Set.range f) ⟨f 0, 0, rfl⟩
    exact ⟨N, fun n => Nat.not_lt.mp (hmin (f n) ⟨n, rfl⟩)⟩
  exact ⟨N, fun n => Nat.le_antisymm (hmono N n) (hN _)⟩

namespace Pending

/-! ## What the pending list still misses -/

/-- How many fragments of `cmd` are missing. -/
def missing (cmd : BitVec 16) (frags : List SocketCmdInfo) : Nat :=
  match fragsOf cmd frags with
  | [] => 0
  | m :: ms => m.lastNo.toNat + 1 - (ms.length + 1)

/-- How many fragments are missing in all. -/
def deficit (p : Pending) : Nat :=
  ∑ c : Fin (2 ^ 16), missing (BitVec.ofFin c) p.frags

/-- `missing` looks at the fragments of its command only. -/
theorem missing_congr {cmd : BitVec 16} {p q : List SocketCmdInfo}
    (h : fragsOf cmd p = fragsOf cmd q) : missing cmd p = missing cmd q := by
  rw [missing, missing, h]

/-- A list that changes in one command only, and misses less of it. -/
theorem deficit_lt {p q : Pending} (cmd : BitVec 16)
    (hlt : missing cmd q.frags < missing cmd p.frags)
    (hother : ∀ c, c ≠ cmd → fragsOf c q.frags = fragsOf c p.frags) :
    q.deficit < p.deficit := by
  refine Finset.sum_lt_sum (fun c _ => ?_) ⟨cmd.toFin, Finset.mem_univ _, hlt⟩
  by_cases hc : BitVec.ofFin c = cmd
  · rw [hc]
    exact hlt.le
  · exact (missing_congr (hother _ hc)).le

/-- Fragments of a command that is pending are missing. -/
theorem missing_pos {p : Pending} {cmd : BitVec 16} (h : fragsOf cmd p.frags ≠ []) :
    0 < missing cmd p.frags := by
  have hquiet := complete_eq_false_iff.mp (p.quiet cmd)
  rw [missing]
  cases hfrags : fragsOf cmd p.frags with
  | nil => exact absurd hfrags h
  | cons m ms =>
    have := hquiet m ms hfrags
    simp only
    omega

/-! ## Single-fragment messages -/

/-- The frame does not cut the list, if it completes a message. -/
def Clean (p : Pending) (info : SocketCmdInfo) : Prop :=
  complete info.cmd (p.arrive info) = true → cuts info.cmd (p.arrive info) = false

/-- A frame whose checksum holds is clean unless it completes a cut list. -/
theorem clean_of_crcOk {p : Pending} {info : SocketCmdInfo} (hcrc : crcOk info = true) :
    p.Clean info ↔ (complete info.cmd (p.frags ++ [info]) = true →
      cuts info.cmd (p.frags ++ [info]) = false) := by
  rw [Clean, arrive, if_pos hcrc]

/-- A clean frame is defined on a list that is not severed, and does not sever it. -/
theorem absorb_clean {p : Pending} (hsev : p.severed = false) {info : SocketCmdInfo}
    (hclean : p.Clean info) : ∃ q d, p.absorb info = some (q, d) ∧ q.severed = false := by
  cases hcrc : crcOk info with
  | false => exact ⟨p, none, absorb_of_not_crcOk hsev hcrc, hsev⟩
  | true =>
    rcases absorb_of_crcOk hsev hcrc with ⟨-, q, habs, -, hq⟩ | ⟨hc, q, habs, -, hq⟩
    · exact ⟨q, none, habs, hq⟩
    · exact ⟨q, _, habs, hq.trans ((clean_of_crcOk hcrc).mp hclean hc)⟩

/-- Along the frames, none cuts the list when it completes a message. -/
def CleanAlong (p : Pending) (infos : List SocketCmdInfo) : Prop :=
  ∀ done info rest q cmds, infos = done ++ info :: rest →
    p.absorbAll done = some (q, cmds) → q.Clean info

/-- Along clean frames nothing is undefined. -/
theorem absorbAll_cleanAlong {p : Pending} (hsev : p.severed = false) {infos : List SocketCmdInfo}
    (hclean : p.CleanAlong infos) :
    ∃ q cmds, p.absorbAll infos = some (q, cmds) ∧ q.severed = false := by
  induction infos using List.reverseRecOn with
  | nil => exact ⟨p, [], rfl, hsev⟩
  | append_singleton infos info ih =>
    have hbefore : p.CleanAlong infos := fun done i rest q cmds heq =>
      hclean done i (rest ++ [info]) q cmds (by rw [heq, List.append_assoc, List.cons_append])
    obtain ⟨q, cmds, habs, hq⟩ := ih hbefore
    obtain ⟨q', d, hone, hq'⟩ := absorb_clean hq (hclean infos info [] q cmds rfl habs)
    refine ⟨q', cmds ++ d.toList, ?_, hq'⟩
    rw [absorbAll_append, habs]
    simp [absorbAll, hone]

/-- A record of another command behind the list is not seen. -/
theorem fragsOf_append_of_ne {c : BitVec 16} {p : List SocketCmdInfo} {info : SocketCmdInfo}
    (hne : c ≠ info.cmd) : fragsOf c (p ++ [info]) = fragsOf c p := by
  simp [fragsOf, Ne.symm hne]

/-- Frames that leave the list as it is, each of them clean for it. -/
theorem cleanAlong_of_steady {p : Pending} {infos : List SocketCmdInfo}
    (hsteady : ∀ info ∈ infos, ∃ d, p.absorb info = some (p, d)) (hclean : ∀ info, p.Clean info) :
    p.CleanAlong infos := by
  -- by induction on what has come, the list is the same
  have hstay : ∀ done : List SocketCmdInfo, (∀ info ∈ done, info ∈ infos) →
      ∀ q cmds, p.absorbAll done = some (q, cmds) → q = p := by
    intro done
    induction done with
    | nil =>
      intro _ q cmds h
      exact (Prod.mk.inj (Option.some.inj h)).1.symm
    | cons info done ih =>
      intro hin q cmds h
      obtain ⟨d, habs⟩ := hsteady info (hin info List.mem_cons_self)
      rw [absorbAll, habs] at h
      obtain ⟨⟨q', cmds'⟩, hrest, heq⟩ := Option.map_eq_some_iff.mp h
      obtain ⟨rfl, -⟩ := Prod.mk.inj heq
      exact ih (fun i hi => hin i (List.mem_cons_of_mem _ hi)) q' cmds' hrest
  rintro done info rest q cmds rfl habs
  rw [hstay done (fun i hi => List.mem_append_left _ hi) q cmds habs]
  exact hclean info

/-- A frame that is a whole message leaves the empty list empty. -/
theorem absorb_alone {info : SocketCmdInfo} (hcrc : crcOk info = true)
    (hwhole : complete info.cmd [info] = true) :
    ∃ d, Pending.empty.absorb info = some (.empty, d) := by
  rcases absorb_of_crcOk (p := .empty) rfl hcrc with ⟨hc, -⟩ | ⟨-, q, habs, hfrags, hsev⟩
  · exact absurd (hwhole.symm.trans hc) (by decide)
  · have hq : q = .empty := Pending.ext
      (by rw [hfrags]; simp [kept, Pending.empty]) (by rw [hsev]; simp [cuts, Pending.empty])
    exact ⟨_, hq ▸ habs⟩

/-- On an empty list no frame cuts anything. -/
theorem clean_empty (info : SocketCmdInfo) : Pending.empty.Clean info := by
  intro _
  rw [arrive]
  split <;> simp [cuts, Pending.empty]

/-- A single-fragment message of a command that is not pending is delivered, and
the list stays as it is. -/
theorem absorb_single_own {p : Pending} (hsev : p.severed = false) {m : Msg} {f : Frag}
    (hm : m.Fits) (hone : m.frags = [f]) (hclean : p.Clean f.info)
    (hnone : fragsOf m.cmd p.frags = []) : p.absorb f.info = some (p, some m.delivery) := by
  have hlen : m.parts.length = 1 := by rw [← m.frags_length, hone]; rfl
  have hcmd : f.info.cmd = m.cmd := Msg.cmd_of_mem (f := f) (by simp [hone])
  have hcomplete : complete f.info.cmd (p.frags ++ [f.info]) = true := by
    obtain ⟨i, part, -, rfl⟩ := Msg.mem_frags (m := m) (f := f) (by simp [hone])
    have hlast := Msg.frag_lastNo_toNat (m := m) i part
    have hfrags : fragsOf m.cmd (p.frags ++ [(m.frag i part).info]) = [(m.frag i part).info] := by
      rw [fragsOf] at hnone
      rw [fragsOf, List.filter_append, hnone]
      simp [hcmd]
    rw [complete, hcmd, hfrags]
    simp only [List.length_nil, decide_eq_true_eq]
    omega
  have hcrc : crcOk f.info = true := Frag.crcOk_info (Msg.fits_of_mem hm (by simp [hone]))
  have hcut := (clean_of_crcOk hcrc).mp hclean hcomplete
  rw [hcmd] at hcut
  -- it is complete at once, and its release takes nothing else along
  rcases absorb_frag (j := 0) hsev hm hnone (by rw [hone]; rfl) with
    ⟨hlt, -⟩ | ⟨-, p', habs, hfrags, hsev'⟩
  · omega
  · have hp : p' = p := by
      refine Pending.ext ?_ (by rw [hsev', hcut, hsev])
      rw [hfrags, kept_eq_filter hcut, List.filter_append, List.filter_cons_of_neg (by simpa using hcmd),
        List.filter_nil, List.append_nil, List.filter_eq_self]
      intro i hi
      simpa using List.filter_eq_nil_iff.mp hnone i hi
    rw [habs, hp]

/-- One of a command that is pending fills a gap in the list. -/
theorem absorb_single_other {p : Pending} (hsev : p.severed = false) {f : Frag}
    (hf : f.Fits) (hclean : p.Clean f.info) (hsome : fragsOf f.info.cmd p.frags ≠ []) :
    ∃ p' d, p.absorb f.info = some (p', d) ∧ p'.severed = false ∧ p'.deficit < p.deficit := by
  have hpos := missing_pos hsome
  rcases absorb_of_crcOk hsev (Frag.crcOk_info hf) with
    ⟨hc, p', habs, hfrags, hsev'⟩ | ⟨hc, p', habs, hfrags, hsev'⟩
  · -- it is kept: one fragment less is missing of its command
    refine ⟨p', none, habs, hsev', deficit_lt f.info.cmd ?_ fun c hne => ?_⟩
    · -- one fragment more, behind the same first one
      rw [hfrags]
      cases hown : fragsOf f.info.cmd p.frags with
      | nil => exact absurd hown hsome
      | cons m ms =>
        have hown' : fragsOf f.info.cmd (p.frags ++ [f.info]) = m :: (ms ++ [f.info]) := by
          rw [fragsOf] at hown
          rw [fragsOf, List.filter_append, hown]
          simp
        rw [missing, hown] at hpos
        simp only [missing, hown, hown', List.length_append, List.length_singleton] at hpos ⊢
        omega
    · rw [hfrags, fragsOf_append_of_ne hne]
  · -- it completes the pending message, of which nothing is missing then
    have hcut := (clean_of_crcOk (Frag.crcOk_info hf)).mp hclean hc
    refine ⟨p', _, habs, hsev'.trans hcut, deficit_lt f.info.cmd ?_ fun c hne => ?_⟩
    · rw [hfrags, missing, fragsOf_kept_self]
      exact hpos
    · rw [hfrags, kept_eq_filter hcut, fragsOf, List.filter_filter, ← fragsOf_append_of_ne hne,
        fragsOf]
      refine List.filter_congr fun i _ => ?_
      by_cases hi : i.cmd = c
      · simp [hi, hne]
      · simp [hi]

end Pending

/-! ## An endless stream -/

/-- The frames of the first `n` messages of a stream. -/
def firstInfos (stream : Nat → Msg) (n : Nat) : List SocketCmdInfo :=
  (((List.range n).map stream).flatMap Msg.frags).map Frag.info

/-- A stream of single-fragment messages. -/
structure Singles (stream : Nat → Msg) : Prop where
  single : ∀ n, (stream n).parts.length = 1
  short : ∀ n, (stream n).Short

/-- No frame of the stream cuts the list when it completes a message. -/
def CleanStream (p : Pending) (stream : Nat → Msg) : Prop :=
  ∀ n q cmds, p.absorbAll (firstInfos stream n) = some (q, cmds) →
    ∀ f ∈ (stream n).frags, q.Clean f.info

namespace Pending

/-- One message more is its records more. -/
theorem firstInfos_succ (stream : Nat → Msg) (n : Nat) :
    firstInfos stream (n + 1) = firstInfos stream n ++ (stream n).frags.map Frag.info := by
  simp [firstInfos, List.range_succ]

/-- One message of a clean stream: it is delivered and leaves the list as it is,
or it fills a gap in the list. -/
theorem absorbAll_succ {p q : Pending} {cmds : List SocketCmd} {stream : Nat → Msg}
    (hs : Singles stream) (hclean : CleanStream p stream) {n : Nat}
    (habs : p.absorbAll (firstInfos stream n) = some (q, cmds)) (hsev : q.severed = false) :
    p.absorbAll (firstInfos stream (n + 1)) = some (q, cmds ++ [(stream n).delivery]) ∨
    ∃ q' cmds', p.absorbAll (firstInfos stream (n + 1)) = some (q', cmds') ∧
      q'.severed = false ∧ q'.deficit < q.deficit := by
  obtain ⟨f, hf⟩ := List.length_eq_one_iff.mp ((stream n).frags_length.trans (hs.single n))
  have hfit := (hs.short n).fits
  have hq := hclean n q cmds habs f (by simp [hf])
  have hcmd : f.info.cmd = (stream n).cmd := Msg.cmd_of_mem (f := f) (by simp [hf])
  rw [firstInfos_succ, absorbAll_append, habs, hf]
  -- no fragment of its command is pending, or one is
  by_cases hown : fragsOf f.info.cmd q.frags = []
  · have hone := absorb_single_own hsev hfit hf hq (hcmd ▸ hown)
    exact Or.inl (by simp [absorbAll, hone])
  · obtain ⟨q', d, hone, hsev', hlt⟩ := absorb_single_other hsev
      (Msg.fits_of_mem hfit (by simp [hf])) hq hown
    exact Or.inr ⟨q', cmds ++ d.toList, by simp [absorbAll, hone], hsev', hlt⟩

/-- Along a clean stream nothing is undefined. -/
theorem absorbAll_clean {p : Pending} (hsev : p.severed = false) {stream : Nat → Msg}
    (hs : Singles stream) (hclean : CleanStream p stream) (n : Nat) :
    ∃ q cmds, p.absorbAll (firstInfos stream n) = some (q, cmds) ∧ q.severed = false := by
  induction n with
  | zero => exact ⟨p, [], rfl, hsev⟩
  | succ n ih =>
    obtain ⟨q, cmds, habs, hqsev⟩ := ih
    rcases absorbAll_succ hs hclean habs hqsev with h | ⟨q', cmds', h, hsev', -⟩
    · exact ⟨q, _, h, hqsev⟩
    · exact ⟨q', cmds', h, hsev'⟩

/-- A measure of what a sequence of results gives, where it gives anything. -/
theorem exists_measure {α β : Type} (f : Nat → Option (α × β)) (m : α → Nat) :
    ∃ measure : Nat → Nat, ∀ n a b, f n = some (a, b) → measure n = m a := by
  refine ⟨fun n => ((f n).map fun r => m r.1).getD 0, ?_⟩
  intro n a b h
  simp only [h, Option.map_some, Option.getD_some]

/-- **From some message on, every message of a clean stream is delivered.** -/
theorem eventually_delivers {p : Pending} (hsev : p.severed = false) {stream : Nat → Msg}
    (hs : Singles stream) (hclean : CleanStream p stream) :
    ∃ N q pre, ∀ n, p.absorbAll (firstInfos stream (N + n)) =
      some (q, pre ++ (List.range n).map fun i => (stream (N + i)).delivery) := by
  -- the gaps in the list after `n` messages
  obtain ⟨gaps, hgaps⟩ : ∃ gaps : Nat → Nat, ∀ n q cmds,
      p.absorbAll (firstInfos stream n) = some (q, cmds) → gaps n = q.deficit :=
    exists_measure (fun n => p.absorbAll (firstInfos stream n)) Pending.deficit
  have hmono : ∀ n, gaps (n + 1) ≤ gaps n := by
    intro n
    obtain ⟨q, cmds, habs, hqsev⟩ := absorbAll_clean hsev hs hclean n
    rcases absorbAll_succ hs hclean habs hqsev with h | ⟨q', cmds', h, -, hlt⟩
    · rw [hgaps _ _ _ h, hgaps _ _ _ habs]
    · rw [hgaps _ _ _ h, hgaps _ _ _ habs]
      exact hlt.le
  obtain ⟨N, hstable⟩ := exists_stable hmono
  obtain ⟨q, pre, habs, hqsev⟩ := absorbAll_clean hsev hs hclean N
  refine ⟨N, q, pre, ?_⟩
  intro n
  induction n with
  | zero => simpa using habs
  | succ n ih =>
    rcases absorbAll_succ hs hclean ih hqsev with h | ⟨q', cmds', h, -, hlt⟩
    · rw [← Nat.add_assoc, h]
      simp [List.range_succ]
    · -- no gap is left to fill
      rw [← hgaps _ _ _ h, ← hgaps _ _ _ ih, Nat.add_assoc, hstable, hstable] at hlt
      exact absurd hlt (Nat.lt_irrefl _)

end Pending

/-! ## The server loop on an endless stream -/

/-- The first `n` messages of a stream. -/
def firstMsgs (stream : Nat → Msg) (n : Nat) : List Msg := (List.range n).map stream

/-- After finitely many messages of the stream every message is delivered,
however the bytes are cut into pieces of at most `room` bytes. -/
def Resyncs (room : Nat) (s : SocketCmdClass) (stream : Nat → Msg) : Prop :=
  ∃ N pre, ∀ n (sendFd : Int) (chunks : List (List Byte)),
    (∀ c ∈ chunks, c ≠ [] ∧ c.length ≤ room) →
    sentBytes sendFd (firstMsgs stream (N + n)) = some chunks.flatten →
    ∃ out, serverConnection s chunks = some out ∧
      out.cmds = pre ++ (List.range n).map fun i => (stream (N + i)).delivery

section Server

variable {stream : Nat → Msg}

/-- The frames of single-fragment messages fit, twice over, into the FIFO. -/
theorem Singles.fits (hs : Singles stream) (n : Nat) :
    ∀ f ∈ (firstMsgs stream n).flatMap Msg.frags,
      f.Fits ∧ f.bytes.length ≤ fifoMaxLen / 2 := by
  intro f hf
  obtain ⟨m, hm, hfm⟩ := List.mem_flatMap.mp hf
  obtain ⟨i, -, rfl⟩ := List.mem_map.mp hm
  exact ⟨Msg.fits_of_mem (hs.short i).fits hfm, (hs.short i).bytes_le hfm⟩

/-- The stream, one frame a chunk. -/
theorem Singles.frame_chunks (hs : Singles stream) (n : Nat) :
    (∀ c ∈ ((firstMsgs stream n).flatMap Msg.frags).map Frag.bytes,
      c ≠ [] ∧ c.length ≤ fifoMaxLen / 2) ∧
    sentBytes 0 (firstMsgs stream n) =
      some (((firstMsgs stream n).flatMap Msg.frags).map Frag.bytes).flatten := by
  refine ⟨fun c hc => ?_, ?_⟩
  · obtain ⟨f, hf, rfl⟩ := List.mem_map.mp hc
    obtain ⟨hfits, hlen⟩ := hs.fits n f hf
    refine ⟨List.ne_nil_of_length_pos ?_, hlen⟩
    rw [Frag.bytes_length hfits]
    exact Nat.succ_pos _
  · rw [sentBytes_of_valid (by decide), streamBytes_eq_flatten]

/-- A stream of such messages is one from any message on. -/
theorem Singles.shift (hs : Singles stream) (k : Nat) : Singles fun i => stream (k + i) :=
  ⟨fun n => hs.single (k + n), fun n => hs.short (k + n)⟩

/-- The first `k + n` messages are `k`, and `n` from there. -/
theorem firstMsgs_add (stream : Nat → Msg) (k n : Nat) :
    firstMsgs stream (k + n) = firstMsgs stream k ++ firstMsgs (fun i => stream (k + i)) n := by
  simp [firstMsgs, List.range_add]

/-- The bytes in the FIFO and the first `k` messages of the stream split into whole frames, and
while one of them is incomplete a piece of `room` bytes still fits. No frame cuts the list when
it completes a message: none of these, and none of the stream behind them. -/
structure Realigned (room : Nat) (bytes : List Byte) (p : Pending) (stream : Nat → Msg) (k : Nat)
    (frames : List (List Byte)) : Prop where
  split : bytes ++ streamBytes ((firstMsgs stream k).flatMap Msg.frags) = frames.flatten
  whole : ∀ fr ∈ frames, IsFrame fr ∧ fr.length + room ≤ fifoMaxLen + 1
  clean : ∀ n, p.CleanAlong (frames.map parseInfo ++ firstInfos (fun i => stream (k + i)) n)

/-- What the list is after the frames, the rest of the stream is clean for. -/
theorem Realigned.absorbAll {room : Nat} {bytes : List Byte} {p : Pending} {k : Nat}
    {frames : List (List Byte)} (h : Realigned room bytes p stream k frames)
    (hs : Singles stream) (hsev : p.severed = false) :
    ∃ q cmds, p.absorbAll (frames.map parseInfo) = some (q, cmds) ∧ q.severed = false ∧
      CleanStream q fun i => stream (k + i) := by
  have hframes := h.clean 0
  rw [show firstInfos (fun i => stream (k + i)) 0 = [] from rfl, List.append_nil] at hframes
  obtain ⟨q, cmds, habs, hq⟩ := Pending.absorbAll_cleanAlong hsev hframes
  refine ⟨q, cmds, habs, hq, ?_⟩
  intro n q' cmds' habs' f hf
  -- the frames and `n` messages are behind, and `f` is next
  have hone : (stream (k + n)).frags = [f] := by
    obtain ⟨g, hg⟩ := List.length_eq_one_iff.mp ((stream (k + n)).frags_length.trans
      (hs.single (k + n)))
    have hf : f ∈ (stream (k + n)).frags := hf
    rw [hg, List.mem_singleton] at hf
    rw [hg, hf]
  refine h.clean (n + 1) (frames.map parseInfo ++ firstInfos (fun i => stream (k + i)) n) f.info []
    q' (cmds ++ cmds') ?_ ?_
  · rw [Pending.firstInfos_succ, hone, List.append_assoc]
    rfl
  · rw [Pending.absorbAll_append, habs]
    simp only [habs', Option.map_some]

/-- A receiver that comes back to a boundary between messages comes back for good. -/
theorem Rep.resyncs {s : SocketCmdClass} {r : Receiver} (h : Rep s r)
    (hnone : frameLen r.buf = none) (hsev : r.pending.severed = false) (hs : Singles stream)
    {room : Nat} (hroom : room ≤ fifoMaxLen / 2) {k : Nat} {frames : List (List Byte)}
    (hal : Realigned room r.buf r.pending stream k frames) : Resyncs room s stream := by
  obtain ⟨q₀, cmds₀, hfirst, hsev₀, hclean⟩ := hal.absorbAll hs hsev
  obtain ⟨N, q, pre, hdelivers⟩ := Pending.eventually_delivers hsev₀ (hs.shift k) hclean
  refine ⟨k + N, cmds₀ ++ pre, ?_⟩
  intro n sendFd chunks hchunks hsent
  -- the frames, and then the messages from `k` on
  obtain ⟨later, hlater⟩ : ∃ later, later =
      (firstMsgs (fun i => stream (k + i)) (N + n)).flatMap Msg.frags := ⟨_, rfl⟩
  have hfits : ∀ f ∈ later, f.Fits ∧ f.bytes.length ≤ fifoMaxLen / 2 :=
    hlater ▸ (hs.shift k).fits (N + n)
  have hwhole := isFrame_of_mem_map fun f hf => (hfits f hf).1
  have hframes : ∀ fr ∈ frames ++ later.map Frag.bytes, IsFrame fr ∧
      fr.length + room ≤ fifoMaxLen + 1 := by
    intro fr hfr
    rcases List.mem_append.mp hfr with hfr | hfr
    · exact hal.whole fr hfr
    · obtain ⟨f, hf, rfl⟩ := List.mem_map.mp hfr
      have := (hfits f hf).2
      exact ⟨hwhole _ hfr, by omega⟩
  have hon : r.OnStream (frames ++ later.map Frag.bytes) chunks.flatten := by
    refine ⟨fun fr hfr => (hframes fr hfr).1, ?_⟩
    rw [streamBytes_of_sentBytes hsent, Nat.add_assoc, firstMsgs_add, List.flatMap_append, ← hlater,
      streamBytes, List.flatMap_append, ← streamBytes, ← List.append_assoc, hal.split,
      List.flatten_append, ← streamBytes_eq_flatten, streamBytes]
  have hstarved : r.Starved (frames ++ later.map Frag.bytes) := by
    rcases hon.frameLen with ⟨hstarved, -⟩ | ⟨fr, frs', -, hlen, -⟩
    · exact hstarved
    · rw [hnone] at hlen
      cases hlen
  have hroomy : r.Roomy (frames ++ later.map Frag.bytes) chunks := Or.inl fun fr hfr c hc => by
    have := (hframes fr hfr).2
    have := (hchunks c hc).2
    omega
  have habs : r.pending.absorbAll ((frames ++ later.map Frag.bytes).map parseInfo) =
      some (q, cmds₀ ++ (pre ++ (List.range n).map fun i => (stream (k + (N + i))).delivery)) := by
    have hrest := hdelivers n
    rw [firstInfos, ← firstMsgs, ← hlater] at hrest
    rw [List.map_append, map_parseInfo_bytes fun f hf => (hfits f hf).1,
      Pending.absorbAll_append, hfirst]
    simp only [hrest, Option.map_some]
  obtain ⟨r', hserve, -⟩ := Receiver.serve_stream hon hroomy hstarved habs
  obtain ⟨s', hconn, -⟩ := serverConnection_of_serve h hserve
  refine ⟨_, hconn, ?_⟩
  simp only [List.append_assoc, Nat.add_assoc]

/-- A stuck receiver never comes back, whatever is sent. -/
theorem Rep.not_resyncs {s : SocketCmdClass} {r : Receiver} (h : Rep s r) (hstuck : r.Stuck)
    (hs : Singles stream) : ¬ Resyncs (fifoMaxLen / 2) s stream := by
  rintro ⟨N, pre, hall⟩
  obtain ⟨hchunks, hsent⟩ := hs.frame_chunks (N + 1)
  obtain ⟨out, hout, hcmds⟩ := hall 1 0 _ hchunks hsent
  obtain ⟨r', stored, hserve, -⟩ := hstuck.serve
    (((firstMsgs stream (N + 1)).flatMap Msg.frags).map Frag.bytes)
  obtain ⟨s', hconn, -⟩ := serverConnection_of_serve h hserve
  obtain rfl := Option.some.inj (hout.symm.trans hconn)
  simp at hcmds

/-- **Resynchronisation.** From every state the server can be in, and for every stream of
single-fragment messages that comes back to a boundary between messages and of which none cuts
the list, the receiver delivers every message from some message on. -/
theorem resyncs_of_realigned {s₀ : SocketCmdClass} (hidle : Idle s₀) {first : List (List Byte)}
    {out : Served SocketCmdClass} (hfirst : serverConnection s₀ first = some out) {p : Pending}
    (hpending : HoldsPending (initCmdFifo out.state).gstRecvSocketCmdList p)
    (hsev : p.severed = false) (hs : Singles stream) {room : Nat} (hroom : room ≤ fifoMaxLen / 2)
    {k : Nat} {frames : List (List Byte)}
    (hal : Realigned room (initCmdFifo out.state).cmdFifo.bytes p stream k frames) :
    Resyncs room out.state stream := by
  -- the first connection leaves a receiver, which the source's state is
  cases hserve : Receiver.fresh.serve first with
  | none =>
    rw [serverConnection_of_none hidle.rep hserve] at hfirst
    exact absurd hfirst (by simp)
  | some out' =>
    obtain ⟨s', hconn, hrep⟩ := serverConnection_of_serve hidle.rep hserve
    obtain rfl := Option.some.inj (hfirst.symm.trans hconn)
    -- its pending list is the one the condition names
    obtain ⟨hfrags, hsev'⟩ := hrep.list.unique hpending
    have hp : out'.state.pending = p := Pending.ext hfrags hsev'
    rw [hrep.buf, ← hp] at hal
    exact hrep.resyncs (Receiver.serve_frameLen rfl hserve) (hp ▸ hsev) hs hroom hal

end Server

/-! ## A stray head -/

/-- An empty message, sent for ever. -/
def heartbeat : Msg := ⟨0xC#32, 1, [[]], Msg.emptyPart_ne, Msg.emptyPart_count⟩

def heartbeats : Nat → Msg := fun _ => heartbeat

/-- Heartbeats without end. -/
theorem singles_heartbeats : Singles heartbeats :=
  ⟨fun _ => rfl, fun _ => (by decide : heartbeat.Short)⟩

/-- A command with a payload of twenty bytes. -/
def twenty : Msg := ⟨0xC#32, 1, [List.replicate 20 0xAA], by decide, by decide⟩

/-- The first half of its frame, and a whole other message. -/
def tornFrame : List Byte :=
  (streamBytes twenty.frags).take 20 ++ streamBytes heartbeat.frags

/-- The frame that was torn is completed by the next message, whose CRC field of 0 switches the
check off; then the stream is at a boundary between messages. -/
theorem realigned_tornFrame :
    Realigned (fifoMaxLen / 2) ((streamBytes twenty.frags).take 20) .empty heartbeats 1
      [tornFrame] where
  split := by
    rw [List.flatten_cons, List.flatten_nil, List.append_nil]
    rfl
  whole := by
    rintro fr hfr
    obtain rfl := List.mem_singleton.mp hfr
    exact ⟨⟨by decide, by decide, by decide⟩, by decide⟩
  clean := by
    intro n
    -- the torn frame and the heartbeats complete their messages alone
    refine Pending.cleanAlong_of_steady (fun info hinfo => ?_) fun info => Pending.clean_empty info
    rcases List.mem_append.mp hinfo with hinfo | hinfo
    · obtain rfl := List.mem_singleton.mp hinfo
      exact Pending.absorb_alone (by decide) (by decide)
    · obtain ⟨f, hf, rfl⟩ := List.mem_map.mp hinfo
      obtain ⟨m, hm, hf⟩ := List.mem_flatMap.mp hf
      obtain ⟨i, -, rfl⟩ := List.mem_map.mp hm
      have hf : f ∈ heartbeat.frags := hf
      have hall : ∀ g ∈ heartbeat.frags, crcOk g.info = true ∧
          complete g.info.cmd [g.info] = true := by decide
      exact Pending.absorb_alone (hall f hf).1 (hall f hf).2

/-- Twenty bytes of a frame whose rest never came are in the FIFO: the heartbeats behind them
fill that frame up, and the receiver comes back. -/
theorem torn_frame_resyncs :
    ∃ out, serverConnection bootClass [(streamBytes twenty.frags).take 20] = some out ∧
      (initCmdFifo out.state).cmdFifo.len = 20 ∧
      Resyncs (fifoMaxLen / 2) out.state heartbeats := by
  obtain ⟨first, hfirst⟩ : ∃ first, first = (streamBytes twenty.frags).take 20 := ⟨_, rfl⟩
  -- the twenty bytes are no whole frame, so they stay
  have hdrain : (Receiver.fresh.recv first).1.drain =
      some ((Receiver.fresh.recv first).1, []) :=
    Receiver.drain_of_none (by rw [hfirst]; decide)
  have hserve : Receiver.fresh.serve [first] =
      some ⟨(Receiver.fresh.recv first).1, [], true⟩ := by
    rw [Receiver.serve, hdrain]
    subst hfirst
    rfl
  obtain ⟨s', hconn, hrep⟩ := serverConnection_of_serve idle_bootClass.rep hserve
  have hbytes : (initCmdFifo s').cmdFifo.bytes = first := by
    rw [hrep.buf, hfirst]
    rfl
  refine ⟨_, hfirst ▸ hconn, ?_, ?_⟩
  · have hlen := CmdFifo.bytes_length hrep.fifo
    rw [hbytes, hfirst] at hlen
    exact hlen.symm
  -- nothing is pending yet
  · have hpending : HoldsPending (initCmdFifo s').gstRecvSocketCmdList .empty := by
      have hlist := hrep.list
      rw [hfirst] at hlist
      exact hlist
    have hal : Realigned (fifoMaxLen / 2) (initCmdFifo s').cmdFifo.bytes .empty heartbeats 1
        [tornFrame] := by
      rw [hbytes, hfirst]
      exact realigned_tornFrame
    exact resyncs_of_realigned idle_bootClass hconn hpending rfl singles_heartbeats le_rfl hal

/-- Twenty stray bytes stop the receiver for good. -/
theorem stray_not_resyncs :
    ∃ out, serverConnection bootClass [List.replicate 20 0] = some out ∧
      ¬ Resyncs (fifoMaxLen / 2) out.state heartbeats := by
  have hdrain : (Receiver.fresh.recv (List.replicate 20 0)).1.drain =
      some ((Receiver.fresh.recv (List.replicate 20 0)).1, []) := Receiver.drain_of_none (by decide)
  have hserve : Receiver.fresh.serve [List.replicate 20 0] =
      some ⟨(Receiver.fresh.recv (List.replicate 20 0)).1, [], true⟩ := by
    rw [Receiver.serve, hdrain]
    rfl
  obtain ⟨s', hconn, hrep⟩ := serverConnection_of_serve idle_bootClass.rep hserve
  refine ⟨_, hconn, hrep.not_resyncs ?_ singles_heartbeats⟩
  exact ⟨by decide, Or.inl (by decide)⟩

end PgClient.PackSocket
