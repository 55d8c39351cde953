import PgClient.PackSocket.Transparency

/-!
# Corrupted frames

A frame whose payload was changed inside four consecutive bytes, with the
header and the CRC field as sent. The CRC always tells
(`crc32Le_burst`), but `parseSocketCmd` takes a CRC field of 0 for "no
check", and a payload can hash to 0. So the frame is rejected exactly when the
checksum of the original payload is not 0 (or the frame is too long for the
FIFO): `tampered_rejected_iff`.
-/

namespace PgClient.PackSocket

/-- The record of `f` with other payload bytes; header and CRC field as sent. -/
def Frag.tampered (f : Frag) (data : List Byte) : SocketCmdInfo := { f.info with pValid := data }

/-- A payload exchanged for one of the same length leaves the frame a frame. -/
theorem Frag.framed_tampered {f : Frag} (hf : f.Fits) {data : List Byte}
    (hlen : data.length = f.payload.length) : (f.tampered data).Framed :=
  ⟨rfl, (Frag.length_toNat hf).trans hlen.symm⟩

/-- However the bytes are cut, nothing is delivered and the list stays empty. -/
def Rejected (s : SocketCmdClass) (bs : List Byte) : Prop :=
  ∀ chunks : List (List Byte), (∀ c ∈ chunks, c.length ≤ fifoMaxLen / 2) → chunks.flatten = bs →
    ∃ out, serverConnection s chunks = some out ∧ out.cmds = [] ∧
      (initCmdFifo out.state).gstRecvSocketCmdList.psockCmdListHead = none

/-! ## One frame on a fresh receiver -/

namespace Receiver

/-- A frame that fits the FIFO is absorbed, in any chunks. -/
theorem serve_one {fr : List Byte} (hfr : IsFrame fr) (hlen : fr.length ≤ fifoMaxLen)
    {chunks : List (List Byte)} (hchunks : chunks.flatten = fr) {p : Pending}
    {d : Option SocketCmd} (habs : Pending.empty.absorb (parseInfo fr) = some (p, d)) :
    ∃ r', fresh.serve chunks = some ⟨r', d.toList, true⟩ ∧ r'.pending = p := by
  -- the stream is this frame
  have hon : fresh.OnStream [fr] chunks.flatten :=
    ⟨by simpa using hfr, by simpa [fresh] using hchunks⟩
  have habsAll : fresh.pending.absorbAll ([fr].map parseInfo) = some (p, d.toList) := by
    show Pending.empty.absorbAll [parseInfo fr] = _
    simp [Pending.absorbAll, habs]
  obtain ⟨r', hserve, -, hp⟩ := serve_stream hon (Or.inr (by simpa [fresh, hchunks] using hlen))
    (fun g hg => by
      obtain rfl : fr = g := by simpa using hg
      exact (Nat.succ_pos _).trans_le hfr.head) habsAll
  exact ⟨r', hserve, hp⟩

/-- A frame that is longer than the FIFO is never found. -/
theorem serve_long {r : Receiver} {fr : List Byte} {chunks : List (List Byte)}
    (hfr : IsFrame fr) (hlong : fifoMaxLen < fr.length) (hbytes : r.buf ++ chunks.flatten = fr)
    (hshort : r.buf.length < headLen + 4) (hchunks : ∀ c ∈ chunks, c.length ≤ fifoMaxLen / 2) :
    ∃ r' stored, r.serve chunks = some ⟨r', [], stored⟩ ∧ r'.pending = r.pending := by
  induction chunks generalizing r with
  | nil => exact ⟨r, true, rfl, rfl⟩
  | cons c chunks ih =>
    rw [List.forall_mem_cons] at hchunks
    have hmax : fifoMaxLen = 40960 := rfl
    have hhead : headLen = 16 := rfl
    obtain ⟨hbuf, hpending⟩ : (r.recv c).1.buf = r.buf ++ c ∧
        (r.recv c).1.pending = r.pending := by
      rw [recv, dif_pos (by omega)]
      exact ⟨rfl, rfl⟩
    have hpre : (r.recv c).1.buf <+: fr :=
      ⟨chunks.flatten, by rw [hbuf, List.append_assoc, ← List.flatten_cons, hbytes]⟩
    have hnone : frameLen (r.recv c).1.buf = none :=
      frameLen_of_prefix hfr hpre ((r.recv c).1.room.trans_lt hlong)
    rw [serve, drain_of_none hnone]
    dsimp only
    -- below 20 bytes the header itself may be incomplete
    rcases Nat.lt_or_ge (r.recv c).1.buf.length (headLen + 4) with hlt | hge
    · obtain ⟨r', stored, hserve, hp⟩ := ih (by rw [hbuf, List.append_assoc, ← List.flatten_cons,
        hbytes]) hlt hchunks.2
      exact ⟨r', (r.recv c).2 && stored, by rw [hserve]; rfl, hp.trans hpending⟩
    · -- the header has arrived, and announces more than the FIFO holds
      have hstuck : (r.recv c).1.Stuck := by
        refine ⟨hge, Or.inr ?_⟩
        obtain ⟨more, hmore⟩ := hpre
        have hlen := hfr.length
        rw [← hmore, getShort_append more (by omega), hmore] at hlen
        omega
      obtain ⟨r', stored, hserve, -, hp⟩ := hstuck.serve chunks
      exact ⟨r', (r.recv c).2 && stored, by rw [hserve]; rfl, hp.trans hpending⟩

end Receiver

/-- An accepted frame leaves a trace: a message or a pending fragment. -/
theorem Pending.absorb_empty_of_crcOk {info : SocketCmdInfo} (h : crcOk info = true) :
    ∃ p d, Pending.empty.absorb info = some (p, d) ∧ p.severed = false ∧
      (d.toList = [] → p.frags ≠ []) := by
  have hcuts : cuts info.cmd [info] = false := by simp [cuts]
  rcases absorb_of_crcOk (p := .empty) rfl h with
    ⟨-, p, habs, hfrags, hsev⟩ | ⟨-, p, habs, -, hsev⟩
  · exact ⟨p, none, habs, hsev, fun _ => by simp [hfrags]⟩
  · exact ⟨p, _, habs, hsev.trans hcuts, by simp⟩

section Tampered

variable {s : SocketCmdClass} {f : Frag} {data : List Byte}

/-- A frame the CRC check refuses is rejected. -/
theorem rejected_of_not_crcOk (hs : Idle s) (hf : f.Fits)
    (hlen : data.length = f.payload.length) (hcrc : crcOk (f.tampered data) = false) :
    Rejected s (f.tampered data).bytes := by
  intro chunks hchunks hbytes
  have hframed := Frag.framed_tampered hf hlen
  obtain ⟨r', stored, hserve, hp⟩ : ∃ r' stored, Receiver.fresh.serve chunks =
      some ⟨r', [], stored⟩ ∧ r'.pending = .empty := by
    -- too long for the FIFO, or found and refused by the CRC
    rcases Nat.lt_or_ge fifoMaxLen (f.tampered data).bytes.length with hlong | hfits
    · exact Receiver.serve_long hframed.isFrame hlong (by simpa [Receiver.fresh] using hbytes)
        (Nat.succ_pos _) hchunks
    · have habs : Pending.empty.absorb (parseInfo (f.tampered data).bytes) =
          some (.empty, none) := by
        rw [hframed.parseInfo_bytes]
        exact Pending.absorb_of_not_crcOk rfl hcrc
      obtain ⟨r', hserve, hp⟩ := Receiver.serve_one hframed.isFrame hfits hbytes habs
      exact ⟨r', true, hserve, hp⟩
  obtain ⟨s', hconn, hrep⟩ := serverConnection_of_serve hs.rep hserve
  have hlist := hrep.list
  rw [HoldsPending, hp] at hlist
  exact ⟨_, hconn, rfl, hlist.head_eq_none_iff.mpr ⟨rfl, rfl⟩⟩

/-- A frame too long for the FIFO is rejected whatever its CRC field says. -/
theorem rejected_of_long (hs : Idle s) (hf : f.Fits) (hlen : data.length = f.payload.length)
    (hlong : fifoMaxLen < headLen + f.payload.length + 4) :
    Rejected s (f.tampered data).bytes := by
  intro chunks hchunks hbytes
  have hframed := Frag.framed_tampered hf hlen
  obtain ⟨r', stored, hserve, hp⟩ := Receiver.serve_long (r := .fresh) hframed.isFrame
    (by rw [hframed.bytes_length, Frag.tampered, hlen]; exact hlong)
    (by simpa [Receiver.fresh] using hbytes) (Nat.succ_pos _) hchunks
  obtain ⟨s', hconn, hrep⟩ := serverConnection_of_serve hs.rep hserve
  have hlist := hrep.list
  rw [HoldsPending, hp] at hlist
  exact ⟨_, hconn, rfl, hlist.head_eq_none_iff.mpr ⟨rfl, rfl⟩⟩

/-- A frame that passes the CRC check and fits the FIFO is not rejected. -/
theorem not_rejected_of_crcOk (hs : Idle s) (hf : f.Fits)
    (hlen : data.length = f.payload.length) (hfits : headLen + f.payload.length + 4 ≤ fifoMaxLen)
    (hcrc : crcOk (f.tampered data) = true) : ¬ Rejected s (f.tampered data).bytes := by
  intro hrej
  have hframed := Frag.framed_tampered hf hlen
  have hbytes : (f.tampered data).bytes.length ≤ fifoMaxLen := by
    rw [hframed.bytes_length, Frag.tampered, hlen]
    exact hfits
  -- the frame in two chunks
  set fr := (f.tampered data).bytes with hfr
  have hcut : [fr.take (fifoMaxLen / 2), fr.drop (fifoMaxLen / 2)].flatten = fr := by simp
  obtain ⟨p, d, habs, hsev, htrace⟩ := Pending.absorb_empty_of_crcOk hcrc
  rw [← hframed.parseInfo_bytes] at habs
  obtain ⟨r', hserve, hp⟩ := Receiver.serve_one hframed.isFrame hbytes hcut habs
  obtain ⟨s', hconn, hrep⟩ := serverConnection_of_serve hs.rep hserve
  obtain ⟨out, hout, hcmds, hhead⟩ := hrej _ (by
    have : fifoMaxLen = 40960 := rfl
    simp only [List.mem_cons, List.not_mem_nil, or_false, forall_eq_or_imp, forall_eq,
      List.length_take, List.length_drop]
    omega) hcut
  obtain rfl := Option.some.inj (hconn.symm.trans hout)
  have hlist := hrep.list
  rw [HoldsPending, hp, hsev] at hlist
  exact htrace hcmds ((hlist.head_eq_none_iff.mp hhead).1)

end Tampered

/-- **Which corrupted frames are rejected.** The payload of a sent frame is
changed inside four consecutive bytes. The frame is rejected, in every
chunking, if and only if the checksum it was sent with is not 0 or the frame is
longer than the FIFO. -/
theorem tampered_rejected_iff {s : SocketCmdClass} (hs : Idle s) {f : Frag}
    {pre old new post : List Byte} (hpayload : f.payload = pre ++ old ++ post)
    (hmax : f.payload.length ≤ 65535) (hlen : new.length = old.length) (hfour : old.length ≤ 4)
    (hne : new ≠ old) :
    Rejected s (f.tampered (pre ++ new ++ post)).bytes ↔
      crc32Le crcPolyLe f.payload ≠ 0 ∨ fifoMaxLen < headLen + f.payload.length + 4 := by
  have hf : f.Fits := Nat.lt_succ_of_le hmax
  have hdata : (pre ++ new ++ post).length = f.payload.length := by
    simp [hpayload, hlen]
  have hnil : f.payload ≠ [] := by
    rintro h
    have hlen' := congrArg List.length (hpayload.symm.trans h)
    simp only [List.length_append, List.length_nil] at hlen'
    exact hne ((List.length_eq_zero_iff.mp (by omega)).trans
      (List.length_eq_zero_iff.mp (by omega)).symm)
  have hcrc := Frag.crc_info hf hnil
  -- the changed payload never has the checksum that was sent
  have hburst : crc32Le crcPolyLe (pre ++ new ++ post) ≠ crc32Le crcPolyLe f.payload := by
    rw [hpayload]
    exact crc32Le_burst crcPolyLe pre post hlen (by omega) hne
  constructor
  · -- checksum 0 and short enough: the field switches the check off
    intro hrej
    by_contra hcon
    rw [not_or, not_not, Nat.not_lt] at hcon
    refine not_rejected_of_crcOk hs hf hdata hcon.2 ?_ hrej
    rw [crcOk, Frag.tampered, hcrc, hcon.1]
    rfl
  · rintro (hzero | hlong)
    · refine rejected_of_not_crcOk hs hf hdata ?_
      simp only [crcOk, Frag.tampered, hcrc, Bool.or_eq_false_iff, beq_eq_false_iff_ne]
      exact ⟨hzero, Ne.symm hburst⟩
    · exact rejected_of_long hs hf hdata hlong

/-- One byte of three changed on the way. -/
theorem tampered_rejected_iff_at :
    Rejected bootClass ((⟨0x16#32, 1, 0, 0, [1, 2, 3]⟩ : Frag).tampered ([1] ++ [9] ++ [3])).bytes ↔
      crc32Le crcPolyLe [1, 2, 3] ≠ 0 ∨ fifoMaxLen < headLen + 3 + 4 :=
  have hpayload : (⟨0x16#32, 1, 0, 0, [1, 2, 3]⟩ : Frag).payload = [1] ++ [2] ++ [3] := rfl
  tampered_rejected_iff idle_bootClass hpayload (by decide) rfl (by decide) (by decide)

/-- A payload whose checksum is 0. -/
def zeroCrcFrag : Frag := ⟨0x16#32, 1, 0, 0, [0x20, 0x83, 0xb8, 0xed]⟩

/-- One flipped bit of that payload goes unnoticed. -/
theorem zeroCrcFrag_not_rejected :
    ¬ Rejected bootClass (zeroCrcFrag.tampered ([] ++ [0x21] ++ [0x83, 0xb8, 0xed])).bytes :=
  not_rejected_of_crcOk idle_bootClass (by decide) rfl (by decide) (by decide)

end PgClient.PackSocket
