import PgClient.PackSocket.Receiver

/-!
# Streams of fragments

What a receiver does with bytes that are a sequence of frames. Chunks need
not end where frames do: `more` below is the part of the stream that has not
arrived.

* `drain_stream`, `parse_stream` — the frames that have arrived are absorbed
  in order, and the bytes left over are a proper piece of the next frame.
* `serve_stream` — a whole connection, when there is room for every chunk.
* `Stuck.serve` — a receiver that never finds a frame again.
* `Msg` — a message and its fragments; `absorb_frag` is what the receiver does
  with the next fragment of one.
-/

namespace PgClient.PackSocket

/-- The bytes of fragments sent one after another. -/
def streamBytes (fs : List Frag) : List Byte := fs.flatMap Frag.bytes

@[simp] theorem streamBytes_nil : streamBytes [] = [] := rfl

@[simp] theorem streamBytes_cons (f : Frag) (fs : List Frag) :
    streamBytes (f :: fs) = f.bytes ++ streamBytes fs := List.flatMap_cons

@[simp] theorem streamBytes_append (fs gs : List Frag) :
    streamBytes (fs ++ gs) = streamBytes fs ++ streamBytes gs := List.flatMap_append

namespace Pending

/-- A pending list is its fragments and whether it is cut. -/
@[ext] theorem ext {p q : Pending} (hfrags : p.frags = q.frags) (hsev : p.severed = q.severed) :
    p = q := by
  cases p
  cases q
  simp only at hfrags hsev
  subst hfrags hsev
  rfl

/-- Frames one after another. -/
def absorbAll (p : Pending) : List SocketCmdInfo → Option (Pending × List SocketCmd)
  | [] => some (p, [])
  | i :: is =>
    match p.absorb i with
    | none => none
    | some (p', d) => (p'.absorbAll is).map fun out => (out.1, d.toList ++ out.2)

/-- Records in a row are taken in one after another. -/
theorem absorbAll_append (p : Pending) (is js : List SocketCmdInfo) :
    p.absorbAll (is ++ js) =
      match p.absorbAll is with
      | none => none
      | some (p', cmds) => (p'.absorbAll js).map fun out => (out.1, cmds ++ out.2) := by
  induction is generalizing p with
  | nil =>
    simp only [List.nil_append, absorbAll]
    exact Option.map_id'.symm
  | cons i is ih =>
    rw [List.cons_append, absorbAll, absorbAll]
    -- a record that is undefined ends it, others hand their commands on
    rcases p.absorb i with _ | ⟨p', d⟩
    · rfl
    · dsimp only
      rw [ih]
      rcases p'.absorbAll is with _ | ⟨p'', cmds⟩
      · rfl
      · simp only [Option.map_some, Option.map_map, List.append_assoc]
        rfl

end Pending

namespace Receiver

/-- Two frames taken are one advance over both. -/
theorem advance_advance (r : Receiver) (k n : Nat) (p q : Pending) :
    (r.advance k p).advance n q = r.advance (k + n) q := by
  simp [advance, List.drop_drop]

@[simp] theorem advance_buf (r : Receiver) (k : Nat) (p : Pending) :
    (r.advance k p).buf = r.buf.drop k := rfl

@[simp] theorem advance_pending (r : Receiver) (k : Nat) (p : Pending) :
    (r.advance k p).pending = p := rfl

/-- The stream goes on behind what is in the buffer: `more` is what has not
arrived of the frames `frs`. -/
structure OnStream (r : Receiver) (frs : List (List Byte)) (more : List Byte) : Prop where
  frames : ∀ fr ∈ frs, IsFrame fr
  bytes : r.buf ++ more = frs.flatten

/-- The next frame of the stream has not arrived completely. -/
def Starved (r : Receiver) (frs : List (List Byte)) : Prop :=
  ∀ fr ∈ frs.head?, r.buf.length < fr.length

/-- At a frame boundary the receiver sees the next frame of the stream, once it
has arrived. -/
theorem OnStream.frameLen {r : Receiver} {frs : List (List Byte)} {more : List Byte}
    (h : r.OnStream frs more) :
    (r.Starved frs ∧ frameLen r.buf = none) ∨
    ∃ fr frs', frs = fr :: frs' ∧ frameLen r.buf = some fr.length ∧
      r.buf.take fr.length = fr ∧ ∀ p, (r.advance fr.length p).OnStream frs' more := by
  obtain ⟨hframes, hbytes⟩ := h
  cases frs with
  | nil =>
    have hnil : r.buf = [] := (List.append_eq_nil_iff.mp hbytes).1
    exact Or.inl ⟨by simp [Starved], by rw [hnil]; rfl⟩
  | cons fr frs =>
    have hframe := hframes fr (by simp)
    rw [List.flatten_cons] at hbytes
    -- a proper piece of the frame is in the buffer, or all of it
    rcases Nat.lt_or_ge r.buf.length fr.length with hlt | hge
    · refine Or.inl ⟨by simpa [Starved] using hlt, ?_⟩
      refine frameLen_of_prefix hframe ?_ hlt
      exact List.prefix_of_prefix_length_le ⟨more, hbytes⟩ (List.prefix_append _ _) hlt.le
    · obtain ⟨b, hb⟩ : fr <+: r.buf :=
        List.prefix_of_prefix_length_le (List.prefix_append _ _) ⟨more, hbytes⟩ hge
      refine Or.inr ⟨fr, frs, rfl, ?_, ?_, fun p => ⟨fun g hg => hframes g (by simp [hg]), ?_⟩⟩
      · rw [← hb]
        exact frameLen_append hframe b
      · rw [← hb, List.take_left]
      · rw [← hb, List.append_assoc, List.append_cancel_left_eq] at hbytes
        rw [advance_buf, ← hb, List.drop_left]
        exact hbytes

/-- **A drain absorbs the frames that have arrived.** -/
theorem drain_stream {r : Receiver} {frs : List (List Byte)} {more : List Byte}
    (h : r.OnStream frs more) :
    ∃ done rest, frs = done ++ rest ∧
      r.drain = (r.pending.absorbAll (done.map parseInfo)).map (fun out =>
        (r.advance done.flatten.length out.1, out.2)) ∧
      ∀ p, (r.advance done.flatten.length p).OnStream rest more ∧
        (r.advance done.flatten.length p).Starved rest := by
  induction frs generalizing r with
  | nil =>
    rcases h.frameLen with ⟨hstarved, hnone⟩ | ⟨fr, frs', hfrs, -⟩
    · exact ⟨[], [], rfl, by rw [drain_of_none hnone]; rfl,
        fun p => ⟨⟨h.frames, h.bytes⟩, hstarved⟩⟩
    · exact absurd hfrs (by simp)
  | cons fr frs ih =>
    rcases h.frameLen with ⟨hstarved, hnone⟩ | ⟨fr', frs', hfrs, hlen, htake, hon⟩
    · exact ⟨[], fr :: frs, rfl, by rw [drain_of_none hnone]; rfl,
        fun p => ⟨⟨h.frames, h.bytes⟩, hstarved⟩⟩
    · obtain ⟨rfl, rfl⟩ := List.cons.inj hfrs
      rw [drain_of_frame hlen, htake]
      rcases habs : r.pending.absorb (parseInfo fr) with _ | ⟨p, d⟩
      · -- undefined at this frame: only the bytes behind it are looked at
        obtain ⟨done, rest, rfl, -, hrest⟩ := ih (hon r.pending)
        refine ⟨fr :: done, rest, rfl, ?_, fun p => ?_⟩
        · simp [Pending.absorbAll, habs]
        · have := hrest p
          rw [advance_advance] at this
          rwa [List.flatten_cons, List.length_append]
      · -- one frame absorbed: the drain goes on behind it
        obtain ⟨done, rest, rfl, hdrain, hrest⟩ := ih (hon p)
        refine ⟨fr :: done, rest, rfl, ?_, fun q => ?_⟩
        · simp only [List.map_cons, Pending.absorbAll, habs, hdrain, Option.map_map]
          simp only [advance_advance, List.flatten_cons, List.length_append]
          rfl
        · have := hrest q
          rw [advance_advance] at this
          rwa [List.flatten_cons, List.length_append]

/-- A drain of a stream that has arrived completely. -/
theorem drain_all {r : Receiver} {frs : List (List Byte)} (h : r.OnStream frs []) :
    r.drain = (r.pending.absorbAll (frs.map parseInfo)).map fun out =>
      (r.advance frs.flatten.length out.1, out.2) := by
  obtain ⟨done, rest, rfl, hdrain, hrest⟩ := drain_stream h
  -- a frame left over would be longer than what is in the buffer
  obtain ⟨hon, hstarved⟩ := hrest r.pending
  cases rest with
  | nil => rwa [List.append_nil]
  | cons fr rest =>
    have hlt := hstarved fr (by simp)
    have hbytes := congrArg List.length hon.bytes
    simp only [List.append_nil, List.flatten_cons, List.length_append] at hbytes
    omega

/-- **A parse absorbs frames up to the first that completes a message.** -/
theorem parse_stream {r : Receiver} {frs : List (List Byte)} {more : List Byte}
    (h : r.OnStream frs more) :
    ∃ done rest, frs = done ++ rest ∧
      match r.pending.absorbAll (done.map parseInfo) with
      | none => r.parse = none
      | some (p, cmds) =>
        r.parse = some (r.advance done.flatten.length p, cmds.head?) ∧
        (r.advance done.flatten.length p).OnStream rest more ∧
        ((cmds = [] ∧ (r.advance done.flatten.length p).Starved rest) ∨
          ∃ init last cmd p₀, done = init ++ [last] ∧ cmds = [cmd] ∧
            r.pending.absorbAll (init.map parseInfo) = some (p₀, []) ∧
            p₀.absorb (parseInfo last) = some (p, some cmd)) := by
  induction frs generalizing r with
  | nil =>
    rcases h.frameLen with ⟨hstarved, hnone⟩ | ⟨fr, frs', hfrs, -⟩
    · exact ⟨[], [], rfl, parse_of_none hnone, h, Or.inl ⟨rfl, hstarved⟩⟩
    · exact absurd hfrs (by simp)
  | cons fr frs ih =>
    rcases h.frameLen with ⟨hstarved, hnone⟩ | ⟨fr', frs', hfrs, hlen, htake, hon⟩
    · exact ⟨[], fr :: frs, rfl, parse_of_none hnone, h, Or.inl ⟨rfl, hstarved⟩⟩
    · obtain ⟨rfl, rfl⟩ := List.cons.inj hfrs
      have hparse := parse_of_frame hlen
      rw [htake] at hparse
      rcases habs : r.pending.absorb (parseInfo fr) with _ | ⟨p, _ | cmd⟩ <;>
        rw [habs] at hparse
      · -- undefined, with this frame as the last
        refine ⟨[fr], frs, rfl, ?_⟩
        simpa [Pending.absorbAll, habs] using hparse
      · obtain ⟨done, rest, rfl, hmatch⟩ := ih (hon p)
        refine ⟨fr :: done, rest, rfl, ?_⟩
        simp only [List.map_cons, Pending.absorbAll, habs, Option.toList_none, List.nil_append]
        rw [advance_pending] at hmatch
        rcases hall : p.absorbAll (done.map parseInfo) with _ | ⟨q, cmds⟩ <;> rw [hall] at hmatch
        · exact hparse.trans hmatch
        · simp only [advance_advance] at hmatch
          simp only [Option.map_some, List.flatten_cons, List.length_append]
          refine ⟨hparse.trans hmatch.1, hmatch.2.1, ?_⟩
          rcases hmatch.2.2 with hnil | ⟨init, last, cmd, p₀, rfl, hcmds, hinit, hlast⟩
          · exact Or.inl hnil
          · refine Or.inr ⟨fr :: init, last, cmd, p₀, rfl, hcmds, ?_, hlast⟩
            simp [Pending.absorbAll, habs, hinit]
      · -- the frame completed a message, and the parse ends at it
        refine ⟨[fr], frs, rfl, ?_⟩
        simp only [List.map_cons, List.map_nil, Pending.absorbAll, habs, Option.map_some,
          Option.toList_some, List.append_nil, List.flatten_cons, List.flatten_nil]
        refine ⟨hparse, hon p, Or.inr ⟨[], fr, cmd, r.pending, rfl, rfl, rfl, habs⟩⟩

/-- Every chunk will fit: what a drain leaves is less than a frame, or all that
comes fits at once. -/
def Roomy (r : Receiver) (frs chunks : List (List Byte)) : Prop :=
  (∀ fr ∈ frs, ∀ c ∈ chunks, fr.length + c.length ≤ fifoMaxLen + 1) ∨
    r.buf.length + chunks.flatten.length ≤ fifoMaxLen

/-- **A connection that never runs out of room** drops no chunk and absorbs
every frame, wherever the chunks are cut. -/
theorem serve_stream {r : Receiver} {frs chunks : List (List Byte)} {p : Pending}
    {cmds : List SocketCmd} (hon : r.OnStream frs chunks.flatten) (hroomy : r.Roomy frs chunks)
    (hstarved : r.Starved frs) (habs : r.pending.absorbAll (frs.map parseInfo) = some (p, cmds)) :
    ∃ r', r.serve chunks = some ⟨r', cmds, true⟩ ∧ r'.buf = [] ∧ r'.pending = p := by
  -- on the chunks; the frames still to come shrink as the drains take them
  induction chunks generalizing r frs cmds with
  | nil =>
    cases frs with
    | nil =>
      obtain ⟨rfl, rfl⟩ := Prod.mk.inj (Option.some.inj habs)
      have hbuf : r.buf = [] := by simpa using hon.bytes
      exact ⟨r, rfl, hbuf, rfl⟩
    | cons fr frs =>
      have hlt := hstarved fr (by simp)
      have hbytes := congrArg List.length hon.bytes
      simp at hbytes
      omega
  | cons c chunks ih =>
    -- what is left in the FIFO is less than a frame, so the next chunk fits
    have hroom : r.buf.length + c.length ≤ fifoMaxLen := by
      rcases hroomy with hroomy | hroomy
      · cases frs with
        | nil =>
          have hnil := congrArg List.length hon.bytes
          simp only [List.flatten_cons, List.length_append, List.flatten_nil,
            List.length_nil] at hnil
          omega
        | cons fr frs =>
          have hlt := hstarved fr (by simp)
          have hle := hroomy fr (by simp) c (by simp)
          omega
      · rw [List.flatten_cons, List.length_append] at hroomy
        omega
    obtain ⟨hbuf, hpending, hstored⟩ : (r.recv c).1.buf = r.buf ++ c ∧
        (r.recv c).1.pending = r.pending ∧ (r.recv c).2 = true := by
      rw [recv, dif_pos hroom]
      exact ⟨rfl, rfl, rfl⟩
    -- storing a chunk moves its bytes from the stream into the buffer
    have honc : (r.recv c).1.OnStream frs chunks.flatten :=
      ⟨hon.frames, by
        rw [hbuf, List.append_assoc, ← List.flatten_cons]
        exact hon.bytes⟩
    obtain ⟨done, rest, rfl, hdrain, hrest⟩ := drain_stream honc
    rw [List.map_append, Pending.absorbAll_append] at habs
    rw [hpending] at hdrain
    rcases hdone : r.pending.absorbAll (done.map parseInfo) with _ | ⟨q, out⟩ <;>
      rw [hdone] at habs hdrain
    · exact absurd habs (by simp)
    · obtain ⟨⟨p', out'⟩, hall, hout⟩ := Option.map_eq_some_iff.mp habs
      obtain ⟨rfl, rfl⟩ := Prod.mk.inj hout
      obtain ⟨hon', hstarved'⟩ := hrest q
      -- both forms of `Roomy` survive a drain: fewer frames, and fewer bytes in the buffer
      have hroomy' : ((r.recv c).1.advance done.flatten.length q).Roomy rest chunks := by
        refine hroomy.imp (fun h fr hfr d hd => h fr (by simp [hfr]) d (by simp [hd])) fun h => ?_
        rw [List.flatten_cons, List.length_append] at h
        rw [advance_buf, List.length_drop, hbuf, List.length_append]
        omega
      obtain ⟨r', hserve, hend⟩ := ih hon' hroomy' hstarved' hall
      refine ⟨r', ?_, hend⟩
      rw [serve, hdrain]
      dsimp only [Option.map_some]
      rw [hserve, hstored]
      rfl

/-! ### A stuck receiver -/

/-- The head of the buffer is not a frame and will never be one: it does not
start with `SYNC_HEAD`, or announces more than the FIFO holds. -/
def Stuck (r : Receiver) : Prop :=
  headLen + 4 ≤ r.buf.length ∧
    (getShort r.buf 0 ≠ syncHead ∨ fifoMaxLen < headLen + (getShort r.buf 14).toNat + 4)

/-- A stuck receiver sees no frame. -/
theorem Stuck.frameLen {r : Receiver} (h : r.Stuck) : frameLen r.buf = none := by
  have := r.room
  refine if_neg fun hc => ?_
  rcases h.2 with hsync | hlong
  · exact hsync hc.2.1
  · omega

/-- A stuck receiver stays stuck whatever comes in. -/
theorem Stuck.recv {r : Receiver} (h : r.Stuck) (c : List Byte) :
    (r.recv c).1.Stuck ∧ (r.recv c).1.pending = r.pending := by
  rw [Receiver.recv]
  split_ifs with hroom
  · obtain ⟨hlen, hhead⟩ := h
    have h16 : headLen = 16 := rfl
    refine ⟨⟨by simp only [List.length_append]; omega, ?_⟩, rfl⟩
    simp only
    rwa [getShort_append c (by omega), getShort_append c (by omega)]
  · exact ⟨h, rfl⟩

/-- **A stuck receiver stays stuck**: it delivers nothing, whatever arrives. -/
theorem Stuck.serve {r : Receiver} (h : r.Stuck) (chunks : List (List Byte)) :
    ∃ r' stored, r.serve chunks = some ⟨r', [], stored⟩ ∧ r'.Stuck ∧
      r'.pending = r.pending := by
  induction chunks generalizing r with
  | nil => exact ⟨r, true, rfl, h, rfl⟩
  | cons c chunks ih =>
    obtain ⟨hstuck, hpending⟩ := h.recv c
    obtain ⟨r', stored, hserve, hstuck', hpending'⟩ := ih hstuck
    refine ⟨r', (r.recv c).2 && stored, ?_, hstuck', hpending'.trans hpending⟩
    rw [Receiver.serve, drain_of_none hstuck.frameLen]
    simp [hserve]

end Receiver

/-! ## Streams of fragments -/

/-- The bytes of a stream are its frames in a row. -/
theorem streamBytes_eq_flatten (fs : List Frag) :
    streamBytes fs = (fs.map Frag.bytes).flatten := List.flatMap_def

/-- Parsing the frames of fragments that fit gives their records. -/
theorem map_parseInfo_bytes {fs : List Frag} (h : ∀ f ∈ fs, f.Fits) :
    (fs.map Frag.bytes).map parseInfo = fs.map Frag.info := by
  rw [List.map_map]
  exact List.map_congr_left fun f hf => Frag.parseInfo_bytes (h f hf)

/-- Every one of these is a frame. -/
theorem isFrame_of_mem_map {fs : List Frag} (h : ∀ f ∈ fs, f.Fits) :
    ∀ fr ∈ fs.map Frag.bytes, IsFrame fr := by
  intro fr hfr
  obtain ⟨f, hf, rfl⟩ := List.mem_map.mp hfr
  exact Frag.isFrame_bytes (h f hf)

/-! ## Messages -/

/-- A message: what the sender passes to `sendSocketCmd` part by part. -/
structure Msg where
  typeCmd : BitVec 32
  ipnum : BitVec 32
  parts : List (List Byte)
  nonempty : parts ≠ []
  count : parts.length ≤ 65536

namespace Msg

/-- One empty part makes a message. -/
theorem emptyPart_ne : ([[]] : List (List Byte)) ≠ [] := List.cons_ne_nil _ _

/-- An empty payload is one part. -/
theorem emptyPart_count : ([[]] : List (List Byte)).length ≤ 65536 := by decide

/-- The 16-bit command. -/
def cmd (m : Msg) : BitVec 16 := (m.typeCmd &&& 0xFFFF#32).setWidth 16

/-- The type, in the upper half of `typeCmd`. -/
def type (m : Msg) : BitVec 16 := (m.typeCmd >>> 16).setWidth 16

/-- The fragment `curNo = i`. -/
def frag (m : Msg) (i : Nat) (payload : List Byte) : Frag :=
  ⟨m.typeCmd, m.ipnum, BitVec.ofNat 16 i, BitVec.ofNat 16 (m.parts.length - 1), payload⟩

/-- The fragments, `curNo = 0 .. lastNo`. -/
def frags (m : Msg) : List Frag := m.parts.mapIdx m.frag

/-- What the receiver should deliver. -/
def delivery (m : Msg) : SocketCmd :=
  ⟨m.cmd, m.type, m.ipnum, BitVec.ofNat 32 m.parts.flatten.length, m.parts.flatten⟩

/-- Every part fits the length field of its frame. -/
def Fits (m : Msg) : Prop := ∀ part ∈ m.parts, part.length < 65536

instance (m : Msg) : Decidable m.Fits := inferInstanceAs (Decidable (∀ _ ∈ _, _))

/-- A message has a part. -/
theorem length_pos (m : Msg) : 0 < m.parts.length := List.length_pos_iff.mpr m.nonempty

@[simp] theorem frags_length (m : Msg) : m.frags.length = m.parts.length := by simp [frags]

/-- A fragment of a message by its number. -/
theorem frags_getElem? (m : Msg) (i : Nat) : m.frags[i]? = m.parts[i]?.map (m.frag i) := by
  simp [frags, List.getElem?_mapIdx]

/-- Each fragment of a message is numbered. -/
theorem mem_frags {m : Msg} {f : Frag} (h : f ∈ m.frags) :
    ∃ i part, m.parts[i]? = some part ∧ f = m.frag i part := by
  obtain ⟨i, hi⟩ := List.getElem?_of_mem h
  rw [frags_getElem?, Option.map_eq_some_iff] at hi
  obtain ⟨part, hpart, hf⟩ := hi
  exact ⟨i, part, hpart, hf.symm⟩

/-- They fit if the message does. -/
theorem fits_of_mem {m : Msg} (hm : m.Fits) {f : Frag} (h : f ∈ m.frags) : f.Fits := by
  obtain ⟨i, part, hpart, rfl⟩ := mem_frags h
  exact hm part (List.mem_of_getElem? hpart)

/-- The fragments of a message are all of its command. -/
theorem cmd_of_mem {m : Msg} {f : Frag} (h : f ∈ m.frags) : f.cmd = m.cmd := by
  obtain ⟨i, part, -, rfl⟩ := mem_frags h
  rfl

/-- The records of a message's fragments are all of its command. -/
theorem info_cmd_of_mem {m : Msg} {i : SocketCmdInfo} (h : i ∈ m.frags.map Frag.info) :
    i.cmd = m.cmd := by
  obtain ⟨f, hf, rfl⟩ := List.mem_map.mp h
  exact cmd_of_mem hf

/-- Number `i` is the last one exactly at the end of the parts. -/
theorem frag_curNo_eq_lastNo {m : Msg} {i : Nat} (hi : i < m.parts.length) (part : List Byte) :
    (m.frag i part).curNo = (m.frag i part).lastNo ↔ i + 1 = m.parts.length := by
  have := m.count
  constructor
  · intro h
    have h' := congrArg BitVec.toNat h
    simp only [frag, BitVec.toNat_ofNat] at h'
    -- at most 65536 parts, so both numbers fit their 16 bits
    rw [Nat.mod_eq_of_lt (by omega), Nat.mod_eq_of_lt (by omega)] at h'
    omega
  · intro h
    simp only [frag]
    congr 1
    omega

/-- `lastNo` is the number of the last part. -/
theorem frag_lastNo_toNat {m : Msg} (i : Nat) (part : List Byte) :
    (m.frag i part).info.lastNo.toNat + 1 = m.parts.length := by
  have := m.count
  have := m.length_pos
  simp only [frag, Frag.info, fillSocketCmd, BitVec.toNat_ofNat]
  rw [Nat.mod_eq_of_lt (by omega)]
  omega

/-- The payload of a fragment's record. -/
theorem payload_info {f : Frag} (h : f.Fits) : f.info.payload = f.payload := by
  rw [SocketCmdInfo.payload, Frag.length_toNat h]
  exact List.take_length

/-- The payloads of the fragments are the parts. -/
theorem flatMap_payload {m : Msg} (hm : m.Fits) :
    (m.frags.map Frag.info).flatMap SocketCmdInfo.payload = m.parts.flatten := by
  -- fragment by fragment
  have hpay : (m.frags.map Frag.info).map SocketCmdInfo.payload = m.parts := by
    rw [List.map_map]
    apply List.ext_getElem?
    intro i
    rw [List.getElem?_map, frags_getElem?, Option.map_map]
    cases hpart : m.parts[i]? with
    | none => rfl
    | some part =>
      have hfits : (m.frag i part).Fits := hm part (List.mem_of_getElem? hpart)
      simp only [Option.map_some, Function.comp_apply, payload_info hfits]
      rfl
  rw [List.flatMap_def, hpay]

end Msg

namespace Pending

/-- The fragments of `m` that have arrived are its first `j`. -/
def Holds (p : Pending) (m : Msg) (j : Nat) : Prop :=
  fragsOf m.cmd p.frags = (m.frags.take j).map Frag.info

/-- The next fragment of a message: it is kept, or it completes the message. -/
theorem absorb_frag {p : Pending} {m : Msg} {j : Nat} {f : Frag} (hsev : p.severed = false)
    (hm : m.Fits) (hheld : p.Holds m j) (hf : m.frags[j]? = some f) :
    (j + 1 < m.parts.length ∧ ∃ p', p.absorb f.info = some (p', none) ∧
      p'.frags = p.frags ++ [f.info] ∧ p'.severed = false) ∨
    (j + 1 = m.parts.length ∧ ∃ p', p.absorb f.info = some (p', some m.delivery) ∧
      p'.frags = kept m.cmd (p.frags ++ [f.info]) ∧
      p'.severed = cuts m.cmd (p.frags ++ [f.info])) := by
  have hmem : f ∈ m.frags := List.mem_of_getElem? hf
  have hj : j < m.parts.length := by
    rw [← m.frags_length]
    exact (List.getElem?_eq_some_iff.mp hf).1
  have hcmd : f.info.cmd = m.cmd := Msg.cmd_of_mem hmem
  have hfrags : fragsOf m.cmd (p.frags ++ [f.info]) = (m.frags.take (j + 1)).map Frag.info := by
    rw [List.take_add_one, hf, List.map_append, ← hheld, fragsOf, fragsOf, List.filter_append]
    simp [hcmd]
  -- the count test compares `j + 1` with the number of parts
  have hcomplete : complete m.cmd (p.frags ++ [f.info]) = decide (m.parts.length ≤ j + 1) := by
    obtain ⟨f₀, hf₀⟩ : ∃ f₀, m.frags[0]? = some f₀ :=
      ⟨_, List.getElem?_eq_getElem (by rw [m.frags_length]; exact m.length_pos)⟩
    obtain ⟨i, part, -, rfl⟩ := Msg.mem_frags (List.mem_of_getElem? hf₀)
    have htake : m.frags.take (j + 1) = m.frag i part :: (m.frags.drop 1).take j := by
      obtain ⟨g, gs, hgs⟩ : ∃ g gs, m.frags = g :: gs :=
        List.exists_cons_of_length_pos (by rw [m.frags_length]; exact m.length_pos)
      rw [hgs] at hf₀ ⊢
      rw [List.getElem?_cons_zero, Option.some.injEq] at hf₀
      simp [hf₀]
    rw [complete, hfrags, htake, List.map_cons]
    simp only [List.length_map, List.length_take, List.length_drop, m.frags_length,
      Msg.frag_lastNo_toNat]
    congr 1
    rw [eq_iff_iff]
    constructor <;> intro h <;> omega
  -- all parts are there, and every fragment carries the header fields of its message
  have hmessage : j + 1 = m.parts.length → message f.info (p.frags ++ [f.info]) = m.delivery := by
    intro hlast
    have hjoined : joined m.cmd (p.frags ++ [f.info]) = m.parts.flatten := by
      rw [joined, hfrags, hlast, ← m.frags_length, List.take_length, Msg.flatMap_payload hm]
    obtain ⟨i, part, -, rfl⟩ := Msg.mem_frags hmem
    rw [message, hcmd, hjoined]
    rfl
  rcases absorb_of_crcOk hsev (Frag.crcOk_info (Msg.fits_of_mem hm hmem)) with
    ⟨hc, hout⟩ | ⟨hc, p', habs, hout⟩ <;> rw [hcmd, hcomplete] at hc
  · exact Or.inl ⟨by rw [decide_eq_false_iff_not] at hc; omega, hout⟩
  · have hlast : j + 1 = m.parts.length := by
      rw [decide_eq_true_iff] at hc
      omega
    rw [hmessage hlast] at habs
    rw [hcmd] at hout
    exact Or.inr ⟨hlast, p', habs, hout⟩

end Pending

end PgClient.PackSocket
