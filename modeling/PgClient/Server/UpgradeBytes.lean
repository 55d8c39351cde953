import PgClient.Server.Upgrade

/-!
# The bytes of the upgrade packets

`box_upgrade` writes the packets byte by byte into `txt`, and `pwrUpgrade` fills a
`pwrUpgradeInfo_t` in `dataPkt`.

* `blockLoop_tiles` — the loop that both have, over what fills a packet.
* `boxPacket_frame`, `pwrPacket_frame` — the two ways of filling it.
* `upgrade_tiles` — they send the same blocks with the same headers.
* `packets_bytes` — the packets of `Upgrade` have these bytes.
-/

namespace PgClient.Server.UpgradeBytes

open PartialRun
open RingBuffer (slice)
open Upgrade (msgTypeBox msgTypePower)

/-! ## The code -/

/-- `memcpy` out of the image. -/
def imageBlock (image : List Byte) (off n : Nat) : Option (List Byte) :=
  if off + n ≤ image.length then some (slice image off n) else none

/-- A buffer on the stack. -/
abbrev Buffer := List (Option Byte)

/-- `txt[num++] = x`. -/
def putTxt (x : Byte) (s : Buffer × Nat) : Option (Buffer × Nat) :=
  (Block.store s.1 s.2 [x]).map fun txt => (txt, s.2 + 1)

/-- The start message of `box_upgrade`, and `txt` after it. -/
def boxStart (txt : Buffer) : Option (Buffer × List Byte) := do
  let (txt, num) ← runAll putTxt [0x72, msgTypeBox, 0x4, 0x0, 0x0, 0x0, 0x0, 0x0] (txt, 0)
  let msg ← Block.load txt 0 num
  some (txt, msg)

/-- A data message of `box_upgrade`. -/
def boxPacket (image : List Byte) (fileSize : BitVec 32) (txt : Buffer) (offset : BitVec 32)
    (buf : Nat) (datalen : BitVec 32) : Option (Buffer × List Byte) := do
  let packdatalen := (4 + 4 + 4 + datalen).setWidth 16
  let (txt, num) ← runAll putTxt ([0x73, msgTypeBox] ++ le16Bytes packdatalen ++
    le32Bytes offset ++ le32Bytes datalen ++ le32Bytes fileSize) (txt, 0)
  let block ← imageBlock image buf datalen.toNat
  let txt ← Block.store txt num block
  let msg ← Block.load txt 0 (num + datalen.toNat)
  some (txt, msg)

/-- `PWR_UPGRADE_INFO_HEAD_LEN`. -/
def pwrUpgradeInfoHeadLen : Nat := 16

/-- `sizeof(pwrUpgradeInfo_t)`: its last field is a pointer. -/
def sizeofPwrUpgradeInfo : BitVec 32 := 20

/-- A data message of `pwrUpgrade`: the fields of the structure at their offsets. -/
def pwrPacket (image : List Byte) (length : BitVec 32) (offset : BitVec 32) (pBuf : Nat)
    (dataLen : BitVec 32) : Option (List Byte) := do
  let len := (sizeofPwrUpgradeInfo - 8 + dataLen).setWidth 16
  let block ← imageBlock image pBuf dataLen.toNat
  let dataPkt ← runAll (fun f b => Block.store b f.1 f.2)
    [(0, [0x73]), (1, [msgTypePower]), (2, le16Bytes len), (4, le32Bytes offset),
      (8, le32Bytes dataLen), (12, le32Bytes length), (16, block)]
    (List.replicate (1024 + pwrUpgradeInfoHeadLen) (some 0))
  Block.load dataPkt 0 (pwrUpgradeInfoHeadLen + dataLen.toNat)

/-- The loop of both; what fills the packets may keep a buffer. -/
def blockLoop {σ : Type} (packet : σ → BitVec 32 → Nat → BitVec 32 → Option (σ × List Byte))
    (s : σ) (offset : BitVec 32) (buf : Nat) (len : BitVec 32) : Option (List (List Byte)) :=
  if len = 0 then some []
  else do
    let datalen := if 1024 ≤ len then 1024 else len
    let (s, msg) ← packet s offset buf datalen
    let rest ← blockLoop packet s (offset + datalen) (buf + datalen.toNat) (len - datalen)
    some (msg :: rest)
termination_by len.toNat
decreasing_by
  have := BitVec.toNat_ne.mp ‹¬len = 0›
  have hle : (1024 : BitVec 32) ≤ len ↔ 1024 ≤ len.toNat := BitVec.le_def
  split_ifs <;> bv_omega

/-- `box_upgrade`, with what is on the stack at `txt`. -/
def boxUpgrade (txt : Buffer) (image : List Byte) (fileSize : BitVec 32) :
    Option (List (List Byte)) := do
  let (txt, msg) ← boxStart txt
  let msgs ← blockLoop (boxPacket image fileSize) txt 0 0 fileSize
  some (msg :: msgs)

/-- `pwrUpgrade`. -/
def pwrUpgrade (image : List Byte) (length : BitVec 32) : Option (List (List Byte)) :=
  if length.toInt ≤ 0 then some []
  else do
    let reqHead := [0x72, msgTypePower, 0x4, 0, 0, 0, 0, 0]
    let msgs ← blockLoop (fun () offset pBuf dataLen =>
      (pwrPacket image length offset pBuf dataLen).map ((), ·)) () 0 0 length
    some (reqHead :: msgs)

/-! ## What is to be sent -/

/-- The image in blocks of 1024 bytes, and one of the rest. -/
def tiles (image : List Byte) : List (List Byte) :=
  if image = [] then [] else image.take 1024 :: tiles (image.drop 1024)
termination_by image.length
decreasing_by
  have := List.length_pos_iff.mpr ‹image ≠ []›
  rw [List.length_drop]
  omega

/-- The message of a block. -/
def frame (type : Byte) (total offset : Nat) (block : List Byte) : List Byte :=
  [0x73, type] ++ le16Bytes (BitVec.ofNat 16 (block.length + 12)) ++
    le32Bytes (BitVec.ofNat 32 offset) ++ le32Bytes (BitVec.ofNat 32 block.length) ++
    le32Bytes (BitVec.ofNat 32 total) ++ block

/-- The messages of blocks that follow one another, from an offset on. -/
def frames (type : Byte) (total : Nat) : Nat → List (List Byte) → List (List Byte)
  | _, [] => []
  | offset, block :: blocks =>
    frame type total offset block :: frames type total (offset + block.length) blocks

/-- The message that starts the upgrade. -/
def startMsg (type : Byte) : List Byte := [0x72, type, 0x4, 0, 0, 0, 0, 0]

theorem tiles_nil : tiles [] = [] := by
  rw [tiles, if_pos rfl]

/-- A first block of 1024 bytes, and the rest. -/
theorem tiles_cons {image : List Byte} (hne : image ≠ []) :
    tiles image = image.take 1024 :: tiles (image.drop 1024) := by
  rw [tiles, if_neg hne]

/-- The blocks are the image. -/
theorem tiles_flatten (image : List Byte) : (tiles image).flatten = image := by
  induction image using tiles.induct with
  | case1 => rw [tiles_nil, List.flatten_nil]
  | case2 image hne ih => rw [tiles_cons hne, List.flatten_cons, ih, List.take_append_drop]

/-- No block is empty, and none is longer. -/
theorem length_of_mem_tiles {image block : List Byte} (hblock : block ∈ tiles image) :
    0 < block.length ∧ block.length ≤ 1024 := by
  induction image using tiles.induct with
  | case1 => simp [tiles_nil] at hblock
  | case2 image hne ih =>
    rw [tiles_cons hne] at hblock
    rcases List.mem_cons.mp hblock with rfl | hrest
    · have := List.length_pos_iff.mpr hne
      rw [List.length_take]
      omega
    · exact ih hrest

/-- The block at an offset, and those behind it. -/
theorem tiles_drop {image : List Byte} {buf len : Nat} (hpos : 0 < len)
    (hbuf : buf + len = image.length) :
    tiles (image.drop buf) =
        slice image buf (min 1024 len) :: tiles (image.drop (buf + min 1024 len)) ∧
      (slice image buf (min 1024 len)).length = min 1024 len := by
  have hleft : (image.drop buf).length = len := by
    rw [List.length_drop]
    omega
  have hdrop : image.drop buf ≠ [] := List.length_pos_iff.mp (by omega)
  refine ⟨?_, by rw [slice, List.length_take, hleft]; omega⟩
  rw [tiles_cons hdrop, slice, ← List.drop_drop]
  rcases Nat.lt_or_ge len 1024 with hless | hge
  · -- the last block, with nothing behind it
    have hshort : (image.drop buf).length ≤ 1024 := by omega
    rw [Nat.min_eq_right hless.le, List.take_of_length_le hleft.le, List.take_of_length_le hshort,
      List.drop_of_length_le hleft.le, List.drop_of_length_le hshort]
  · rw [Nat.min_eq_left hge]

/-! ## The loop -/

section Loop

variable {σ : Type} {packet : σ → BitVec 32 → Nat → BitVec 32 → Option (σ × List Byte)}
  {Inv : σ → Prop} {image : List Byte} {type : Byte}

/-- What fills a packet with a block of the image. -/
def Fills (packet : σ → BitVec 32 → Nat → BitVec 32 → Option (σ × List Byte)) (Inv : σ → Prop)
    (type : Byte) (image : List Byte) : Prop :=
  ∀ s buf n, Inv s → n ≤ 1024 → buf + n ≤ image.length → ∃ s',
    packet s (BitVec.ofNat 32 buf) buf (BitVec.ofNat 32 n) =
        some (s', frame type image.length buf (slice image buf n)) ∧ Inv s'

/-- The number of bytes in the next block. -/
theorem blockLoop_datalen {len : Nat} (hlen : len < 2 ^ 32) :
    (if (1024 : BitVec 32) ≤ BitVec.ofNat 32 len then 1024 else BitVec.ofNat 32 len) =
      BitVec.ofNat 32 (min 1024 len) := by
  have hle : (1024 : BitVec 32) ≤ BitVec.ofNat 32 len ↔ 1024 ≤ len := by
    rw [BitVec.le_def, toNat_ofNat_of_lt hlen]
    rfl
  rcases Nat.lt_or_ge len 1024 with hless | hge
  · rw [if_neg (mt hle.mp (by omega)), Nat.min_eq_right hless.le]
  · rw [if_pos (hle.mpr hge), Nat.min_eq_left hge]
    rfl

/-- **The loop sends the blocks of the image that are left.** -/
theorem blockLoop_tiles (hfills : Fills packet Inv type image) (himage : image.length < 2 ^ 32)
    {len : Nat} : ∀ {s : σ} {buf : Nat}, Inv s → buf + len = image.length →
      blockLoop packet s (BitVec.ofNat 32 buf) buf (BitVec.ofNat 32 len) =
        some (frames type image.length buf (tiles (image.drop buf))) := by
  induction len using Nat.strongRecOn with
  | ind len ih =>
    intro s buf hs hbuf
    have htoNat : (BitVec.ofNat 32 len).toNat = len := toNat_ofNat_of_lt (by omega)
    rw [blockLoop]
    by_cases hzero : len = 0
    · subst hzero
      rw [List.drop_of_length_le (by omega), tiles_nil]
      exact if_pos rfl
    · have hne : BitVec.ofNat 32 len ≠ 0 := fun h => hzero (htoNat ▸ congrArg BitVec.toNat h)
      -- a block, and the turns after it
      obtain ⟨n, hn⟩ : ∃ n, n = min 1024 len := ⟨_, rfl⟩
      obtain ⟨s', hpacket, hs'⟩ := hfills s buf n hs (by omega) (by omega)
      have hrest := @ih (len - n) (by omega) s' (buf + n) hs' (by omega)
      obtain ⟨htiles, hlength⟩ := tiles_drop (by omega) hbuf
      rw [← hn] at htiles hlength
      -- neither counter wraps
      have hsub : BitVec.ofNat 32 len - BitVec.ofNat 32 n = BitVec.ofNat 32 (len - n) := by
        apply BitVec.eq_of_toNat_eq
        rw [BitVec.toNat_sub_of_le] <;> simp only [BitVec.le_def, BitVec.toNat_ofNat] <;> omega
      rw [if_neg hne, blockLoop_datalen (by omega), ← hn]
      dsimp only
      rw [hpacket]
      simp only [Option.bind_eq_bind, Option.bind_some]
      rw [← BitVec.ofNat_add, toNat_ofNat_of_lt (show n < 2 ^ 32 by omega), hsub, hrest,
        Option.bind_some, htiles, frames, hlength]

end Loop

/-! ## The packets -/

/-- Bytes put one behind the other. -/
theorem putTxt_starts {bytes : List Byte} : ∀ {txt : Buffer} {data : List Byte},
    Block.Starts txt data → data.length + bytes.length ≤ txt.length →
    ∃ txt', runAll putTxt bytes (txt, data.length) = some (txt', (data ++ bytes).length) ∧
      Block.Starts txt' (data ++ bytes) ∧ txt'.length = txt.length := by
  induction bytes with
  | nil =>
    intro txt data h _
    rw [List.append_nil]
    exact ⟨txt, rfl, h, rfl⟩
  | cons x bytes ih =>
    intro txt data h hroom
    rw [List.length_cons] at hroom
    obtain ⟨txt₁, hstore, hstarts, hlen⟩ :=
      Block.store_starts h (show data.length + [x].length ≤ txt.length by simp; omega)
    obtain ⟨txt', hrun, hstarts', hlen'⟩ := ih hstarts (by rw [List.length_append, hlen]; simp; omega)
    rw [List.append_assoc, List.singleton_append] at hrun hstarts'
    refine ⟨txt', ?_, hstarts', hlen'.trans hlen⟩
    -- the first byte is stored where the data ends, and `num` moves on by one
    rw [runAll, putTxt, hstore, ← hrun, List.length_append]
    rfl

/-- The length of a packet in its header. -/
theorem packetLen_eq (n : Nat) :
    (12 + BitVec.ofNat 32 n).setWidth 16 = BitVec.ofNat 16 (n + 12) := by
  have htwelve : (12 : BitVec 32).toNat = 12 := rfl
  apply BitVec.eq_of_toNat_eq
  simp only [BitVec.toNat_setWidth, BitVec.toNat_add, BitVec.toNat_ofNat, htwelve]
  omega

/-- The header of a block. -/
def header (type : Byte) (total offset n : Nat) : List Byte :=
  [0x73, type] ++ le16Bytes (BitVec.ofNat 16 (n + 12)) ++ le32Bytes (BitVec.ofNat 32 offset) ++
    le32Bytes (BitVec.ofNat 32 n) ++ le32Bytes (BitVec.ofNat 32 total)

theorem frame_eq (type : Byte) (total offset : Nat) (block : List Byte) :
    frame type total offset block = header type total offset block.length ++ block := rfl

/-- A block inside the image is read from it. -/
theorem imageBlock_eq {image : List Byte} {buf n : Nat} (hbuf : buf + n ≤ image.length) :
    imageBlock image buf n = some (slice image buf n) ∧ (slice image buf n).length = n := by
  refine ⟨if_pos hbuf, ?_⟩
  rw [slice, List.length_take, List.length_drop]
  omega

/-- The start message, whatever is on the stack. -/
theorem boxStart_eq {txt : Buffer} (htxt : txt.length = 1500) :
    ∃ txt', boxStart txt = some (txt', startMsg msgTypeBox) ∧ txt'.length = 1500 := by
  obtain ⟨txt', hrun, hstarts, hlen⟩ :=
    @putTxt_starts (startMsg msgTypeBox) txt [] (Block.starts_nil txt) (by rw [htxt]; decide)
  have hload := Block.load_starts hstarts
  exact ⟨txt', Option.bind_eq_some_iff.mpr ⟨_, hrun, Option.bind_eq_some_iff.mpr ⟨_, hload, rfl⟩⟩,
    hlen.trans htxt⟩

/-- The bytes that `box_upgrade` puts are the message, and 1500 are enough. -/
theorem boxPacket_frame {image : List Byte} :
    Fills (boxPacket image (BitVec.ofNat 32 image.length)) (fun txt => txt.length = 1500)
      msgTypeBox image := by
  intro txt buf n htxt hn hbuf
  obtain ⟨hblock, hlength⟩ := imageBlock_eq hbuf
  have htoNat : (BitVec.ofNat 32 n).toNat = n := toNat_ofNat_of_lt (by omega)
  have hpack : (4 + 4 + 4 + BitVec.ofNat 32 n).setWidth 16 = BitVec.ofNat 16 (n + 12) :=
    packetLen_eq n
  have hhead : (header msgTypeBox image.length buf n).length = 16 := rfl
  obtain ⟨txt₁, hrun, hstarts, hlen⟩ :=
    @putTxt_starts (header msgTypeBox image.length buf n) txt [] (Block.starts_nil txt)
      (by rw [htxt, hhead]; decide)
  rw [List.nil_append] at hrun hstarts
  -- 16 bytes of header and at most 1024 of the block
  obtain ⟨txt₂, hstore, hstarts', hlen'⟩ :=
    Block.store_starts hstarts (d := slice image buf n) (by rw [hhead, hlen, htxt]; omega)
  have hload := Block.load_starts hstarts'
  rw [List.length_append, hlength] at hload
  refine ⟨txt₂, ?_, (hlen'.trans hlen).trans htxt⟩
  rw [frame_eq, hlength]
  simp only [boxPacket, hpack, htoNat, hblock]
  exact Option.bind_eq_some_iff.mpr ⟨_, hrun, Option.bind_eq_some_iff.mpr ⟨_, rfl,
    Option.bind_eq_some_iff.mpr ⟨_, hstore, Option.bind_eq_some_iff.mpr ⟨_, hload, rfl⟩⟩⟩⟩

/-- The fields that `pwrUpgrade` fills are the message, and 1024 and the head are enough. -/
theorem pwrPacket_frame {image : List Byte} :
    Fills (fun () offset pBuf dataLen =>
      (pwrPacket image (BitVec.ofNat 32 image.length) offset pBuf dataLen).map ((), ·))
      (fun _ => True) msgTypePower image := by
  intro s buf n _ hn hbuf
  obtain ⟨hblock, hlength⟩ := imageBlock_eq hbuf
  have htoNat : (BitVec.ofNat 32 n).toNat = n := toNat_ofNat_of_lt (by omega)
  have hpack : (sizeofPwrUpgradeInfo - 8 + BitVec.ofNat 32 n).setWidth 16 =
      BitVec.ofNat 16 (n + 12) := packetLen_eq n
  -- the fields lie one behind the other, without padding
  obtain ⟨dataPkt, hrun, hstarts, -⟩ := @Block.store_layout _ (List.replicate 1040 (some (0 : Byte))) []
    [[0x73], [msgTypePower], le16Bytes (BitVec.ofNat 16 (n + 12)), le32Bytes (BitVec.ofNat 32 buf),
      le32Bytes (BitVec.ofNat 32 n), le32Bytes (BitVec.ofNat 32 image.length), slice image buf n]
    (Block.starts_nil _) (by
      rw [List.length_replicate]
      simp [le16Bytes, le32Bytes, hlength]
      omega)
  have hbytes : ([[0x73], [msgTypePower], le16Bytes (BitVec.ofNat 16 (n + 12)),
      le32Bytes (BitVec.ofNat 32 buf), le32Bytes (BitVec.ofNat 32 n),
      le32Bytes (BitVec.ofNat 32 image.length), slice image buf n] : List (List Byte)).flatten =
        header msgTypePower image.length buf n ++ slice image buf n := by
    simp only [header, List.flatten_cons, List.flatten_nil, List.append_nil, List.append_assoc]
    rfl
  rw [List.nil_append, hbytes] at hstarts
  have hload := Block.load_starts hstarts
  rw [List.length_append, hlength] at hload
  refine ⟨(), ?_, trivial⟩
  rw [frame_eq, hlength]
  simp only [pwrPacket, hpack, htoNat, hblock]
  refine Option.map_eq_some_iff.mpr ⟨_, Option.bind_eq_some_iff.mpr ⟨_, rfl,
    Option.bind_eq_some_iff.mpr ⟨_, hrun, hload⟩⟩, rfl⟩

/-! ## The upgrades -/

/-- **Both upgrades send the same blocks of the image**, with the same headers but for the
type of the device, and stay inside their buffers. -/
theorem upgrade_tiles {image : List Byte} {txt : Buffer} (hpos : 0 < image.length)
    (hlen : image.length < 2 ^ 32) (htxt : txt.length = 1500) :
    (tiles image).flatten = image ∧
      (∀ block ∈ tiles image, 0 < block.length ∧ block.length ≤ 1024) ∧
      boxUpgrade txt image (BitVec.ofNat 32 image.length) =
        some (startMsg msgTypeBox :: frames msgTypeBox image.length 0 (tiles image)) ∧
      (image.length < 2 ^ 31 → pwrUpgrade image (BitVec.ofNat 32 image.length) =
        some (startMsg msgTypePower :: frames msgTypePower image.length 0 (tiles image))) := by
  refine ⟨tiles_flatten image, fun block => length_of_mem_tiles, ?_, fun hint => ?_⟩
  · obtain ⟨txt', hstart, htxt'⟩ := boxStart_eq htxt
    have hloop := blockLoop_tiles boxPacket_frame hlen htxt' (Nat.zero_add image.length)
    exact Option.bind_eq_some_iff.mpr ⟨_, hstart, Option.bind_eq_some_iff.mpr ⟨_, hloop, rfl⟩⟩
  · have hloop := blockLoop_tiles (s := ()) pwrPacket_frame hlen trivial (Nat.zero_add image.length)
    -- the length is positive as an `int`, too
    have hsigned := toInt_ofNat_of_lt hint
    rw [pwrUpgrade, if_neg (by omega)]
    exact Option.bind_eq_some_iff.mpr ⟨_, hloop, rfl⟩

/-- An image of one whole block and a part of another. -/
theorem upgrade_tiles_two :
    let image : List Byte := List.replicate 1024 0x41 ++ [0x42, 0x43]
    tiles image = [List.replicate 1024 0x41, [0x42, 0x43]] ∧
      boxUpgrade (List.replicate 1500 none) image 1026 = some [startMsg msgTypeBox,
        frame msgTypeBox 1026 0 (List.replicate 1024 0x41), frame msgTypeBox 1026 1024 [0x42, 0x43]] ∧
      pwrUpgrade image 1026 = some [startMsg msgTypePower,
        frame msgTypePower 1026 0 (List.replicate 1024 0x41),
        frame msgTypePower 1026 1024 [0x42, 0x43]] := by
  intro image
  have hlength : image.length = 1026 := by rw [List.length_append, List.length_replicate]; rfl
  have hblock : (List.replicate 1024 (0x41 : Byte)).length = 1024 := List.length_replicate
  -- 1024 bytes, and the two that are left
  have htiles : tiles image = [List.replicate 1024 0x41, [0x42, 0x43]] := by
    rw [tiles_cons (List.append_ne_nil_of_right_ne_nil _ (List.cons_ne_nil _ _)),
      List.take_left' hblock, List.drop_left' hblock, tiles_cons (List.cons_ne_nil _ _),
      List.drop_of_length_le (by decide), List.take_of_length_le (by decide), tiles_nil]
  obtain ⟨-, -, hbox, hpwr⟩ := @upgrade_tiles image (List.replicate 1500 none) (by omega)
    (by omega) List.length_replicate
  have hpwr := hpwr (by omega)
  rw [hlength, htiles, frames, frames, frames, Nat.zero_add, hblock] at hbox hpwr
  exact ⟨htiles, hbox, hpwr⟩

/-! ## The packets of the server -/

/-- A packet on the line. -/
def packetBytes (p : Upgrade.Packet) : List Byte :=
  [p.dataType, p.devType] ++ le16Bytes (BitVec.ofNat 16 p.len) ++
    le32Bytes (BitVec.ofNat 32 p.offset) ++ le32Bytes (BitVec.ofNat 32 p.blockSize) ++
    le32Bytes (BitVec.ofNat 32 p.totalSize) ++ p.payLoad

/-- **The packets that are made of a whole image have the bytes of its blocks.** -/
theorem packets_bytes {b : List (Option Byte)} {image : List Byte} (h : Block.Filled b image)
    (devType : Byte) : ∀ fuel offset len, len ≤ fuel → offset + len = image.length →
    (Upgrade.packets devType image.length b fuel offset len).map (List.map packetBytes) =
      some (frames devType image.length offset (tiles (image.drop offset))) := by
  intro fuel
  induction fuel with
  | zero =>
    intro offset len hfuel hoffset
    rw [List.drop_of_length_le (by omega), tiles_nil]
    rfl
  | succ fuel ih =>
    intro offset len hfuel hoffset
    rw [Upgrade.packets]
    by_cases hzero : len = 0
    · rw [if_pos hzero, List.drop_of_length_le (by omega), tiles_nil]
      rfl
    · obtain ⟨htiles, hlength⟩ := tiles_drop (Nat.pos_of_ne_zero hzero) hoffset
      -- one packet, and the packets of the bytes behind it
      have hdataLen : (if 1024 ≤ len then 1024 else len) = min 1024 len := by
        split_ifs <;> omega
      have hrest := ih (offset + min 1024 len) (len - min 1024 len) (by omega) (by omega)
      obtain ⟨ps, hps, hbytes⟩ := Option.map_eq_some_iff.mp hrest
      rw [if_neg hzero]
      simp only [hdataLen, Block.load_filled h (show offset + min 1024 len ≤ image.length by omega),
        hps, Option.bind_eq_bind, Option.bind_some, Option.map_some, List.map_cons, hbytes]
      rw [htiles, frames, hlength, frame, hlength, Nat.add_comm (min 1024 len) 12]
      rfl

end PgClient.Server.UpgradeBytes
