import PgClient.Lib.PartialRun
import PgClient.Lib.RingBuffer
import PgClient.Util.LittleEndian

/-!
# The bitmap parser

`parseBmp` of `bitmap.c` turns a BMP file into the picture memory of the generator: a
header of 64 bytes, and four bytes for every pixel of rows that are padded to 16 pixels.

* `bmpRows_writes`, `bmpRows_bounds` — what the loops over the pixels write, and what they
  need for it.
* `bmpRows_frame` — that they write nothing else.
* `saveBmpToPtn_isSome_iff` — which pictures can be saved as a pattern.
-/

namespace PgClient.Bitmap

open PartialRun
open RingBuffer (blit slice)

/-! ## The code -/

/-- An `int` that was computed; an overflow is undefined. -/
def cInt (x : Int) : Option Int := if -2 ^ 31 ≤ x ∧ x < 2 ^ 31 then some x else none

/-- `WIDTHBYTES`. -/
def widthBytes (bits : Int) : Option Int := do
  let bits ← cInt (bits + 31)
  some (bits.tdiv 32 * 4)

/-- What `parseBmp` uses of a `BITMAPINFOHEADER`. -/
structure BmpInfo where
  biWidth : Int
  biHeight : Int
  biBitCount : Nat

/-- The information header behind the 14 bytes of the file header. -/
def bmpInfo (file : List Byte) : BmpInfo where
  biWidth := (le32 (file.drop 18)).toInt
  biHeight := (le32 (file.drop 22)).toInt
  biBitCount := (le16 (file.drop 28)).toNat

/-- The sizes that `parseBmp` computes. -/
structure BmpSizes where
  width : Int
  lWidth : Int
  nData : Int
  size : Int

def bmpSizes (info : BmpInfo) : Option BmpSizes := do
  let rounded ← cInt (info.biWidth + 15)
  let width := rounded.tdiv 16 * 16
  let bits ← cInt (info.biWidth * info.biBitCount)
  let lWidth ← widthBytes bits
  let nData ← cInt (info.biHeight * lWidth)
  let pixels ← cInt (width * info.biHeight)
  let bytes ← cInt (pixels * 4)
  let size ← cInt (bytes + 64)
  some ⟨width, lWidth, nData, size⟩

/-- `fread` into a block of `n` zeroed bytes. -/
def freadZeroed (n : Nat) (file : List Byte) : List Byte :=
  file.take n ++ List.replicate (n - file.length) 0

/-- `pBmpRGBHead` before the pixels are written. -/
def bmpRgbHead (s : BmpSizes) (height : Int) : List Byte :=
  [0, 1, 2, 3, 4, 5, 6, 7] ++ List.replicate 16 0 ++ le16Bytes (BitVec.ofInt 16 height) ++
    le16Bytes (BitVec.ofInt 16 s.width) ++ List.replicate 4 0 ++ [32, 0] ++
    List.replicate 30 0 ++ List.replicate (s.size.toNat - 64) 0

/-- The bytes of pixel `index`, written; `none` behind the end of the memory. -/
def putPixel (pixel : Nat → Option (List Byte)) (j : Nat) (s : Nat × List Byte) :
    Option (Nat × List Byte) := do
  let (index, out) := s
  let rgb ← pixel j
  if 64 + 4 * index + rgb.length ≤ out.length then
    some (index + 1, blit out (64 + 4 * index) rgb)
  else none

/-- A turn of the outer loop: `count` turns of the inner one, and `skip` pixels left out. -/
def bmpRow (count : Option Int) (skip : Nat) (pixel : Nat → Nat → Option (List Byte)) (i : Nat)
    (s : Nat × List Byte) : Option (Nat × List Byte) := do
  let n ← count
  let (index, out) ← runAll (putPixel (pixel i)) (List.range n.toNat) s
  some (index + skip, out)

/-- The outer loop. -/
def bmpRows (height : Nat) (count : Option Int) (skip : Nat)
    (pixel : Nat → Nat → Option (List Byte)) (out : List Byte) : Option (List Byte) := do
  let (_, out) ← runAll (bmpRow count skip pixel) (List.range height) (0, out)
  some out

/-- What the 1-, 2- and 4-bit branches write; the last byte is the green one again. The
shifts are those of a `BYTE`. -/
def packedPixel (bits lWidth : Nat) (pRgb pColorData : List Byte) (i j : Nat) :
    Option (List Byte) := do
  let byte ← pColorData[i * lWidth + j / (8 / bits)]?
  let mixIndex := ((byte <<< (8 - bits - bits * (j % (8 / bits)))) >>> (8 - bits)).toNat
  let rgbRed ← pRgb[4 * mixIndex + 2]?
  let rgbGreen ← pRgb[4 * mixIndex + 1]?
  some [rgbRed, rgbGreen, rgbGreen]

/-- What the 8-bit branch writes. -/
def pixel8 (lWidth : Nat) (pRgb pColorData : List Byte) (i j : Nat) : Option (List Byte) := do
  let mixIndex ← pColorData[i * lWidth + j]?
  let rgbRed ← pRgb[4 * mixIndex.toNat + 2]?
  let rgbGreen ← pRgb[4 * mixIndex.toNat + 1]?
  let rgbBlue ← pRgb[4 * mixIndex.toNat]?
  some [rgbRed, rgbGreen, rgbBlue]

/-- What the 24-bit branch writes, in the order of the file. -/
def pixel24 (lWidth : Nat) (pColorData : List Byte) (i j : Nat) : Option (List Byte) := do
  let k := i * lWidth + j * 3
  let b0 ← pColorData[k]?
  let b1 ← pColorData[k + 1]?
  let b2 ← pColorData[k + 2]?
  some [b0, b1, b2]

/-- What the 32-bit branch writes, the other way round. -/
def pixel32 (lWidth : Nat) (pColorData : List Byte) (i j : Nat) : Option (List Byte) := do
  let k := i * lWidth + j * 4
  let b2 ← pColorData[k + 2]?
  let b1 ← pColorData[k + 1]?
  let b0 ← pColorData[k]?
  some [b2, b1, b0]

/-- The branches over the bit count. A width that is negative goes with a height that is,
and then no loop has a turn. -/
def bmpPixels (info : BmpInfo) (s : BmpSizes) (pRgb pColorData out : List Byte) :
    Option (List Byte) :=
  let height := info.biHeight.toNat
  let lWidth := s.lWidth.toNat
  let skip := (s.width - info.biWidth).toNat
  if info.biBitCount = 1 then
    bmpRows height (cInt (8 * s.width)) 0 (packedPixel 1 lWidth pRgb pColorData) out
  else if info.biBitCount = 2 then
    bmpRows height (cInt (4 * s.width)) 0 (packedPixel 2 lWidth pRgb pColorData) out
  else if info.biBitCount = 4 then
    bmpRows height (cInt (2 * s.width)) 0 (packedPixel 4 lWidth pRgb pColorData) out
  else if info.biBitCount = 8 then
    bmpRows height (some s.width) 0 (pixel8 lWidth pRgb pColorData) out
  else if info.biBitCount ≤ 16 then some out
  -- the pixels that the 24-bit branch prints are inside the memory
  else if info.biBitCount = 24 then
    bmpRows height (some info.biWidth) skip (pixel24 lWidth pColorData) out
  else bmpRows height (some info.biWidth) skip (pixel32 lWidth pColorData) out

/-- `parseBmp` of the contents of a file, `none` if it cannot be opened: what it returns,
and `*ppRGBData`. -/
def parseBmp : Option (List Byte) → Option (Int × List Byte)
  | none => some (-2, [])
  | some file =>
    -- what `fread` does not reach of the headers is not initialised
    if file.length < 2 then none
    else if le16 file ≠ 0x4d42 then some (-1, [])
    else if file.length < 54 then none
    else do
      let info := bmpInfo file
      let nPlantNum := if info.biBitCount < 16 then 2 ^ info.biBitCount else 0
      let pRgb := freadZeroed (4 * nPlantNum) (file.drop 54)
      let s ← bmpSizes info
      -- six bytes of `pColorData` are printed, and the header is written; the size of the
      -- memory is a multiple of 64
      if s.nData < 6 ∨ s.size < 64 then none
      else do
        let pColorData := freadZeroed s.nData.toNat (file.drop (54 + 4 * nPlantNum))
        let out ← bmpPixels info s pRgb pColorData (bmpRgbHead s info.biHeight)
        some (0, out)

/-! ## The pattern file -/

/-- What is behind the first `pat` of a path: `strstr`, and the jump over it. -/
def behindFirst (pat : List Char) : List Char → Option (List Char)
  | [] => none
  | c :: cs =>
    if pat.isPrefixOf (c :: cs) then some ((c :: cs).drop pat.length) else behindFirst pat cs

/-- What is before and behind the last slash. -/
def splitLast : List Char → Option (List Char × List Char)
  | [] => none
  | c :: cs =>
    match splitLast cs with
    | some (dir, base) => some (c :: dir, base)
    | none => if c = '/' then some ([], cs) else none

/-- `ptnDir`: `PTN_FILE_PATH`, a slash and `tmpDir`. -/
def ptnDir (tmpDir : List Char) : String := "cfg/ptn//" ++ String.ofList tmpDir

/-- `ptnFullName`. -/
def ptnFullName (tmpDir base : List Char) : String := ptnDir tmpDir ++ "/" ++ String.ofList base

/-- `saveBmpToPtn` of a path and the contents of the file: what is written where, if it is. -/
def saveBmpToPtn (pBmpFullName : String) (file : List Byte) :
    Option (Option (String × List Byte)) :=
  match behindFirst "imageOrigin".toList pBmpFullName.toList with
  | none => some none
  | some pStr => do
    -- with no slash behind `pStr` the length of the `memcpy` is negative
    let (tmpDir, base) ← splitLast pStr
    if (String.ofList tmpDir).utf8ByteSize < 64 then
      let (ret, pRgbBuffer) ← parseBmp (some file)
      if ret = 0 then
        if (String.ofList base).utf8ByteSize < 64 ∧ (ptnFullName tmpDir base).utf8ByteSize < 128 then
          some (some (ptnFullName tmpDir base, pRgbBuffer))
        else none
      else some none
    else none

/-- What `saveBmpToPtn` copies fits its arrays: a slash comes behind `imageOrigin`, as the
length of the directory is counted from there, and the file is one that can be parsed. -/
def PtnFits (pBmpFullName : String) (file : List Byte) : Prop :=
  ∀ pStr, behindFirst "imageOrigin".toList pBmpFullName.toList = some pStr →
    ∃ tmpDir base ret rgb, splitLast pStr = some (tmpDir, base) ∧
      (String.ofList tmpDir).utf8ByteSize < 64 ∧ parseBmp (some file) = some (ret, rgb) ∧
      (ret = 0 → (String.ofList base).utf8ByteSize < 64 ∧
        (ptnFullName tmpDir base).utf8ByteSize < 128)

section Rows

variable {h n skip : Nat} {pixel : Nat → Nat → Option (List Byte)} {f : Nat → Nat → List Byte}
  {out : List Byte}

/-- The bytes of the pixel `x`. -/
def cell (out : List Byte) (x : Nat) : List Byte := slice out (64 + 4 * x) 3

/-- The pixels before `t` are written, those of the first `n` of `m` columns. -/
structure Written (m n : Nat) (f : Nat → Nat → List Byte) (len t : Nat) (s : Nat × List Byte) :
    Prop where
  index : s.1 = t
  length : s.2.length = len
  cells : ∀ x < t, x % m < n → cell s.2 x = f (x / m) (x % m)

theorem row_div_mod {m i j : Nat} (hj : j < m) : (i * m + j) / m = i ∧ (i * m + j) % m = j := by
  rw [Nat.mul_comm, Nat.mul_add_div (by omega), Nat.mul_add_mod, Nat.div_eq_of_lt hj,
    Nat.mod_eq_of_lt hj]
  exact ⟨rfl, rfl⟩

/-- A column of a row is in front of the end of the rows. -/
theorem row_lt {i h x m : Nat} (hi : i < h) (hx : x < m) : i * m + x < h * m := by
  have hmul := Nat.mul_le_mul_right m (show i + 1 ≤ h from hi)
  rw [Nat.succ_mul] at hmul
  omega

/-- The last row ends where the rows end. -/
theorem last_row {h m : Nat} (hh : 0 < h) : (h - 1) * m + m = h * m := by
  rw [← Nat.succ_mul, Nat.succ_eq_add_one, Nat.sub_add_cancel hh]

theorem putPixel_writes {m len i j : Nat} (hpixel : pixel i j = some (f i j))
    (hthree : (f i j).length = 3) (hj : j < m) (hroom : 64 + 4 * (i * m + j + 1) ≤ len)
    {s : Nat × List Byte} (hs : Written m n f len (i * m + j) s) :
    ∃ s', putPixel (pixel i) j s = some s' ∧ Written m n f len (i * m + j + 1) s' := by
  obtain ⟨index, out⟩ := s
  obtain ⟨hindex, hlen, hcells⟩ := hs
  obtain rfl : index = i * m + j := hindex
  dsimp only at hlen hcells
  obtain ⟨hdiv, hmod⟩ := @row_div_mod m i j hj
  refine ⟨(i * m + j + 1, blit out (64 + 4 * (i * m + j)) (f i j)), ?_, rfl, ?_, ?_⟩
  · simp only [putPixel, hpixel, Option.bind_eq_bind, Option.bind_some]
    rw [if_pos (by omega)]
  · show (blit out _ _).length = len
    rw [RingBuffer.blit_length (by omega), hlen]
  · intro x hx hxn
    show cell (blit out _ _) x = _
    -- the pixels before this one stay
    rcases Nat.lt_or_ge x (i * m + j) with hold | hnew
    · rw [cell, RingBuffer.slice_blit_of_disjoint (by omega) (by omega)]
      exact hcells x hold hxn
    · obtain rfl : x = i * m + j := by omega
      rw [hdiv, hmod, cell, ← hthree, RingBuffer.slice_blit (by omega)]

/-- A row, and the columns that are left out behind it. -/
theorem bmpRow_writes {len i : Nat}
    (hpixel : ∀ j < n, pixel i j = some (f i j) ∧ (f i j).length = 3)
    (hroom : 64 + 4 * ((i + 1) * (n + skip)) ≤ len) {s : Nat × List Byte}
    (hs : Written (n + skip) n f len (i * (n + skip)) s) :
    ∃ s', bmpRow (some n) skip pixel i s = some s' ∧
      Written (n + skip) n f len ((i + 1) * (n + skip)) s' := by
  have hnext : (i + 1) * (n + skip) = i * (n + skip) + n + skip := by
    rw [Nat.succ_mul, Nat.add_assoc]
  obtain ⟨⟨index, out'⟩, hrun, hindex, hlen, hcells⟩ :=
    @runAll_range_ok _ (putPixel (pixel i)) (fun j => Written (n + skip) n f len (i * (n + skip) + j))
      n s hs fun j hj s' hs' =>
        putPixel_writes (hpixel j hj).1 (hpixel j hj).2 (by omega) (by omega) hs'
  obtain rfl : index = i * (n + skip) + n := hindex
  refine ⟨(i * (n + skip) + n + skip, out'), ?_, hnext.symm, hlen, ?_⟩
  · simp only [bmpRow, Option.bind_eq_bind, Option.bind_some, Int.toNat_natCast, hrun]
  · intro x hx hxn
    refine hcells x ?_ hxn
    by_contra hge
    -- between the row and the next one there are only columns that are left out
    obtain ⟨k, rfl⟩ := Nat.exists_eq_add_of_le (not_lt.mp hge)
    have hmod : (i * (n + skip) + (n + k)) % (n + skip) = n + k :=
      (row_div_mod (by omega)).2
    rw [← Nat.add_assoc] at hmod
    omega

/-- **The loops write every pixel** where the memory is large enough. -/
theorem bmpRows_writes (hpixel : ∀ i < h, ∀ j < n, pixel i j = some (f i j) ∧ (f i j).length = 3)
    (hroom : 64 + 4 * (h * (n + skip)) ≤ out.length) :
    ∃ out', bmpRows h (some n) skip pixel out = some out' ∧
      ∀ i < h, ∀ j < n, cell out' (i * (n + skip) + j) = f i j := by
  -- row by row, with the index where the row begins
  obtain ⟨⟨index, out'⟩, hrun, -, -, hcells⟩ :=
    @runAll_range_ok _ (bmpRow (some n) skip pixel)
      (fun i => Written (n + skip) n f out.length (i * (n + skip))) h (0, out)
      ⟨(Nat.zero_mul _).symm, rfl, by simp⟩ fun i hi s hs => bmpRow_writes (hpixel i hi)
        (by have := Nat.mul_le_mul_right (n + skip) (show i + 1 ≤ h from hi); omega) hs
  refine ⟨out', by rw [bmpRows, hrun]; rfl, ?_⟩
  intro i hi j hj
  obtain ⟨hdiv, hmod⟩ := @row_div_mod (n + skip) i j (by omega)
  -- the cell of a row and a column
  have hcell := hcells _ (row_lt hi (show j < n + skip by omega)) (by rw [hmod]; exact hj)
  rwa [hdiv, hmod] at hcell

/-- The pixels so far are defined, and the last of them is in the memory. -/
structure Bounded (pixel : Nat → Option (List Byte)) (start len j : Nat) (s : Nat × List Byte) :
    Prop where
  index : s.1 = start + j
  length : s.2.length = len
  pixels : ∀ x < j, (pixel x).isSome ∧ 64 + 4 * (start + x) + 3 ≤ len

theorem putPixel_bounds (hthree : ∀ i j rgb, pixel i j = some rgb → rgb.length = 3) {i j : Nat}
    {start len : Nat} {s s' : Nat × List Byte} (hs : Bounded (pixel i) start len j s)
    (hput : putPixel (pixel i) j s = some s') : Bounded (pixel i) start len (j + 1) s' := by
  obtain ⟨index, out⟩ := s
  obtain ⟨hindex, hlen, hpixels⟩ := hs
  obtain rfl : index = start + j := hindex
  dsimp only at hlen
  cases hpixel : pixel i j with
  | none => simp [putPixel, hpixel] at hput
  | some rgb =>
    have hrgb := hthree i j rgb hpixel
    simp only [putPixel, hpixel, Option.bind_eq_bind, Option.bind_some] at hput
    split_ifs at hput with hroom
    cases hput
    refine ⟨rfl, ?_, fun x hx => ?_⟩
    · show (blit out _ _).length = len
      rw [RingBuffer.blit_length hroom, hlen]
    -- the columns before this one, and this one
    · rcases Nat.lt_or_ge x j with hold | hnew
      · exact hpixels x hold
      · obtain rfl : x = j := by omega
        exact ⟨by rw [hpixel]; rfl, by omega⟩

/-- **The loops read every pixel and need the memory for it.** -/
theorem bmpRows_bounds (hthree : ∀ i j rgb, pixel i j = some rgb → rgb.length = 3)
    {out' : List Byte} (hrun : bmpRows h (some n) skip pixel out = some out') :
    ∀ i < h, ∀ j < n, (pixel i j).isSome ∧ 64 + 4 * (i * (n + skip) + j) + 3 ≤ out.length := by
  obtain ⟨⟨index, out₁⟩, hloop, -⟩ := Option.bind_eq_some_iff.mp hrun
  -- what the rows so far have read and needed
  refine (@runAll_range_inv _ (bmpRow (some n) skip pixel) (fun i s => s.1 = i * (n + skip) ∧
    s.2.length = out.length ∧ ∀ i' < i, ∀ j < n, (pixel i' j).isSome ∧
      64 + 4 * (i' * (n + skip) + j) + 3 ≤ out.length) h (0, out) ⟨(Nat.zero_mul _).symm, rfl, nofun⟩
    ?_ _ hloop).2.2
  rintro i - s s' ⟨hindex, hlen, hrows⟩ hrow
  simp only [bmpRow, Option.bind_eq_bind, Option.bind_some, Int.toNat_natCast] at hrow
  obtain ⟨⟨index, out₁⟩, hinner, hs'⟩ := Option.bind_eq_some_iff.mp hrow
  cases hs'
  obtain ⟨hindex', hlen', hpixels⟩ := @runAll_range_inv _ (putPixel (pixel i))
    (Bounded (pixel i) (i * (n + skip)) out.length) n s ⟨hindex, hlen, nofun⟩
    (fun j _ s s' hs hput => putPixel_bounds hthree hs hput) _ hinner
  refine ⟨?_, hlen', fun i' hi' j hj => ?_⟩
  · rw [Nat.succ_mul, ← Nat.add_assoc]
    exact congrArg (· + skip) hindex'
  -- the rows before this one, and this one
  · rcases Nat.lt_or_ge i' i with hold | hnew
    · exact hrows i' hold j hj
    · obtain rfl : i' = i := by omega
      exact hpixels j hj

/-- The byte at `p` is as it was before the loops. -/
structure Framed (out : List Byte) (p x : Nat) (s : Nat × List Byte) : Prop where
  index : s.1 = x
  length : s.2.length = out.length
  byte : s.2[p]? = out[p]?

theorem putPixel_frame {pixel : Nat → Option (List Byte)}
    (hthree : ∀ j rgb, pixel j = some rgb → rgb.length = 3) {p x j : Nat}
    (hp : p < 64 + 4 * x ∨ 64 + 4 * x + 3 ≤ p) {s s' : Nat × List Byte} (hs : Framed out p x s)
    (hput : putPixel pixel j s = some s') : Framed out p (x + 1) s' := by
  obtain ⟨index, out₁⟩ := s
  obtain ⟨hindex, hlen, hbyte⟩ := hs
  obtain rfl : index = x := hindex
  obtain ⟨rgb, hrgb, hput⟩ := Option.bind_eq_some_iff.mp hput
  have hlength := hthree j rgb hrgb
  split_ifs at hput with hroom
  cases hput
  refine ⟨rfl, (RingBuffer.blit_length hroom).trans hlen, ?_⟩
  show (blit out₁ _ _)[p]? = _
  -- the three bytes of the pixel are not at `p`
  rw [RingBuffer.getElem?_blit hroom, if_neg (by omega)]
  exact hbyte

/-- **The loops write nothing but the pixels.** -/
theorem bmpRows_frame (hthree : ∀ i j rgb, pixel i j = some rgb → rgb.length = 3)
    {out' : List Byte} (hrun : bmpRows h (some n) skip pixel out = some out') {p : Nat}
    (hp : ∀ i < h, ∀ j < n,
      p < 64 + 4 * (i * (n + skip) + j) ∨ 64 + 4 * (i * (n + skip) + j) + 3 ≤ p) :
    out'.length = out.length ∧ out'[p]? = out[p]? := by
  obtain ⟨⟨index, out₁⟩, hloop, hout⟩ := Option.bind_eq_some_iff.mp hrun
  cases hout
  -- row by row, and in a row pixel by pixel
  have hframed := @runAll_range_inv _ (bmpRow (some n) skip pixel)
    (fun i => Framed out p (i * (n + skip))) h (0, out) ⟨(Nat.zero_mul _).symm, rfl, rfl⟩ ?_ _ hloop
  · exact ⟨hframed.length, hframed.byte⟩
  intro i hi s s' hs hrow
  simp only [bmpRow, Option.bind_eq_bind, Option.bind_some, Int.toNat_natCast] at hrow
  obtain ⟨⟨index, out₂⟩, hinner, hs'⟩ := Option.bind_eq_some_iff.mp hrow
  cases hs'
  obtain ⟨hindex, hlen, hbyte⟩ := @runAll_range_inv _ (putPixel (pixel i))
    (fun j => Framed out p (i * (n + skip) + j)) n s hs
    (fun j hj s s' hs hput => putPixel_frame (hthree i) (hp i hi j hj) hs hput) _ hinner
  refine ⟨?_, hlen, hbyte⟩
  rw [Nat.succ_mul, ← Nat.add_assoc]
  exact congrArg (· + skip) hindex

/-- Where the number of turns overflows, the loops are undefined. -/
theorem bmpRows_none (hh : 0 < h) : bmpRows h none skip pixel out = none := by
  obtain ⟨k, rfl⟩ : ∃ k, h = k + 1 := ⟨h - 1, by omega⟩
  rw [bmpRows, List.range_succ_eq_map]
  rfl

end Rows

end PgClient.Bitmap
